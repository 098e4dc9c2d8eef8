import ArchaOS.Construction.Bitmap
import ArchaOS.Construction.BootExit
import ArchaOS.Construction.Clock
import ArchaOS.Construction.Demo
import ArchaOS.Construction.Descriptors
import ArchaOS.Construction.Exceptions
import ArchaOS.Construction.FileCalls
import ArchaOS.Construction.FileCopies
import ArchaOS.Construction.FileLoading
import ArchaOS.Construction.FileRequests
import ArchaOS.Construction.FileSystem
import ArchaOS.Construction.GlobalRegistry
import ArchaOS.Construction.GraphicsMode
import ArchaOS.Construction.GrowingHeap
import ArchaOS.Construction.Handoff
import ArchaOS.Construction.HandoffLoop
import ArchaOS.Construction.Initramfs
import ArchaOS.Construction.InterruptSetup
import ArchaOS.Construction.KernelHeap
import ArchaOS.Construction.KernelImage
import ArchaOS.Construction.LegacyPic
import ArchaOS.Construction.LineDrawing
import ArchaOS.Construction.LoaderText
import ArchaOS.Construction.MemoryCopy
import ArchaOS.Construction.NameLookup
import ArchaOS.Construction.Output
import ArchaOS.Construction.OwnedFiles
import ArchaOS.Construction.PassthruTables
import ArchaOS.Construction.PathScanner
import ArchaOS.Construction.PhysicalMemory
import ArchaOS.Construction.PixelMemory
import ArchaOS.Construction.Rectangle
import ArchaOS.Construction.Sleep
import ArchaOS.Construction.Stdio
import ArchaOS.Construction.SyscallAccesses
import ArchaOS.Construction.SyscallEntry
import ArchaOS.Construction.SyscallSetup
import ArchaOS.Construction.Syscalls
import ArchaOS.Construction.Terminal
import ArchaOS.Construction.Threads
import ArchaOS.Construction.VirtualMemory
import ArchaOS.Library.ByteMemory
import ArchaOS.Library.Descriptor
import ArchaOS.Library.DigitalSegment
import ArchaOS.Library.Interleaving
import ArchaOS.Library.InterruptController
import ArchaOS.Library.Interrupts
import ArchaOS.Library.LinkedSegment
import ArchaOS.Library.Numeral
import ArchaOS.Library.Outcome
import ArchaOS.Library.PackedBits
import ArchaOS.Library.PointLoop
import ArchaOS.Library.Processor
import ArchaOS.Library.RadixTree
import ArchaOS.Library.Record
import ArchaOS.Library.Reversal
import ArchaOS.Library.RunningBest
import ArchaOS.Library.Runs
import ArchaOS.Library.Search
import ArchaOS.Library.Traced
import ArchaOS.Library.Word64
import ArchaOS.Proof.Bitmap.Blit
import ArchaOS.Proof.BootExit.Handover
import ArchaOS.Proof.BootExit.KernelPages
import ArchaOS.Proof.Clock.Transparency
import ArchaOS.Proof.Demo.Allocated
import ArchaOS.Proof.Demo.Frames
import ArchaOS.Proof.Descriptors.Encoding
import ArchaOS.Proof.Descriptors.Vectors
import ArchaOS.Proof.Exceptions.Faults
import ArchaOS.Proof.Exceptions.Interleaved
import ArchaOS.Proof.Exceptions.Unseen
import ArchaOS.Proof.FileLoading.Release
import ArchaOS.Proof.FileSystem.Acceptance
import ArchaOS.Proof.FileSystem.Atomicity
import ArchaOS.Proof.FileSystem.Copies
import ArchaOS.Proof.FileSystem.Creation
import ArchaOS.Proof.FileSystem.Deletion
import ArchaOS.Proof.FileSystem.Edits
import ArchaOS.Proof.FileSystem.EntryKinds
import ArchaOS.Proof.FileSystem.EntryOrder
import ArchaOS.Proof.FileSystem.Forcing
import ArchaOS.Proof.FileSystem.Growth
import ArchaOS.Proof.FileSystem.NameBuffer
import ArchaOS.Proof.FileSystem.NameLookup
import ArchaOS.Proof.FileSystem.Newc
import ArchaOS.Proof.FileSystem.Operations
import ArchaOS.Proof.FileSystem.Ownership
import ArchaOS.Proof.FileSystem.OwnershipRun
import ArchaOS.Proof.FileSystem.Parser
import ArchaOS.Proof.FileSystem.ParserSafety
import ArchaOS.Proof.FileSystem.PathCalls
import ArchaOS.Proof.FileSystem.PathStore
import ArchaOS.Proof.FileSystem.Paths
import ArchaOS.Proof.FileSystem.ReaderRule
import ArchaOS.Proof.FileSystem.Records
import ArchaOS.Proof.FileSystem.Refinement
import ArchaOS.Proof.FileSystem.Removal
import ArchaOS.Proof.FileSystem.Resolution
import ArchaOS.Proof.FileSystem.RoundTrip
import ArchaOS.Proof.FileSystem.Scanner
import ArchaOS.Proof.FileSystem.Store
import ArchaOS.Proof.FileSystem.Traversal
import ArchaOS.Proof.FileSystem.Tree
import ArchaOS.Proof.FileSystem.TreeRun
import ArchaOS.Proof.FileSystem.Visibility
import ArchaOS.Proof.GlobalRegistry.FiniteMap
import ArchaOS.Proof.Graphics.Line
import ArchaOS.Proof.Graphics.Moving
import ArchaOS.Proof.Graphics.Rectangle
import ArchaOS.Proof.Graphics.Scrolling
import ArchaOS.Proof.GraphicsMode.Selection
import ArchaOS.Proof.GrowingHeap.Cursors
import ArchaOS.Proof.GrowingHeap.Physical
import ArchaOS.Proof.Handoff.Identity
import ArchaOS.Proof.Handoff.InitialMap
import ArchaOS.Proof.Handoff.Loop
import ArchaOS.Proof.Handoff.Pages
import ArchaOS.Proof.InterruptSetup.Served
import ArchaOS.Proof.KernelHeap.Allocation
import ArchaOS.Proof.KernelHeap.Chunks
import ArchaOS.Proof.KernelHeap.Edits
import ArchaOS.Proof.KernelHeap.FirstFit
import ArchaOS.Proof.KernelHeap.Isolation
import ArchaOS.Proof.KernelHeap.Operations
import ArchaOS.Proof.KernelHeap.Release
import ArchaOS.Proof.KernelHeap.Representation
import ArchaOS.Proof.KernelHeap.Restoration
import ArchaOS.Proof.KernelHeap.Shape
import ArchaOS.Proof.KernelHeap.Zeroing
import ArchaOS.Proof.KernelImage.Loading
import ArchaOS.Proof.KernelImage.Segments
import ArchaOS.Proof.LegacyPic.Masking
import ArchaOS.Proof.MemoryCopy.Builds
import ArchaOS.Proof.MemoryCopy.Overlap
import ArchaOS.Proof.Output.Display
import ArchaOS.Proof.PhysicalMemory.AllocationOrder
import ArchaOS.Proof.PhysicalMemory.Bitmap
import ArchaOS.Proof.PhysicalMemory.Bookkeeping
import ArchaOS.Proof.PhysicalMemory.Confinement
import ArchaOS.Proof.PhysicalMemory.Init
import ArchaOS.Proof.PhysicalMemory.InitialPages
import ArchaOS.Proof.PhysicalMemory.Palloc
import ArchaOS.Proof.PhysicalMemory.Reservation
import ArchaOS.Proof.Sleep.Duration
import ArchaOS.Proof.Stdio.Appending
import ArchaOS.Proof.Stdio.Format
import ArchaOS.Proof.Stdio.Numbers
import ArchaOS.Proof.Stdio.Print
import ArchaOS.Proof.Stdio.Scanning
import ArchaOS.Proof.Syscalls.Calls
import ArchaOS.Proof.Syscalls.DispatchLaw
import ArchaOS.Proof.Syscalls.EntryFrame
import ArchaOS.Proof.Syscalls.Setup
import ArchaOS.Proof.Syscalls.SlotOwnership
import ArchaOS.Proof.Syscalls.TableAccesses
import ArchaOS.Proof.Terminal.Canvas
import ArchaOS.Proof.Terminal.Cursor
import ArchaOS.Proof.Terminal.TextPage
import ArchaOS.Proof.Threads.Context
import ArchaOS.Proof.VirtualMemory.AddressSpace
import ArchaOS.Proof.VirtualMemory.FailedAllocation
import ArchaOS.Proof.VirtualMemory.FrameOwnership
import ArchaOS.Proof.VirtualMemory.FrameRun
import ArchaOS.Proof.VirtualMemory.HeapCursor
import ArchaOS.Proof.VirtualMemory.HeapExhaustion
import ArchaOS.Proof.VirtualMemory.HeapWindow
import ArchaOS.Proof.VirtualMemory.HighMemory
import ArchaOS.Proof.VirtualMemory.MapPage
import ArchaOS.Proof.VirtualMemory.MapRange
import ArchaOS.Proof.VirtualMemory.Passthru
import ArchaOS.Proof.VirtualMemory.Ranges
import ArchaOS.Proof.VirtualMemory.Reach
import ArchaOS.Proof.VirtualMemory.Startup
import ArchaOS.Proof.VirtualMemory.Supply
import ArchaOS.Proof.VirtualMemory.TableCount
import ArchaOS.Proof.VirtualMemory.Tables
import ArchaOS.Proof.VirtualMemory.Unmapping
import ArchaOS.Proof.VirtualMemory.WrappedFrame
import ArchaOS.Proof.VirtualMemory.WrappedTable
