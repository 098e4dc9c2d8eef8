import ArchaOS.Construction.KernelHeap
import ArchaOS.Construction.LineDrawing
import ArchaOS.Construction.MemoryCopy
import ArchaOS.Construction.Output
import ArchaOS.Construction.Sleep

/-
This file models start_demo_show of kernel/kernel_apps/demo.c. The rotation and the projection are
floating-point operations; the projected vertices are inputs.
-/

namespace ArchaOS.Demo

open Library Graphics KernelHeap MemoryCopy
open Terminal (Font)

/-- What stops the show. -/
inductive Fault where
  | line (fault : Graphics.Fault)
  | report (fault : Stdio.Fault)
  deriving DecidableEq, Repr

abbrev Outcome := Except Fault

def edges : List (Nat × Nat) :=
  [(2, 1), (2, 0), (1, 0), (4, 3), (4, 5), (8, 3), (9, 5), (9, 6), (7, 6), (7, 8),
    (12, 11), (12, 10), (11, 10), (14, 13), (14, 15), (18, 13), (19, 15), (19, 16), (17, 16), (17, 18),
    (0, 10), (1, 11), (2, 12), (3, 13), (4, 14), (5, 15), (6, 16), (7, 17), (8, 18), (9, 19)]

/-- `screen_x[v]` and `screen_y[v]`, if `visible[v]` -/
abbrev Vertices := Nat → Option (BitVec 32 × BitVec 32)

/-- What one turn of the loop is given. -/
structure Frame where
  vertices : Vertices
  ticks : Nat

/-- `framebuffer_pb` and `fb_size` with the two buffers that have been allocated. -/
structure Buffers where
  framebuffer : PixelBuffer
  fbSize : Nat
  backbufferAddr : Nat
  backgroundAddr : Nat
  covers : 4 * (framebuffer.pitch * framebuffer.height) ≤ fbSize
  framebufferFits : framebuffer.address + fbSize ≤ 2 ^ 64
  backbufferFits : backbufferAddr + fbSize < 2 ^ 64
  backgroundFits : backgroundAddr + fbSize < 2 ^ 64

/-- The allocations in front of the loop; `none` stands for a call that does not return. -/
def allocateBuffers (fbSize : Nat) (granted granted' : Bool) (heap : Heap) :
    Option (Option (Nat × Nat) × Heap) :=
  if fbSize = 0 then some (none, heap)
  else do
    let (backbufferAddr, heap) ← kmalloc fbSize granted heap
    if backbufferAddr = 0 then return (none, heap)
    let (backgroundAddr, heap) ← kmalloc fbSize granted' heap
    if backgroundAddr = 0 then return (none, kfree backbufferAddr heap)
    return (some (backbufferAddr, backgroundAddr), heap)

def Buffers.backbuffer (buffers : Buffers) : PixelBuffer where
  width := buffers.framebuffer.width
  height := buffers.framebuffer.height
  pitch := buffers.framebuffer.pitch
  address := buffers.backbufferAddr
  heightFits := buffers.framebuffer.heightFits
  addressFits := Nat.lt_of_le_of_lt (Nat.le_add_right _ _) buffers.backbufferFits
  fits := by
    have covers := buffers.covers
    have fits := buffers.backbufferFits
    rw [Nat.mul_comm buffers.framebuffer.pitch] at covers
    omega

/-- The variables that the loop changes. -/
structure Show where
  reportStart : Nat
  console : Output.Console

section Loop

variable (buffers : Buffers) (qemuTest fuel : Nat) (font : Font)

/-- The body of the loop over the edges. -/
def drawEdge (vertices : Vertices) (memory : Memory) (edge : Nat × Nat) : Outcome Memory :=
  match vertices edge.1, vertices edge.2 with
  | some first, some second =>
      (drawLineQ (some buffers.framebuffer) (some buffers.backbuffer) first.1 first.2 second.1 second.2
        0x00DDDDDD fuel memory).mapError .line
  | _, _ => .ok memory

/-- `"FT: %u\r"` -/
def reportFormat : List UInt8 := [70, 84, 58, 32, 37, 117, 13, 0]

/-- `print("FT: %u\r", (unsigned)elapsed)` -/
def report (elapsed : Nat) (console : Output.Console) : Outcome Output.Console := do
  let chars ← (Stdio.printLoop reportFormat [.word (BitVec.ofNat 32 elapsed)]).mapError .report
  return Output.putchars (some buffers.framebuffer) font (chars.map Output.printed) console

/-- The body of `for (;;)` -/
def turn (progress : Show) (frame : Frame) : Outcome Show := do
  let console := progress.console
  let memory := (memcpy qemuTest buffers.backbufferAddr buffers.backgroundAddr buffers.fbSize
    console.memory).2
  let memory ← edges.foldlM (drawEdge buffers fuel frame.vertices) memory
  let memory := (memcpy qemuTest buffers.framebuffer.address buffers.backbufferAddr buffers.fbSize
    memory).2
  let now := Sleep.getMilliseconds frame.ticks
  let console ← report buffers font (sub64 now progress.reportStart) { console with memory := memory }
  return ⟨now, console⟩

/-- `start_demo_show` behind the allocations, for the frames that have been shown; `ticks` is the
answer of `get_ticks` in front of the loop. -/
def showFrames (ticks : Nat) (frames : List Frame) (console : Output.Console) : Outcome Show := do
  let memory := (memcpy qemuTest buffers.backgroundAddr buffers.framebuffer.address buffers.fbSize
    console.memory).2
  let memory := (memcpy qemuTest buffers.backbufferAddr buffers.backgroundAddr buffers.fbSize memory).2
  frames.foldlM (turn buffers qemuTest fuel font)
    ⟨Sleep.getMilliseconds ticks, { console with memory := memory }⟩

end Loop

end ArchaOS.Demo
