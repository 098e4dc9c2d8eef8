import ArchaOS.Construction.FileSystem

/-
This file models a caller of kernel/fs/fs.c: the filesystem together with the buffer and the list
pointer that the caller passes.
-/

namespace ArchaOS.FileSystem

/-- The bytes behind a pointer after some have been copied to it. -/
def Buffer.store (buffer : Buffer) (bytes : List UInt8) : Buffer :=
  { buffer with byte := fun index => (bytes[index]?).getD (buffer.byte index) }

structure Caller where
  fs : Fs
  buffer : Buffer
  list : Option Nat

/-- The filesystem calls; `create_file` takes its data from the caller's buffer. -/
inductive Request where
  | createFile (path : Option CString) (size flags : Nat)
  | createFolder (path : Option CString)
  | deleteFile (path : Option CString)
  | deleteFolder (path : Option CString)
  | readFileContent (path : Option CString) (bufSize : Nat)
  | writeFileContent (path : Option CString) (bufSize : Nat)
  | listFiles (path : Option CString)

/-- A call that changes the filesystem alone. -/
def Caller.update (caller : Caller) (call : Outcome (FsReturn × Fs)) : Outcome (FsReturn × Caller) := do
  let (status, fs) ← call
  return (status, { caller with fs := fs })

def Request.run (allocator : Allocator) (caller : Caller) : Request → Outcome (FsReturn × Caller)
  | .createFile path size flags =>
      caller.update (FileSystem.createFile allocator path caller.buffer size flags caller.fs)
  | .createFolder path => caller.update (FileSystem.createFolder allocator path caller.fs)
  | .deleteFile path => caller.update (FileSystem.deleteFile path caller.fs)
  | .deleteFolder path => caller.update (FileSystem.deleteFolder path caller.fs)
  | .readFileContent path bufSize => do
      let (status, bytes) ← FileSystem.readFileContent path caller.buffer bufSize caller.fs
      return (status, { caller with buffer := caller.buffer.store bytes })
  | .writeFileContent path bufSize =>
      caller.update (FileSystem.writeFileContent path caller.buffer bufSize caller.fs)
  | .listFiles path => do
      let (status, list) ← FileSystem.listFiles path caller.list caller.fs
      return (status, { caller with list := list })

end ArchaOS.FileSystem
