import ArchaOS.Construction.FileSystem

/-
This file models a client of kernel/fs/fs.c that sees the filesystem through its calls alone, and the
loop of kernel/startup.c that prints a directory.
-/

namespace ArchaOS.FileSystem

/-- The loop of `kernel_main` over the nodes behind the list pointer: the names and the flags that it
prints. -/
def listEntries (nodes : Nodes) : Nat → Nat → Outcome (List (CString × Nat))
  | 0, _ => .error .endless
  | bound + 1, tfiles =>
      if tfiles = 0 then .ok []
      else do
        let file ← load nodes tfiles
        let rest ← listEntries nodes bound file.next
        return (file.name, file.flags) :: rest

/-- The calls with the memory that the client passes. -/
inductive Call where
  | createFile (path : Option CString) (data : Buffer) (size flags : Nat)
  | createFolder (path : Option CString)
  | deleteFile (path : Option CString)
  | deleteFolder (path : Option CString)
  | readFileContent (path : Option CString) (buffer : Buffer) (bufSize : Nat)
  | writeFileContent (path : Option CString) (buffer : Buffer) (bufSize : Nat)
  | listFiles (path : Option CString) (list : Option Nat)

/-- What a client sees of a call: its status, the bytes in its buffer and the listed directory. -/
structure Reply where
  status : FsReturn
  bytes : List UInt8
  entries : List (CString × Nat)
  deriving DecidableEq, Repr

/-- The reply of a call that returns its status alone. -/
def Reply.bare (status : FsReturn) : Reply := ⟨status, [], []⟩

def Call.run (allocator : Allocator) (fs : Fs) : Call → Outcome (Reply × Fs)
  | .createFile path data size flags => do
      let (status, fs) ← FileSystem.createFile allocator path data size flags fs
      return (.bare status, fs)
  | .createFolder path => do
      let (status, fs) ← FileSystem.createFolder allocator path fs
      return (.bare status, fs)
  | .deleteFile path => do
      let (status, fs) ← FileSystem.deleteFile path fs
      return (.bare status, fs)
  | .deleteFolder path => do
      let (status, fs) ← FileSystem.deleteFolder path fs
      return (.bare status, fs)
  | .readFileContent path buffer bufSize => do
      let (status, bytes) ← FileSystem.readFileContent path buffer bufSize fs
      return (⟨status, bytes, []⟩, fs)
  | .writeFileContent path buffer bufSize => do
      let (status, fs) ← FileSystem.writeFileContent path buffer bufSize fs
      return (.bare status, fs)
  | .listFiles path list => do
      let (status, list) ← FileSystem.listFiles path list fs
      if status ≠ .success then
        return (.bare status, fs)
      let entries ← listEntries fs.nodes (walkBound fs.nodes) (list.getD 0)
      return (⟨status, [], entries⟩, fs)

/-- The replies to a run of calls. -/
def replies (allocator : Allocator) : Fs → List Call → Outcome (List Reply)
  | _, [] => .ok []
  | fs, call :: rest => do
      let (reply, fs) ← call.run allocator fs
      let others ← replies allocator fs rest
      return reply :: others

end ArchaOS.FileSystem
