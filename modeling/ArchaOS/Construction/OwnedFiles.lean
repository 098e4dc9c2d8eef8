import ArchaOS.Construction.Initramfs
import Mathlib.Data.Finset.Basic
import Mathlib.Data.Finset.Insert
import Mathlib.Logic.Function.Basic

/-
This file models kernel/fs/fs.c with the heap blocks that its nodes own. The answers of the allocator
are arbitrary: an answer that is no new block counts as the null pointer.
-/

namespace ArchaOS.OwnedFiles

open FileSystem

/-- The nodes, the blocks behind their `name` and `data` pointers, the blocks that are allocated and
the number of allocations so far. -/
structure State where
  nodes : Nodes
  name : Nat → Nat
  data : Nat → Nat
  live : Finset Nat
  calls : Nat

/-- `kmalloc` and `kcalloc` -/
def kmalloc (answers : Nat → Option Nat) (state : State) : Option Nat × State :=
  let next := { state with calls := state.calls + 1 }
  match answers state.calls with
  | none => (none, next)
  | some block =>
      if block = 0 ∨ block = root ∨ block ∈ state.live then (none, next)
      else (some block, { next with live := insert block state.live })

/-- `kfree`; a block that is not allocated is a fault. -/
def kfree (block : Nat) (state : State) : Outcome State :=
  if block = 0 then .ok state
  else if block ∈ state.live then .ok { state with live := state.live.erase block }
  else .error (.node block)

/-- The end of `create_file` makes the node and links it. -/
def placeFile (answers : Nat → Option Nat) (parent nameBlock : Nat) (name : CString) (data : Buffer)
    (size flags : Nat) (state : State) : Outcome (FsReturn × State) :=
  match kmalloc answers state with
  | (none, state) => do
      let state ← kfree nameBlock state
      return (.fail, state)
  | (some file, state) =>
      match if size = 0 then (some 0, state) else kmalloc answers state with
      | (none, state) => do
          let state ← kfree nameBlock state
          let state ← kfree file state
          return (.fail, state)
      | (some dataBlock, state) => do
          let block := if size = 0 then none else some (data.copy size)
          let nodes ← linkChild (state.nodes.insert file
            { id := 0, name := name, parent := 0, children := 0, next := 0, data := block,
              size := size, flags := flags % 2 ^ 16 }) parent file
          return (.success, { state with
            nodes := nodes
            name := Function.update state.name file nameBlock
            data := Function.update state.data file dataBlock })

/-- `create_file` behind the two checks of its arguments -/
def createNode (answers : Nat → Option Nat) (path : CString) (data : Buffer) (size flags : Nat)
    (state : State) : Outcome (FsReturn × State) :=
  match kmalloc answers state with
  | (none, state) => .ok (.fail, state)
  | (some parentBlock, state) =>
      match kmalloc answers state with
      | (none, state) => do
          let state ← kfree parentBlock state
          return (.fail, state)
      | (some nameBlock, state) => do
          let name := baseName path
          if name = [dot] ∨ name = [dot, dot] then
            let state ← kfree nameBlock state
            let state ← kfree parentBlock state
            return (.fail, state)
          let parsed ← parsePath state.nodes (some (parentPath path))
          let state ← kfree parentBlock state
          match parsed with
          | .error status =>
              let state ← kfree nameBlock state
              return (status, state)
          | .ok parent =>
              let directory ← load state.nodes parent
              if ¬ directory.isDirectory then
                let state ← kfree nameBlock state
                return (.notADir, state)
              let found ← findChild state.nodes parent name
              if found ≠ 0 then
                let state ← kfree nameBlock state
                return (.alrExist, state)
              placeFile answers parent nameBlock name data size flags state

def createFile (answers : Nat → Option Nat) (path : Option CString) (data : Buffer)
    (size flags : Nat) (state : State) : Outcome (FsReturn × State) :=
  match path with
  | none => .ok (.invArg, state)
  | some path =>
      if data.null ∧ size ≠ 0 ∧ flags &&& fsIsDirectory = 0 then .ok (.invArg, state)
      else if path = [] ∨ path.getLast? = some slash then .ok (.invPath, state)
      else createNode answers path data size flags state

def deleteFile (path : Option CString) (state : State) : Outcome (FsReturn × State) := do
  match ← parsePath state.nodes path with
  | .error status => return (status, state)
  | .ok target =>
      if target = root then
        return (.permissionDenied, state)
      let file ← load state.nodes target
      if file.isDirectory ∧ file.children ≠ 0 then
        return (.dirNotEmpty, state)
      if file.parent = 0 then
        return (.invalidFs, state)
      match ← unlinkChild state.nodes file.parent target with
      | none => return (.invalidFs, state)
      | some nodes =>
          let state ← kfree (state.name target) { state with nodes := nodes }
          let state ← kfree (state.data target) state
          let state ← kfree target state
          return (.success, { state with nodes := state.nodes.erase target })

def createFolder (answers : Nat → Option Nat) (path : Option CString) (state : State) :
    Outcome (FsReturn × State) := do
  let (status, state) ← createFile answers path ⟨true, fun _ => 0⟩ 0 fsIsDirectory state
  if status ≠ .success then
    return (status, state)
  return (.success, state)

def deleteFolder (path : Option CString) (state : State) : Outcome (FsReturn × State) := do
  let (status, state) ← deleteFile path state
  if status ≠ .success then
    return (status, state)
  return (.success, state)

/-- `read_file_content`, which calls neither `kmalloc` nor `kfree` -/
def readFileContent (path : Option CString) (buffer : Buffer) (bufSize : Nat) (state : State) :
    Outcome (FsReturn × List UInt8) :=
  FileSystem.readFileContent path buffer bufSize ⟨state.nodes, state.calls⟩

/-- `write_file_content`, which calls neither `kmalloc` nor `kfree` -/
def writeFileContent (path : Option CString) (buffer : Buffer) (bufSize : Nat) (state : State) :
    Outcome (FsReturn × State) := do
  let (status, fs) ← FileSystem.writeFileContent path buffer bufSize ⟨state.nodes, state.calls⟩
  return (status, { state with nodes := fs.nodes })

/-- The filesystem as `parse_cpio_disk` sees it. -/
def ownedFiles (answers : Nat → Option Nat) : Files State where
  createFolder := fun path => createFolder answers (some path)
  createFile := fun path => createFile answers (some path)

/-- The root alone; its node is static and owns no block. -/
def initState : State where
  nodes := initFs.nodes
  name := fun _ => 0
  data := fun _ => 0
  live := ∅
  calls := 0

end ArchaOS.OwnedFiles
