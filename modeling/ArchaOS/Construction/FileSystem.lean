import Mathlib.Algebra.Group.Nat.Defs
import Mathlib.Data.List.AList

/-
This file models the RAM filesystem of kernel/fs/fs.c over nodes at addresses.
-/

namespace ArchaOS.FileSystem

/-- The bytes of a C string before its terminator. -/
abbrev CString := List UInt8

instance pathLawfulBEq : LawfulBEq (List CString) := inferInstance

def slash : UInt8 := 47

def dot : UInt8 := 46

def fsIsDirectory : Nat := 1

/-- `enum FS_RETURN` -/
inductive FsReturn where
  | success
  | fail
  | notFound
  | invalidPath
  | notADir
  | isADir
  | bufTooSmall
  | invalidFile
  | fileTooSmall
  | permissionDenied
  | dirNotEmpty
  | invalidFs
  | alrExist
  | invArg
  | invPath
  deriving DecidableEq, Repr

/-- `struct file`; pointers are addresses, and the block behind `data` is held by value. -/
structure File where
  id : Nat
  name : CString
  parent : Nat
  children : Nat
  next : Nat
  data : Option (List UInt8)
  size : Nat
  flags : Nat
  deriving DecidableEq, Repr

/-- `flags & FS_IS_DIRECTORY` -/
def File.isDirectory (file : File) : Prop := file.flags &&& fsIsDirectory ≠ 0

instance (file : File) : Decidable file.isDirectory := inferInstanceAs (Decidable (_ ≠ _))

/-- The nodes that are in use, by address. -/
abbrev Nodes := AList fun _ : Nat => File

/-- The address of the static node `root`. -/
def root : Nat := 1

/-- What a run of the code can do besides returning. -/
inductive Fault where
  | node (address : Nat)
  | endless
  | disk (index : Nat)
  | name (index : Nat)
  deriving DecidableEq, Repr

abbrev Outcome := Except Fault

/-- The answers of the kernel heap: an address is new when it is handed out, and no answer
stands for the null pointer. -/
structure Allocator where
  pick : Nodes → Nat → Option Nat
  fresh : ∀ nodes call address, pick nodes call = some address → address ≠ 0 ∧ address ∉ nodes

/-- The nodes and the number of allocations so far. -/
structure Fs where
  nodes : Nodes
  calls : Nat

/-- One call of `kmalloc` or `kcalloc`. -/
def Fs.allocate (allocator : Allocator) (fs : Fs) : Option Nat × Fs :=
  (allocator.pick fs.nodes fs.calls, { fs with calls := fs.calls + 1 })

/-- A pointer argument with the bytes that stand behind it. -/
structure Buffer where
  null : Bool
  byte : Nat → UInt8

def Buffer.copy (buffer : Buffer) (size : Nat) : List UInt8 := (List.range size).map buffer.byte

/-- `*pointer` for a pointer to a node. -/
def load (nodes : Nodes) (address : Nat) : Outcome File :=
  match nodes.lookup address with
  | some file => .ok file
  | none => .error (.node address)

/-- A walk along `next` that visits no node twice ends within this many steps. -/
def walkBound (nodes : Nodes) : Nat := nodes.keys.length + 1

/-- The loop of `find_child` and of `parse_path` over the nodes of one directory. -/
def searchChildren (nodes : Nodes) (name : CString) : Nat → Nat → Outcome Nat
  | 0, _ => .error .endless
  | bound + 1, child =>
      if child = 0 then .ok 0
      else do
        let file ← load nodes child
        if file.name = name then .ok child else searchChildren nodes name bound file.next

def findChild (nodes : Nodes) (dir : Nat) (name : CString) : Outcome Nat := do
  let file ← load nodes dir
  searchChildren nodes name (walkBound nodes) file.children

def linkChild (nodes : Nodes) (dir child : Nat) : Outcome Nodes := do
  let file ← load nodes child
  let directory ← load nodes dir
  let nodes := nodes.insert child { file with parent := dir, next := directory.children }
  let directory ← load nodes dir
  return nodes.insert dir { directory with children := child }

/-- The places that `link` points at in `unlink_child`. -/
inductive Link where
  | children (dir : Nat)
  | next (child : Nat)

def Link.read (nodes : Nodes) : Link → Outcome Nat
  | .children dir => do
      let file ← load nodes dir
      return file.children
  | .next child => do
      let file ← load nodes child
      return file.next

def Link.write (nodes : Nodes) (value : Nat) : Link → Outcome Nodes
  | .children dir => do
      let file ← load nodes dir
      return nodes.insert dir { file with children := value }
  | .next child => do
      let file ← load nodes child
      return nodes.insert child { file with next := value }

/-- The loop of `unlink_child`; no link stands for the end of the list. -/
def findLink (nodes : Nodes) (target : Nat) : Nat → Link → Outcome (Option Link)
  | 0, _ => .error .endless
  | bound + 1, link => do
      let here ← link.read nodes
      if here = 0 then .ok none
      else if here = target then .ok (some link)
      else findLink nodes target bound (.next here)

/-- `unlink_child`; the result is missing where the source returns 0. -/
def unlinkChild (nodes : Nodes) (parent target : Nat) : Outcome (Option Nodes) := do
  match ← findLink nodes target (walkBound nodes) (.children parent) with
  | none => return none
  | some link =>
      let file ← load nodes target
      let nodes ← link.write nodes file.next
      let file ← load nodes target
      return some (nodes.insert target { file with next := 0 })

def skipSlashes (path : CString) : CString := path.dropWhile (· = slash)

/-- The main loop of `parse_path`; `bound` is more than the number of bytes left. -/
def parseSteps (nodes : Nodes) : Nat → Nat → CString → Outcome (Except FsReturn Nat)
  | 0, _, _ => .error .endless
  | _ + 1, current, [] => .ok (.ok current)
  | bound + 1, current, byte :: rest => do
      let component := (byte :: rest).takeWhile (· ≠ slash)
      let path := skipSlashes ((byte :: rest).dropWhile (· ≠ slash))
      if component = [dot] then
        parseSteps nodes bound current path
      else if component = [dot, dot] then
        let file ← load nodes current
        parseSteps nodes bound file.parent path
      else
        let file ← load nodes current
        if ¬ file.isDirectory then
          return .error .notADir
        let child ← searchChildren nodes component (walkBound nodes) file.children
        if child = 0 then
          return .error .notFound
        parseSteps nodes bound child path

def parsePath (nodes : Nodes) : Option CString → Outcome (Except FsReturn Nat)
  | none => .ok (.error .invalidPath)
  | some path => parseSteps nodes (path.length + 1) root (skipSlashes path)

/-- `strrchr`, as an index -/
def strrchr (target : UInt8) : CString → Option Nat
  | [] => none
  | byte :: rest =>
      match strrchr target rest with
      | some index => some (index + 1)
      | none => if byte = target then some 0 else none

/-- The parent path that `create_file` cuts out of a path. -/
def parentPath (path : CString) : CString :=
  match strrchr slash path with
  | none => [dot]
  | some 0 => [slash]
  | some index => path.take index

/-- The name that `create_file` cuts out of a path. -/
def baseName (path : CString) : CString :=
  match strrchr slash path with
  | none => path
  | some index => path.drop (index + 1)

/-- The end of `create_file` makes the node and links it. -/
def placeFile (allocator : Allocator) (parent : Nat) (name : CString) (data : Buffer)
    (size flags : Nat) (fs : Fs) : Outcome (FsReturn × Fs) :=
  match fs.allocate allocator with
  | (none, fs) => .ok (.fail, fs)
  | (some file, fs) =>
      match if size = 0 then (some 0, fs) else fs.allocate allocator with
      | (none, fs) => .ok (.fail, fs)
      | (some _, fs) => do
          let block := if size = 0 then none else some (data.copy size)
          let nodes ← linkChild (fs.nodes.insert file
            { id := 0, name := name, parent := 0, children := 0, next := 0, data := block,
              size := size, flags := flags % 2 ^ 16 }) parent file
          return (.success, { fs with nodes := nodes })

def createFile (allocator : Allocator) (path : Option CString) (data : Buffer) (size flags : Nat)
    (fs : Fs) : Outcome (FsReturn × Fs) :=
  match path with
  | none => .ok (.invArg, fs)
  | some path =>
      if data.null ∧ size ≠ 0 ∧ flags &&& fsIsDirectory = 0 then .ok (.invArg, fs)
      else if path = [] ∨ path.getLast? = some slash then .ok (.invPath, fs)
      else
        match fs.allocate allocator with
        | (none, fs) => .ok (.fail, fs)
        | (some _, fs) =>
            match fs.allocate allocator with
            | (none, fs) => .ok (.fail, fs)
            | (some _, fs) =>
                let name := baseName path
                if name = [dot] ∨ name = [dot, dot] then .ok (.fail, fs)
                else do
                  match ← parsePath fs.nodes (some (parentPath path)) with
                  | .error status => return (status, fs)
                  | .ok parent =>
                      let directory ← load fs.nodes parent
                      if ¬ directory.isDirectory then
                        return (.notADir, fs)
                      let found ← findChild fs.nodes parent name
                      if found ≠ 0 then
                        return (.alrExist, fs)
                      placeFile allocator parent name data size flags fs

def deleteFile (path : Option CString) (fs : Fs) : Outcome (FsReturn × Fs) := do
  match ← parsePath fs.nodes path with
  | .error status => return (status, fs)
  | .ok target =>
      if target = root then
        return (.permissionDenied, fs)
      let file ← load fs.nodes target
      if file.isDirectory ∧ file.children ≠ 0 then
        return (.dirNotEmpty, fs)
      if file.parent = 0 then
        return (.invalidFs, fs)
      match ← unlinkChild fs.nodes file.parent target with
      | none => return (.invalidFs, fs)
      | some nodes => return (.success, { fs with nodes := nodes.erase target })

def createFolder (allocator : Allocator) (path : Option CString) (fs : Fs) :
    Outcome (FsReturn × Fs) := do
  let (status, fs) ← createFile allocator path ⟨true, fun _ => 0⟩ 0 fsIsDirectory fs
  if status ≠ .success then
    return (status, fs)
  return (.success, fs)

def deleteFolder (path : Option CString) (fs : Fs) : Outcome (FsReturn × Fs) := do
  let (status, fs) ← deleteFile path fs
  if status ≠ .success then
    return (status, fs)
  return (.success, fs)

/-- `read_file_content`, with the bytes that it copies to the buffer -/
def readFileContent (path : Option CString) (buffer : Buffer) (bufSize : Nat) (fs : Fs) :
    Outcome (FsReturn × List UInt8) := do
  match ← parsePath fs.nodes path with
  | .error status => return (status, [])
  | .ok target =>
      let file ← load fs.nodes target
      if file.isDirectory then
        return (.isADir, [])
      if bufSize < file.size then
        return (.bufTooSmall, [])
      if file.size ≠ 0 ∧ file.data = none then
        return (.invalidFile, [])
      if file.size ≠ 0 ∧ buffer.null then
        return (.invArg, [])
      return (.success, (file.data.getD []).take file.size)

def writeFileContent (path : Option CString) (buffer : Buffer) (bufSize : Nat) (fs : Fs) :
    Outcome (FsReturn × Fs) := do
  match ← parsePath fs.nodes path with
  | .error status => return (status, fs)
  | .ok target =>
      let file ← load fs.nodes target
      if file.isDirectory then
        return (.isADir, fs)
      if bufSize > file.size then
        return (.fileTooSmall, fs)
      if bufSize ≠ 0 ∧ file.data = none then
        return (.invalidFile, fs)
      if file.size ≠ 0 ∧ buffer.null then
        return (.invArg, fs)
      let data := file.data.map fun old => buffer.copy bufSize ++ old.drop bufSize
      return (.success, { fs with nodes := fs.nodes.insert target { file with data := data } })

/-- `list_files`, with the value behind `list` afterwards; no value stands for a null pointer. -/
def listFiles (path : Option CString) (list : Option Nat) (fs : Fs) :
    Outcome (FsReturn × Option Nat) :=
  match list with
  | none => .ok (.invArg, none)
  | some old => do
      match ← parsePath fs.nodes path with
      | .error status => return (status, some old)
      | .ok target =>
          let file ← load fs.nodes target
          return (.success, some file.children)

/-- The main loop of `create_file_force`; `bound` is more than the number of bytes left. -/
def forceSteps (allocator : Allocator) (data : Buffer) (size flags : Nat) :
    Nat → CString → Fs → Outcome (FsReturn × Fs)
  | 0, _, _ => .error .endless
  | _ + 1, [], fs => .ok (.success, fs)
  | bound + 1, byte :: rest, fs => do
      let path := skipSlashes ((byte :: rest).dropWhile (· ≠ slash))
      match ← parsePath fs.nodes (some path) with
      | .ok _ => forceSteps allocator data size flags bound path fs
      | .error _ =>
          let (status, fs) ←
            if path = [] then createFile allocator (some path) data size flags fs
            else createFolder allocator (some path) fs
          if status ≠ .success then
            return (.fail, fs)
          forceSteps allocator data size flags bound path fs

def createFileForce (allocator : Allocator) (path : Option CString) (data : Buffer)
    (size flags : Nat) (fs : Fs) : Outcome (FsReturn × Fs) :=
  match path with
  | none => .ok (.invArg, fs)
  | some path =>
      if data.null ∧ size ≠ 0 then .ok (.invArg, fs)
      else forceSteps allocator data size flags (path.length + 1) (skipSlashes path) fs

/-- The filesystem that `init_fs` sets up: the root alone. -/
def initFs : Fs where
  nodes := AList.singleton root
    { id := 0, name := [114, 111, 111, 116], parent := root, children := 0, next := 0, data := none,
      size := 0, flags := fsIsDirectory }
  calls := 0

end ArchaOS.FileSystem
