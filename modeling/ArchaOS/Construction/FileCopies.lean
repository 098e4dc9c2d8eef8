import ArchaOS.Construction.FileSystem

/-
This file models create_file, read_file_content and write_file_content of kernel/fs/fs.c with the
memcpy calls that they make.
-/

namespace ArchaOS.FileSystem

/-- One `memcpy`: its length, whether its pointers are null, the size of the heap block that it reads
or writes, and the number of bytes that the caller passed. -/
structure Copy where
  length : Nat
  toNull : Bool
  fromNull : Bool
  block : Nat
  passed : Nat

/-- The copy to `parent_path`; a path without a parent is set by `strcpy`. -/
def parentCopies (path : CString) (parentPath : Nat) : List Copy :=
  match strrchr slash path with
  | none => []
  | some 0 => []
  | some length => [⟨length, decide (parentPath = 0), false, length + 2, path.length⟩]

/-- The copy to `name` -/
def nameCopy (path : CString) (name : Nat) : Copy :=
  ⟨(baseName path).length, decide (name = 0), false, (baseName path).length + 1, (baseName path).length⟩

/-- The copy to the data of a new file. -/
def dataCopies (data : Buffer) (size block : Nat) : List Copy :=
  if size = 0 then [] else [⟨size, decide (block = 0), data.null, size, size⟩]

/-- The end of `create_file` with its copies. -/
def placeFileTraced (allocator : Allocator) (parent : Nat) (name : CString) (data : Buffer)
    (size flags : Nat) (copies : List Copy) (fs : Fs) : Outcome (List Copy × FsReturn × Fs) :=
  match fs.allocate allocator with
  | (none, fs) => .ok (copies, .fail, fs)
  | (some file, fs) =>
      match if size = 0 then (some 0, fs) else fs.allocate allocator with
      | (none, fs) => .ok (copies, .fail, fs)
      | (some block, fs) => do
          let copies := copies ++ dataCopies data size block
          let bytes := if size = 0 then none else some (data.copy size)
          let nodes ← linkChild (fs.nodes.insert file
            { id := 0, name := name, parent := 0, children := 0, next := 0, data := bytes,
              size := size, flags := flags % 2 ^ 16 }) parent file
          return (copies, .success, { fs with nodes := nodes })

/-- `create_file` with its copies -/
def createFileTraced (allocator : Allocator) (path : Option CString) (data : Buffer) (size flags : Nat)
    (fs : Fs) : Outcome (List Copy × FsReturn × Fs) :=
  match path with
  | none => .ok ([], .invArg, fs)
  | some path =>
      if data.null ∧ size ≠ 0 ∧ flags &&& fsIsDirectory = 0 then .ok ([], .invArg, fs)
      else if path = [] ∨ path.getLast? = some slash then .ok ([], .invPath, fs)
      else
        match fs.allocate allocator with
        | (none, fs) => .ok ([], .fail, fs)
        | (some parentBlock, fs) =>
            let copies := parentCopies path parentBlock
            match fs.allocate allocator with
            | (none, fs) => .ok (copies, .fail, fs)
            | (some nameBlock, fs) =>
                let copies := copies ++ [nameCopy path nameBlock]
                let name := baseName path
                if name = [dot] ∨ name = [dot, dot] then .ok (copies, .fail, fs)
                else do
                  match ← parsePath fs.nodes (some (parentPath path)) with
                  | .error status => return (copies, status, fs)
                  | .ok parent =>
                      let directory ← load fs.nodes parent
                      if ¬ directory.isDirectory then
                        return (copies, .notADir, fs)
                      let found ← findChild fs.nodes parent name
                      if found ≠ 0 then
                        return (copies, .alrExist, fs)
                      placeFileTraced allocator parent name data size flags copies fs

/-- The copy between the data of a file and the buffer of a caller. -/
def contentCopy (length : Nat) (toNull fromNull : Bool) (file : File) (bufSize : Nat) : Copy :=
  ⟨length, toNull, fromNull, (file.data.getD []).length, bufSize⟩

/-- `read_file_content` with its copies -/
def readFileContentTraced (path : Option CString) (buffer : Buffer) (bufSize : Nat) (fs : Fs) :
    Outcome (List Copy × FsReturn × List UInt8) := do
  match ← parsePath fs.nodes path with
  | .error status => return ([], status, [])
  | .ok target =>
      let file ← load fs.nodes target
      if file.isDirectory then
        return ([], .isADir, [])
      if bufSize < file.size then
        return ([], .bufTooSmall, [])
      if file.size ≠ 0 ∧ file.data = none then
        return ([], .invalidFile, [])
      if file.size ≠ 0 ∧ buffer.null then
        return ([], .invArg, [])
      return ([contentCopy file.size buffer.null file.data.isNone file bufSize], .success,
        (file.data.getD []).take file.size)

/-- `write_file_content` with its copies -/
def writeFileContentTraced (path : Option CString) (buffer : Buffer) (bufSize : Nat) (fs : Fs) :
    Outcome (List Copy × FsReturn × Fs) := do
  match ← parsePath fs.nodes path with
  | .error status => return ([], status, fs)
  | .ok target =>
      let file ← load fs.nodes target
      if file.isDirectory then
        return ([], .isADir, fs)
      if bufSize > file.size then
        return ([], .fileTooSmall, fs)
      if bufSize ≠ 0 ∧ file.data = none then
        return ([], .invalidFile, fs)
      if file.size ≠ 0 ∧ buffer.null then
        return ([], .invArg, fs)
      let data := file.data.map fun old => buffer.copy bufSize ++ old.drop bufSize
      return ([contentCopy bufSize file.data.isNone buffer.null file bufSize], .success,
        { fs with nodes := fs.nodes.insert target { file with data := data } })

end ArchaOS.FileSystem
