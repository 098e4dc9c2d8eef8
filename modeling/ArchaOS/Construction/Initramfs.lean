import ArchaOS.Construction.FileSystem
import ArchaOS.Library.Word64

/-
This file models the cpio reader of kernel/fs/drivers/initramfs.c. Every read of the archive and
every access to the local name buffer is checked, and a failed check is a fault. The reader is stated
over any filesystem that offers the two calls it makes.
-/

namespace ArchaOS.FileSystem

open Library

def maxPath : Nat := 1024 * 4

/-- An archive in memory; its length is a `size_t`. -/
structure Archive where
  bytes : List UInt8
  fits : bytes.length < 2 ^ 64

def Archive.size (disk : Archive) : Nat := disk.bytes.length

def readDisk (disk : Archive) (index : Nat) : Outcome UInt8 :=
  match disk.bytes[index]? with
  | some byte => .ok byte
  | none => .error (.disk index)

def readRange (disk : Archive) (offset : Nat) : Nat → Outcome (List UInt8)
  | 0 => .ok []
  | count + 1 => do
      let byte ← readDisk disk offset
      let rest ← readRange disk (offset + 1) count
      return byte :: rest

/-- The value of one hexadecimal digit in either letter case. -/
def hexDigit (c : UInt8) : Option Nat :=
  if 48 ≤ c.toNat ∧ c.toNat ≤ 57 then some (c.toNat - 48)
  else if 97 ≤ c.toNat ∧ c.toNat ≤ 102 then some (c.toNat - 97 + 10)
  else if 65 ≤ c.toNat ∧ c.toNat ≤ 70 then some (c.toNat - 65 + 10)
  else none

/-- The loop of `hex8`; no value stands for the result 0. -/
def hexLoop (disk : Archive) : Nat → Nat → Nat → Outcome (Option Nat)
  | 0, _, value => .ok (some value)
  | count + 1, position, value => do
      let c ← readDisk disk position
      match hexDigit c with
      | none => return none
      | some digit => hexLoop disk count (position + 1) ((value <<< 4) % 2 ^ 32 ||| digit)

def hex8 (disk : Archive) (position : Nat) : Outcome (Option Nat) := hexLoop disk 8 position 0

/-- The loop that fills `fields`. -/
def readFields (disk : Archive) : Nat → Nat → Outcome (Option (List Nat))
  | 0, _ => .ok (some [])
  | count + 1, position => do
      match ← hex8 disk position with
      | none => return none
      | some field =>
          match ← readFields disk count (position + 8) with
          | none => return none
          | some fields => return some (field :: fields)

/-- The header fields that the reader uses. -/
structure Header where
  mode : Nat
  filesize : Nat
  namesize : Nat
  deriving DecidableEq, Repr

def magic : List UInt8 := [48, 55, 48, 55, 48, 49]

/-- The head of a record; an error is the code that `parse_cpio_disk` returns. -/
def parseHeader (disk : Archive) (offset : Nat) : Outcome (Except Int Header) := do
  if offset > disk.size ∨ sub64 disk.size offset < 110 then
    return .error (-5)
  let start ← readRange disk offset 6
  if start ≠ magic then
    return .error (-2)
  match ← readFields disk 13 (offset + 6) with
  | none => return .error (-1)
  | some fields => return .ok ⟨fields.getD 1 0, fields.getD 6 0, fields.getD 11 0⟩

def readName (name : List UInt8) (index : Nat) : Outcome UInt8 :=
  match name[index]? with
  | some byte => .ok byte
  | none => .error (.name index)

def writeName (name : List UInt8) (index : Nat) (value : UInt8) : Outcome (List UInt8) :=
  if index < name.length then .ok (name.set index value) else .error (.name index)

/-- The C string that starts at an index of the buffer; a string without a terminator runs off
its end. -/
def cString (name : List UInt8) (start : Nat) : Outcome CString :=
  if 0 ∈ name.drop start then .ok ((name.drop start).takeWhile (· ≠ 0)) else .error (.name name.length)

/-- `memcpy(name, bytes + offset, namesize)` onto what the stack held before -/
def copyName (stack : Nat → UInt8) (bytes : List UInt8) : Outcome (List UInt8) :=
  if bytes.length ≤ maxPath + 1 then
    .ok (bytes ++ (List.range (maxPath + 1 - bytes.length)).map fun index => stack (bytes.length + index))
  else .error (.name (maxPath + 1))

/-- `memmove(name, name + start, count)` -/
def moveName (name : List UInt8) (start count : Nat) : Outcome (List UInt8) :=
  if start + count ≤ name.length then .ok ((name.drop start).take count ++ name.drop count)
  else .error (.name name.length)

/-- `(4 - (offset & 3)) & 3` -/
def padding (offset : Nat) : Nat := (4 - (offset &&& 3)) &&& 3

/-- The padding check that follows a name and the data of an entry. -/
def skipPadding (disk : Archive) (offset : Nat) : Except Int Nat :=
  if sub64 disk.size offset < padding offset then .error (-5) else .ok (add64 offset (padding offset))

/-- The name of a record and the offset behind its padding. -/
def parseName (disk : Archive) (stack : Nat → UInt8) (offset namesize : Nat) :
    Outcome (Except Int (List UInt8 × Nat)) := do
  if namesize = 0 ∨ namesize > maxPath + 1 then
    return .error (-3)
  if offset > disk.size ∨ sub64 disk.size offset < namesize then
    return .error (-3)
  let bytes ← readRange disk offset namesize
  let name ← copyName stack bytes
  let offset := add64 offset namesize
  let last ← readName name (namesize - 1)
  if last ≠ 0 then
    return .error (-3)
  let text ← cString name 0
  if text.length ≠ namesize - 1 then
    return .error (-3)
  match skipPadding disk offset with
  | .error code => return .error code
  | .ok offset => return .ok (name, offset)

/-- The loop that removes leading `./` from the name. -/
def stripDots : Nat → List UInt8 → Outcome (List UInt8)
  | 0, _ => .error .endless
  | bound + 1, name => do
      if (← readName name 0) ≠ dot then
        return name
      if (← readName name 1) ≠ slash then
        return name
      let tail ← cString name 2
      let name ← moveName name 2 (tail.length + 1)
      stripDots bound name

/-- The loop that removes trailing slashes from a directory name. -/
def stripSlashes (name : List UInt8) : Nat → Outcome (List UInt8 × Nat)
  | 0 => .ok (name, 0)
  | length + 1 => do
      if (← readName name length) ≠ slash then
        return (name, length + 1)
      let name ← writeName name length 0
      stripSlashes name length

/-- The single trailing slash that is removed from the name of a file. -/
def stripSlash (name : List UInt8) (nameLen : Nat) : Outcome (List UInt8 × Nat) := do
  if nameLen = 0 then
    return (name, nameLen)
  if (← readName name (nameLen - 1)) ≠ slash then
    return (name, nameLen)
  let name ← writeName name (nameLen - 1) 0
  return (name, nameLen - 1)

def trailer : CString := [84, 82, 65, 73, 76, 69, 82, 33, 33, 33]

/-- `S_IFMT` and the type bits that the reader tells apart -/
def typeMask : Nat := 0o170000

def typeDirectory : Nat := 0o040000

def typeRegular : Nat := 0o100000

def typeLink : Nat := 0o120000

/-- The calls by which the reader changes a filesystem. -/
structure Files (State : Type) where
  createFolder : CString → State → Outcome (FsReturn × State)
  createFile : CString → Buffer → Nat → Nat → State → Outcome (FsReturn × State)

/-- The node filesystem as the reader sees it. -/
def nodeFiles (allocator : Allocator) : Files Fs where
  createFolder := fun path => createFolder allocator (some path)
  createFile := fun path => createFile allocator (some path)

/-- What one round of the main loop leads to. -/
inductive Round (State : Type) where
  | finished (code : Int) (state : State)
  | next (offset : Nat) (state : State)

/-- The end of a round skips the data and its padding. -/
def finishRecord {State : Type} (disk : Archive) (offset filesize : Nat) (state : State) : Round State :=
  match skipPadding disk (add64 offset filesize) with
  | .error code => .finished code state
  | .ok offset => .next offset state

namespace Files

variable {State : Type} (files : Files State)

/-- The loop of `ensure_parent_directories`; it edits the path in place and restores it. -/
def ensureLoop : Nat → Nat → List UInt8 → State → Outcome (Bool × List UInt8 × State)
  | 0, _, _, _ => .error .endless
  | bound + 1, position, path, state => do
      let byte ← readName path position
      if byte = 0 then
        return (true, path, state)
      if byte ≠ slash then
        ensureLoop bound (position + 1) path state
      else if position = 0 then
        return (false, path, state)
      else
        let path ← writeName path position 0
        let text ← cString path 0
        let (result, state) ← files.createFolder text state
        let path ← writeName path position slash
        if result ≠ .success ∧ result ≠ .alrExist then
          return (false, path, state)
        ensureLoop bound (position + 1) path state

def ensureParentDirectories (path : List UInt8) (state : State) :
    Outcome (Bool × List UInt8 × State) := files.ensureLoop (path.length + 1) 0 path state

/-- The branch for a directory entry; a code stands for an error return. -/
def placeDirectory (name : List UInt8) (nameLen : Nat) (state : State) :
    Outcome (Option Int × State) := do
  let (name, nameLen) ← stripSlashes name nameLen
  if nameLen = 0 then
    return (some (-3), state)
  let (ensured, name, state) ← files.ensureParentDirectories name state
  if !ensured then
    return (some (-6), state)
  let text ← cString name 0
  let (result, state) ← files.createFolder text state
  if result ≠ .success ∧ result ≠ .alrExist then
    return (some (-6), state)
  return (none, state)

/-- The branch for a regular file, a symbolic link or an entry without type bits. -/
def placeRegular (disk : Archive) (offset filesize : Nat) (name : List UInt8) (nameLen : Nat)
    (state : State) : Outcome (Option Int × State) := do
  let (name, nameLen) ← stripSlash name nameLen
  if nameLen = 0 then
    return (some (-3), state)
  let (ensured, name, state) ← files.ensureParentDirectories name state
  if !ensured then
    return (some (-3), state)
  let text ← cString name 0
  let data ← readRange disk offset filesize
  let (result, state) ←
    files.createFile text ⟨false, fun index => data.getD index 0⟩ filesize 0 state
  if result ≠ .success ∧ result ≠ .alrExist then
    return (some (-6), state)
  return (none, state)

/-- The dispatch on the type bits; other types are skipped. -/
def placeEntry (disk : Archive) (header : Header) (offset : Nat) (name : List UInt8)
    (state : State) : Outcome (Option Int × State) := do
  let type := header.mode &&& typeMask
  let text ← cString name 0
  if type = typeDirectory then
    files.placeDirectory name text.length state
  else if type = typeRegular ∨ type = typeLink ∨ type = 0 then
    files.placeRegular disk offset header.filesize name text.length state
  else
    return (none, state)

/-- The part of a round behind the name. -/
def parseBody (disk : Archive) (header : Header) (offset : Nat) (name : List UInt8)
    (state : State) : Outcome (Round State) := do
  let text ← cString name 0
  if text = trailer then
    return .finished 0 state
  let name ← stripDots name.length name
  let first ← readName name 0
  if first = slash then
    return .finished (-3) state
  if sub64 disk.size offset < header.filesize then
    return .finished (-4) state
  if first = 0 then
    return finishRecord disk offset header.filesize state
  let text ← cString name 0
  if text = [dot] then
    return finishRecord disk offset header.filesize state
  let (code, state) ← files.placeEntry disk header offset name state
  match code with
  | some code => return .finished code state
  | none => return finishRecord disk offset header.filesize state

/-- One round of the main loop of `parse_cpio_disk`. -/
def parseRecord (disk : Archive) (stack : Nat → Nat → UInt8) (offset : Nat) (state : State) :
    Outcome (Round State) := do
  match ← parseHeader disk offset with
  | .error code => return .finished code state
  | .ok header =>
      match ← parseName disk (stack offset) (add64 offset 110) header.namesize with
      | .error code => return .finished code state
      | .ok (name, offset) => files.parseBody disk header offset name state

/-- The main loop of `parse_cpio_disk`. -/
def parseRecords (disk : Archive) (stack : Nat → Nat → UInt8) :
    Nat → Nat → State → Outcome (Int × State)
  | 0, _, _ => .error .endless
  | bound + 1, offset, state => do
      match ← files.parseRecord disk stack offset state with
      | .finished code state => return (code, state)
      | .next offset state => parseRecords disk stack bound offset state

/-- `parse_cpio_disk`; a record takes 110 bytes at least, which bounds the number of rounds. The stack
contents under the name buffer are arbitrary. -/
def parseCpioDisk (disk : Option Archive) (stack : Nat → Nat → UInt8) (state : State) :
    Outcome (Int × State) :=
  match disk with
  | none => .ok (-7, state)
  | some disk => files.parseRecords disk stack (disk.size / 110 + 1) 0 state

end Files

/-- What one round leads to on the nodes of the RAM filesystem. -/
abbrev Progress := Round Fs

/-- One round of the main loop on the nodes. -/
def parseRecord (allocator : Allocator) (disk : Archive) (stack : Nat → Nat → UInt8) (offset : Nat)
    (fs : Fs) : Outcome Progress := (nodeFiles allocator).parseRecord disk stack offset fs

/-- The main loop on the nodes. -/
def parseRecords (allocator : Allocator) (disk : Archive) (stack : Nat → Nat → UInt8)
    (bound offset : Nat) (fs : Fs) : Outcome (Int × Fs) :=
  (nodeFiles allocator).parseRecords disk stack bound offset fs

/-- `parse_cpio_disk` on the nodes. -/
def parseCpioDisk (allocator : Allocator) (disk : Option Archive) (stack : Nat → Nat → UInt8) (fs : Fs) :
    Outcome (Int × Fs) := (nodeFiles allocator).parseCpioDisk disk stack fs

end ArchaOS.FileSystem
