import ArchaOS.Construction.FileCalls
import ArchaOS.Proof.FileSystem.Creation

namespace ArchaOS.FileSystem

/-- What stands at a path: the flags, the contents and the names below it, the latest first. -/
structure PathEntry where
  flags : Nat
  bytes : List UInt8
  names : List CString
  deriving DecidableEq, Repr

def PathEntry.isDirectory (entry : PathEntry) : Prop := entry.flags &&& fsIsDirectory ≠ 0

instance decidablePathDirectory (entry : PathEntry) : Decidable entry.isDirectory := inferInstanceAs (Decidable (_ ≠ _))

/-- A filesystem without nodes and links: what stands at every path from the root. -/
abbrev PathStore := List CString → Option PathEntry

namespace PathStore

/-- The filesystem of an empty root. -/
def empty : PathStore := fun path => if path = [] then some ⟨fsIsDirectory, [], []⟩ else none

/-- One component leads from a path to another one. -/
def enter (store : PathStore) (here : List CString) (component : CString) :
    Except FsReturn (List CString) :=
  if component = [dot] then .ok here
  else
    match store here with
    | none => .error .invalidFs
    | some entry =>
        if component = [dot, dot] then .ok here.dropLast
        else if ¬ entry.isDirectory then .error .notADir
        else if component ∈ entry.names then .ok (here ++ [component])
        else .error .notFound

/-- The components of a path lead from the root to what it names. -/
def locate (store : PathStore) : Option CString → Except FsReturn (List CString)
  | none => .error .invalidPath
  | some path => (pathNames path).foldlM store.enter []

/-- An entry is put below a directory, in front of the names there. -/
def place (store : PathStore) (parent : List CString) (name : CString) (entry : PathEntry) : PathStore :=
  let opened := Function.update store parent
    ((store parent).map fun dir => { dir with names := name :: dir.names })
  Function.update opened (parent ++ [name]) (some entry)

/-- An entry is taken out of the directory above it. -/
def remove (store : PathStore) (here : List CString) : PathStore :=
  let closed := Function.update store here.dropLast
    ((store here.dropLast).map fun dir => { dir with names := dir.names.erase (here.getLastD []) })
  Function.update closed here none

/-- Making a file; `room` says which of the allocations on the way succeed. -/
def create (room : Nat → Bool) (path : Option CString) (data : Buffer) (size flags : Nat)
    (store : PathStore) : FsReturn × PathStore :=
  match path with
  | none => (.invArg, store)
  | some path =>
      let name := (pathNames path).getLastD []
      if data.null ∧ size ≠ 0 ∧ flags &&& fsIsDirectory = 0 then (.invArg, store)
      else if path = [] ∨ path.getLast? = some slash then (.invPath, store)
      else if ¬ (room 0 ∧ room 1) then (.fail, store)
      else if name = [dot] ∨ name = [dot, dot] then (.fail, store)
      else
        match (pathNames path).dropLast.foldlM store.enter [] with
        | .error status => (status, store)
        | .ok parent =>
            match store parent with
            | none => (.invalidFs, store)
            | some dir =>
                if ¬ dir.isDirectory then (.notADir, store)
                else if name ∈ dir.names then (.alrExist, store)
                else if ¬ (room 2 ∧ (size = 0 ∨ room 3)) then (.fail, store)
                else (.success, store.place parent name ⟨flags % 2 ^ 16, data.copy size, []⟩)

/-- What a call does with the entry that its path leads to. -/
def onEntry {Result : Type} (store : PathStore) (path : Option CString) (failed : FsReturn → Result)
    (found : List CString → PathEntry → Result) : Result :=
  match store.locate path with
  | .error status => failed status
  | .ok here =>
      match store here with
      | none => failed .invalidFs
      | some entry => found here entry

def delete (path : Option CString) (store : PathStore) : FsReturn × PathStore :=
  store.onEntry path (·, store) fun here entry =>
    if here = [] then (.permissionDenied, store)
    else if entry.isDirectory ∧ entry.names ≠ [] then (.dirNotEmpty, store)
    else (.success, store.remove here)

def read (path : Option CString) (buffer : Buffer) (bufSize : Nat) (store : PathStore) : Reply :=
  store.onEntry path .bare fun _ entry =>
    if entry.isDirectory then .bare .isADir
    else if bufSize < entry.bytes.length then .bare .bufTooSmall
    else if entry.bytes ≠ [] ∧ buffer.null then .bare .invArg
    else ⟨.success, entry.bytes, []⟩

def write (path : Option CString) (buffer : Buffer) (bufSize : Nat) (store : PathStore) :
    FsReturn × PathStore :=
  store.onEntry path (·, store) fun here entry =>
    if entry.isDirectory then (.isADir, store)
    else if bufSize > entry.bytes.length then (.fileTooSmall, store)
    else if entry.bytes ≠ [] ∧ buffer.null then (.invArg, store)
    else (.success, Function.update store here
      (some { entry with bytes := buffer.copy bufSize ++ entry.bytes.drop bufSize }))

def list (path : Option CString) (store : PathStore) : Reply :=
  store.onEntry path .bare fun here entry =>
    ⟨.success, [], entry.names.map fun name =>
      (name, ((store (here ++ [name])).map PathEntry.flags).getD 0)⟩

/-- One call on the paths. -/
def run (room : Nat → Bool) (store : PathStore) : Call → Reply × PathStore
  | .createFile path data size flags => (store.create room path data size flags).map .bare id
  | .createFolder path => (store.create room path ⟨true, fun _ => 0⟩ 0 fsIsDirectory).map .bare id
  | .deleteFile path => (store.delete path).map .bare id
  | .deleteFolder path => (store.delete path).map .bare id
  | .readFileContent path buffer bufSize => (store.read path buffer bufSize, store)
  | .writeFileContent path buffer bufSize => (store.write path buffer bufSize).map .bare id
  | .listFiles _ none => (.bare .invArg, store)
  | .listFiles path (some _) => (store.list path, store)

/-- The replies to a run of calls, each with the allocations that succeed in it. -/
def replies : PathStore → List ((Nat → Bool) × Call) → List Reply
  | _, [] => []
  | store, (room, call) :: rest =>
      let (reply, store) := store.run room call
      reply :: replies store rest

end PathStore

end ArchaOS.FileSystem
