import ArchaOS.Construction.Initramfs
import ArchaOS.Library.Outcome
import ArchaOS.Proof.FileSystem.NameBuffer

namespace ArchaOS.FileSystem

open Library

/-- A range of the archive. -/
def Archive.slice (disk : Archive) (offset count : Nat) : List UInt8 := (disk.bytes.drop offset).take count

/-- A byte inside the archive is read. -/
theorem readDisk_ok {disk : Archive} {index : Nat} (inside : index < disk.size) :
    readDisk disk index = .ok (disk.bytes.get ⟨index, inside⟩) := by
  have look : disk.bytes[index]? = some (disk.bytes.get ⟨index, inside⟩) :=
    List.getElem?_eq_getElem inside
  rw [readDisk, look]

/-- A range inside the archive is read without a fault. -/
theorem readRange_ok {disk : Archive} {offset count : Nat} (inside : offset + count ≤ disk.size) :
    readRange disk offset count = .ok (disk.slice offset count) := by
  induction count generalizing offset with
  | zero => simp [readRange, Archive.slice]
  | succ count ih =>
      have here : offset < disk.bytes.length := by
        unfold Archive.size at inside
        omega
      have step : disk.slice offset (count + 1) =
          disk.bytes.get ⟨offset, here⟩ :: disk.slice (offset + 1) count := by
        rw [Archive.slice, List.drop_eq_getElem_cons here, List.take_succ_cons]
        rfl
      rw [readRange, readDisk_ok here, step]
      simp only [bind, Except.bind, ih (show offset + 1 + count ≤ disk.size by omega), pure, Except.pure]

/-- The prefixes of a path that end before a slash. -/
def slashPrefixes (before : CString) : CString → List CString
  | [] => []
  | byte :: rest =>
      if byte = slash then before :: slashPrefixes (before ++ [byte]) rest
      else slashPrefixes (before ++ [byte]) rest

/-- `ensure_parent_directories` as a loop over the prefixes of the path. -/
def ensureFolders (allocator : Allocator) : List CString → Fs → Outcome (Bool × Fs)
  | [], fs => .ok (true, fs)
  | folder :: rest, fs =>
      if folder = [] then .ok (false, fs)
      else do
        let (result, fs) ← createFolder allocator (some folder) fs
        if result ≠ .success ∧ result ≠ .alrExist then
          return (false, fs)
        ensureFolders allocator rest fs

namespace Files

variable {State : Type} (files : Files State)

/-- `ensure_parent_directories` over any filesystem as a loop over the prefixes of the path. -/
def ensureFolders : List CString → State → Outcome (Bool × State)
  | [], state => .ok (true, state)
  | folder :: rest, state =>
      if folder = [] then .ok (false, state)
      else do
        let (result, state) ← files.createFolder folder state
        if result ≠ .success ∧ result ≠ .alrExist then
          return (false, state)
        ensureFolders rest state

/-- The loop over the name buffer creates the folders that end before its slashes, and leaves the
buffer as it was. -/
theorem ensureLoop_eq {path : List UInt8} {before rest : CString} {bound : Nat} (state : State)
    (held : Terminated path (before ++ rest)) (enough : rest.length < bound) :
    files.ensureLoop bound before.length path state =
      (files.ensureFolders (slashPrefixes before rest) state).map
        fun result => (result.1, path, result.2) := by
  induction rest generalizing before bound state with
  | nil =>
      cases bound with
      | zero => simp at enough
      | succ bound =>
          rw [List.append_nil] at held
          simp only [ensureLoop, held.read_end, bind, Except.bind, if_true]
          rfl
  | cons byte rest ih =>
      cases bound with
      | zero => simp at enough
      | succ bound =>
          have inside : before.length < (before ++ byte :: rest).length := by simp
          have value : (before ++ byte :: rest).get ⟨before.length, inside⟩ = byte := by simp
          have read := held.read_inside _ inside
          rw [value] at read
          have nonzero : byte ≠ 0 := fun null => held.plain (by simp [null])
          have shifted : Terminated path ((before ++ [byte]) ++ rest) := by simpa using held
          have next (state : State) : files.ensureLoop bound (before.length + 1) path state =
              (files.ensureFolders (slashPrefixes (before ++ [byte]) rest) state).map
                fun result => (result.1, path, result.2) := by
            have later := ih state shifted (show rest.length < bound by simpa using enough)
            rwa [List.length_append, List.length_singleton] at later
          rw [ensureLoop, read]
          by_cases separator : byte = slash
          · by_cases first : before = []
            · simp only [bind, Except.bind, if_false, separator, ne_eq, not_true_eq_false, first,
                List.length_nil, if_true, slashPrefixes, ensureFolders]
              rfl
            · have later : before.length ≠ 0 := fun none => first (List.length_eq_zero_iff.mp none)
              obtain ⟨write, cut⟩ := held.cut _ (Nat.le_of_lt inside)
              rw [List.take_append_of_le_length (Nat.le_refl _), List.take_length] at cut
              have text := cut.cString 0 (Nat.zero_le _)
              rw [List.drop_zero] at text
              have restored := held.restore inside
              rw [value, separator] at restored
              have slashNonzero : slash ≠ 0 := by decide
              simp only [bind, Except.bind, separator, slashNonzero, if_false, ne_eq, not_true_eq_false,
                later, write, text, slashPrefixes, if_true, ensureFolders, first]
              cases files.createFolder before state with
              | error fault => rfl
              | ok result =>
                  obtain ⟨status, state'⟩ := result
                  dsimp only
                  rw [restored]
                  dsimp only
                  split
                  · rfl
                  · rw [separator] at next
                    exact next state'
          · simp only [bind, Except.bind, nonzero, if_false, separator, ne_eq, not_false_eq_true, if_true,
              slashPrefixes]
            exact next state

/-- The loop over the name creates the folder of every prefix. -/
theorem ensureParentDirectories_eq {path : List UInt8} {text : CString} (state : State)
    (held : Terminated path text) :
    files.ensureParentDirectories path state =
      (files.ensureFolders (slashPrefixes [] text) state).map fun result => (result.1, path, result.2) := by
  have bound := held.length_lt
  have start : Terminated path ([] ++ text) := held
  exact files.ensureLoop_eq state start (by omega)

end Files

/-- On the nodes the folders are created by `create_folder`. -/
theorem ensureFolders_files (allocator : Allocator) (folders : List CString) (fs : Fs) :
    (nodeFiles allocator).ensureFolders folders fs = ensureFolders allocator folders fs := by
  induction folders generalizing fs with
  | nil => rfl
  | cons folder rest ih =>
      simp only [Files.ensureFolders, ensureFolders, ih]
      rfl

/-- On the nodes the loop over the name creates the folder of every prefix. -/
theorem ensureParentDirectories_eq (allocator : Allocator) {path : List UInt8} {text : CString} (fs : Fs)
    (held : Terminated path text) :
    (nodeFiles allocator).ensureParentDirectories path fs =
      (ensureFolders allocator (slashPrefixes [] text) fs).map fun result => (result.1, path, result.2) := by
  rw [← ensureFolders_files]
  exact (nodeFiles allocator).ensureParentDirectories_eq fs held

/-- The branch for a directory entry, on the cleaned name. -/
def directoryEntry (allocator : Allocator) (text : CString) (fs : Fs) : Outcome (Option Int × Fs) :=
  if trimSlashes text = [] then .ok (some (-3), fs)
  else do
    let (ensured, fs) ← ensureFolders allocator (slashPrefixes [] (trimSlashes text)) fs
    if !ensured then
      return (some (-6), fs)
    let (result, fs) ← createFolder allocator (some (trimSlashes text)) fs
    if result ≠ .success ∧ result ≠ .alrExist then
      return (some (-6), fs)
    return (none, fs)

/-- Placing a directory is a directory entry of its text. -/
theorem placeDirectory_eq (allocator : Allocator) {name : List UInt8} {text : CString} (fs : Fs)
    (held : Terminated name text) :
    (nodeFiles allocator).placeDirectory name text.length fs = directoryEntry allocator text fs := by
  obtain ⟨name', strip, held'⟩ := stripSlashes_eq held
  rw [Files.placeDirectory, strip, directoryEntry]
  by_cases empty : trimSlashes text = []
  · simp only [bind, Except.bind, empty, List.length_nil, if_true]
    rfl
  · have present : (trimSlashes text).length ≠ 0 := fun none => empty (List.length_eq_zero_iff.mp none)
    have whole := held'.cString 0 (Nat.zero_le _)
    rw [List.drop_zero] at whole
    simp only [bind, Except.bind, present, if_false, empty,
      ensureParentDirectories_eq allocator fs held']
    cases ensureFolders allocator (slashPrefixes [] (trimSlashes text)) fs with
    | error fault => rfl
    | ok result =>
        obtain ⟨ensured, fs'⟩ := result
        cases ensured with
        | false => rfl
        | true =>
            simp only [Except.map, Bool.not_true, Bool.false_eq_true, if_false, whole]
            rfl

/-- The branch for a regular entry, on the cleaned name. -/
def regularEntry (allocator : Allocator) (text : CString) (data : List UInt8) (filesize : Nat) (fs : Fs) :
    Outcome (Option Int × Fs) :=
  if trimSlash text = [] then .ok (some (-3), fs)
  else do
    let (ensured, fs) ← ensureFolders allocator (slashPrefixes [] (trimSlash text)) fs
    if !ensured then
      return (some (-3), fs)
    let (result, fs) ← createFile allocator (some (trimSlash text))
      ⟨false, fun index => data.getD index 0⟩ filesize 0 fs
    if result ≠ .success ∧ result ≠ .alrExist then
      return (some (-6), fs)
    return (none, fs)

/-- What both branches do on a name without trailing slashes: make the folders above the node and
then the node. -/
def placed (allocator : Allocator) (text : CString) (missed : Int)
    (create : Fs → Outcome (FsReturn × Fs)) (fs : Fs) : Outcome (Option Int × Fs) :=
  if text = [] then .ok (some (-3), fs)
  else do
    let (ensured, fs) ← ensureFolders allocator (slashPrefixes [] text) fs
    if !ensured then
      return (some missed, fs)
    let (result, fs) ← create fs
    if result ≠ .success ∧ result ≠ .alrExist then
      return (some (-6), fs)
    return (none, fs)

/-- A directory entry is placed by `create_folder`. -/
theorem directoryEntry_eq (allocator : Allocator) (text : CString) (fs : Fs) :
    directoryEntry allocator text fs =
      placed allocator (trimSlashes text) (-6) (createFolder allocator (some (trimSlashes text))) fs :=
  rfl

/-- A regular entry is placed by `create_file`. -/
theorem regularEntry_eq (allocator : Allocator) (text : CString) (data : List UInt8) (filesize : Nat)
    (fs : Fs) :
    regularEntry allocator text data filesize fs =
      placed allocator (trimSlash text) (-3)
        (createFile allocator (some (trimSlash text)) ⟨false, fun index => data.getD index 0⟩
          filesize 0) fs := rfl

/-- An entry either fails with an error code, or its folders and its node are there. -/
theorem placed_cases {allocator : Allocator} {text : CString} {missed : Int}
    {create : Fs → Outcome (FsReturn × Fs)} {fs fs' : Fs} {code : Option Int} (failure : missed ≠ 0)
    (result : placed allocator text missed create fs = .ok (code, fs')) :
    (∃ number, code = some number ∧ number ≠ 0) ∨
      (code = none ∧ ∃ between status,
        ensureFolders allocator (slashPrefixes [] text) fs = .ok (true, between) ∧
        create between = .ok (status, fs') ∧ (status = .success ∨ status = .alrExist)) := by
  unfold placed at result
  split at result
  · cases Except.ok.inj result
    exact Or.inl ⟨-3, rfl, by decide⟩
  · obtain ⟨⟨ensured, between⟩, ensure, result⟩ := bind_eq_ok.mp result
    cases ensured with
    | false =>
        cases Except.ok.inj result
        exact Or.inl ⟨missed, rfl, failure⟩
    | true =>
        obtain ⟨⟨status, after⟩, call, result⟩ := bind_eq_ok.mp result
        dsimp only at result
        split at result
        · cases Except.ok.inj result
          exact Or.inl ⟨-6, rfl, by decide⟩
        · rename_i fine
          obtain ⟨rfl, rfl⟩ := Prod.mk.inj (Except.ok.inj result)
          exact Or.inr ⟨rfl, between, status, ensure, call, by tauto⟩

/-- Placing a regular file is a regular entry of its text and its slice. -/
theorem placeRegular_eq (allocator : Allocator) {disk : Archive} {offset filesize : Nat}
    {name : List UInt8} {text : CString} (fs : Fs) (held : Terminated name text)
    (inside : offset + filesize ≤ disk.size) :
    (nodeFiles allocator).placeRegular disk offset filesize name text.length fs =
      regularEntry allocator text (disk.slice offset filesize) filesize fs := by
  obtain ⟨name', strip, held'⟩ := stripSlash_eq held
  rw [Files.placeRegular, strip, regularEntry]
  by_cases empty : trimSlash text = []
  · simp only [bind, Except.bind, empty, List.length_nil, if_true]
    rfl
  · have present : (trimSlash text).length ≠ 0 := fun none => empty (List.length_eq_zero_iff.mp none)
    have whole := held'.cString 0 (Nat.zero_le _)
    rw [List.drop_zero] at whole
    simp only [bind, Except.bind, present, if_false, empty,
      ensureParentDirectories_eq allocator fs held']
    cases ensureFolders allocator (slashPrefixes [] (trimSlash text)) fs with
    | error fault => rfl
    | ok result =>
        obtain ⟨ensured, fs'⟩ := result
        cases ensured with
        | false => rfl
        | true =>
            simp only [Except.map, Bool.not_true, Bool.false_eq_true, if_false, whole,
              readRange_ok inside]
            rfl

/-- The dispatch on the type bits, on the cleaned name. -/
def entryEffect (allocator : Allocator) (header : Header) (text : CString) (data : List UInt8) (fs : Fs) :
    Outcome (Option Int × Fs) :=
  let type := header.mode &&& typeMask
  if type = typeDirectory then directoryEntry allocator text fs
  else if type = typeRegular ∨ type = typeLink ∨ type = 0 then
    regularEntry allocator text data header.filesize fs
  else .ok (none, fs)

/-- Placing an entry has the effect of its kind. -/
theorem placeEntry_eq (allocator : Allocator) {disk : Archive} {header : Header} {offset : Nat}
    {name : List UInt8} {text : CString} (fs : Fs) (held : Terminated name text)
    (inside : offset + header.filesize ≤ disk.size) :
    (nodeFiles allocator).placeEntry disk header offset name fs =
      entryEffect allocator header text (disk.slice offset header.filesize) fs := by
  have whole := held.cString 0 (Nat.zero_le _)
  rw [List.drop_zero] at whole
  simp only [Files.placeEntry, whole, bind, Except.bind, placeDirectory_eq allocator fs held,
    placeRegular_eq allocator fs held inside, entryEffect]
  rfl

/-- One turn of the main loop on the nodes. -/
theorem parseRecords_succ (allocator : Allocator) (disk : Archive) (stack : Nat → Nat → UInt8)
    (bound offset : Nat) (fs : Fs) :
    parseRecords allocator disk stack (bound + 1) offset fs = (do
      match ← parseRecord allocator disk stack offset fs with
      | .finished code fs => return (code, fs)
      | .next offset fs => parseRecords allocator disk stack bound offset fs) := by
  rw [parseRecords, Files.parseRecords, parseRecord]
  cases (nodeFiles allocator).parseRecord disk stack offset fs with
  | error fault => rfl
  | ok progress => cases progress <;> rfl

/-- The part of a round behind the name, on the text of the name. -/
def bodyEffect (allocator : Allocator) (disk : Archive) (header : Header) (offset : Nat) (text : CString)
    (fs : Fs) : Outcome Progress :=
  if text = trailer then .ok (.finished 0 fs)
  else if (cleanName text).head? = some slash then .ok (.finished (-3) fs)
  else if disk.size < offset + header.filesize then .ok (.finished (-4) fs)
  else if cleanName text = [] ∨ cleanName text = [dot] then
    .ok (finishRecord disk offset header.filesize fs)
  else do
    let (code, fs) ← entryEffect allocator header (cleanName text)
      (disk.slice offset header.filesize) fs
    match code with
    | some code => return .finished code fs
    | none => return finishRecord disk offset header.filesize fs

/-- The part of a record behind its name has the effect of the entry. -/
theorem parseBody_eq (allocator : Allocator) {disk : Archive} {header : Header} {offset : Nat}
    {name : List UInt8} {text : CString} (fs : Fs) (held : Terminated name text)
    (inside : offset ≤ disk.size) :
    (nodeFiles allocator).parseBody disk header offset name fs =
      bodyEffect allocator disk header offset text fs := by
  have whole := held.cString 0 (Nat.zero_le _)
  rw [List.drop_zero] at whole
  obtain ⟨name', strip, held'⟩ := stripDots_eq held held.length_lt
  have clean := held'.cString 0 (Nat.zero_le _)
  rw [List.drop_zero] at clean
  have left : sub64 disk.size offset = disk.size - offset := sub64_eq inside disk.fits
  have room : disk.size - offset < header.filesize ↔ disk.size < offset + header.filesize := by omega
  simp only [Files.parseBody, whole, bind, Except.bind, bodyEffect, strip, left, room]
  split
  · rfl
  · cases text' : cleanName text with
    | nil =>
        rw [text'] at held'
        have first : readName name' 0 = .ok 0 := held'.read_end
        rw [first]
        have different : (0 : UInt8) ≠ slash := by decide
        simp only [different, if_false, if_true, List.head?_nil, reduceCtorEq, true_or]
        rfl
    | cons byte rest =>
        rw [text'] at held' clean
        have first : readName name' 0 = .ok byte := held'.read_inside 0 (by simp)
        have nonzero : byte ≠ 0 := fun null => held'.plain (by simp [null])
        rw [first]
        simp only [nonzero, if_false, List.head?_cons, Option.some.injEq, clean, reduceCtorEq, false_or]
        split
        · rfl
        · split
          · rfl
          · split
            · rfl
            · rename_i enough _
              have inside : offset + header.filesize ≤ disk.size := by omega
              exact placeEntry_eq allocator fs held' inside ▸ rfl

end ArchaOS.FileSystem
