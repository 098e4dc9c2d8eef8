import ArchaOS.Construction.Initramfs
import ArchaOS.Proof.FileSystem.Parser

namespace ArchaOS.FileSystem

open Library

/-- The calls of the reader return and keep a property of the filesystem. -/
structure Files.Keeps {State : Type} (files : Files State) (invariant : State → Prop) : Prop where
  folder : ∀ path state, invariant state →
    ∃ status after, files.createFolder path state = .ok (status, after) ∧ invariant after
  file : ∀ path data size state, data.null = false → invariant state →
    ∃ status after, files.createFile path data size 0 state = .ok (status, after) ∧ invariant after

/-- A round keeps the property, and the next record starts inside the archive. -/
def Round.Sound {State : Type} (invariant : State → Prop) (disk : Archive) (offset : Nat) :
    Round State → Prop
  | .finished _ state => invariant state
  | .next after state => invariant state ∧ offset ≤ after ∧ after ≤ disk.size

namespace Files

variable {State : Type} {files : Files State} {invariant : State → Prop}
  (keeps : files.Keeps invariant)
include keeps

/-- Creating the folders of an entry keeps the invariant. -/
theorem ensureFolders_keeps (folders : List CString) {state : State} (holds : invariant state) :
    ∃ ensured after, files.ensureFolders folders state = .ok (ensured, after) ∧ invariant after := by
  induction folders generalizing state with
  | nil => exact ⟨true, state, rfl, holds⟩
  | cons folder rest ih =>
      by_cases root : folder = []
      · exact ⟨false, state, if_pos root, holds⟩
      · obtain ⟨status, after, result, kept⟩ := keeps.folder folder state holds
        simp only [ensureFolders, root, if_false, result, bind, Except.bind]
        by_cases failed : status ≠ .success ∧ status ≠ .alrExist
        · exact ⟨false, after, if_pos failed, kept⟩
        · rw [if_neg failed]
          exact ih kept

/-- Creating the parents of an entry keeps the invariant. -/
theorem ensureParentDirectories_keeps {path : List UInt8} {text : CString} {state : State}
    (held : Terminated path text) (holds : invariant state) :
    ∃ ensured after, files.ensureParentDirectories path state = .ok (ensured, path, after) ∧
      invariant after := by
  obtain ⟨ensured, after, result, kept⟩ := ensureFolders_keeps keeps (slashPrefixes [] text) holds
  rw [files.ensureParentDirectories_eq state held, result]
  exact ⟨ensured, after, rfl, kept⟩

/-- Placing a directory keeps the invariant. -/
theorem placeDirectory_keeps {name : List UInt8} {text : CString} {state : State}
    (held : Terminated name text) (holds : invariant state) :
    ∃ code after, files.placeDirectory name text.length state = .ok (code, after) ∧
      invariant after := by
  obtain ⟨name', strip, held'⟩ := stripSlashes_eq held
  rw [placeDirectory, strip]
  by_cases empty : (trimSlashes text).length = 0
  · exact ⟨some (-3), state, by simp only [bind, Except.bind, empty, if_true]; rfl, holds⟩
  · obtain ⟨ensured, between, result, kept⟩ := ensureParentDirectories_keeps keeps held' holds
    have whole := held'.cString 0 (Nat.zero_le _)
    simp only [bind, Except.bind, empty, if_false, result, whole]
    cases ensured with
    | false => exact ⟨some (-6), between, rfl, kept⟩
    | true =>
        obtain ⟨status, after, created, last⟩ :=
          keeps.folder ((trimSlashes text).drop 0) between kept
        simp only [Bool.not_true, Bool.false_eq_true, if_false, created]
        split
        · exact ⟨some (-6), after, rfl, last⟩
        · exact ⟨none, after, rfl, last⟩

/-- Placing a regular file keeps the invariant. -/
theorem placeRegular_keeps {disk : Archive} {offset filesize : Nat} {name : List UInt8}
    {text : CString} {state : State} (held : Terminated name text)
    (inside : offset + filesize ≤ disk.size) (holds : invariant state) :
    ∃ code after, files.placeRegular disk offset filesize name text.length state =
        .ok (code, after) ∧ invariant after := by
  obtain ⟨name', strip, held'⟩ := stripSlash_eq held
  rw [placeRegular, strip]
  by_cases empty : (trimSlash text).length = 0
  · exact ⟨some (-3), state, by simp only [bind, Except.bind, empty, if_true]; rfl, holds⟩
  · obtain ⟨ensured, between, result, kept⟩ := ensureParentDirectories_keeps keeps held' holds
    have whole := held'.cString 0 (Nat.zero_le _)
    simp only [bind, Except.bind, empty, if_false, result, whole, readRange_ok inside]
    cases ensured with
    | false => exact ⟨some (-3), between, rfl, kept⟩
    | true =>
        obtain ⟨status, after, created, last⟩ := keeps.file ((trimSlash text).drop 0)
          ⟨false, fun index => (disk.slice offset filesize).getD index 0⟩ filesize between rfl kept
        simp only [Bool.not_true, Bool.false_eq_true, if_false, created]
        split
        · exact ⟨some (-6), after, rfl, last⟩
        · exact ⟨none, after, rfl, last⟩

/-- Placing an entry keeps the invariant. -/
theorem placeEntry_keeps {disk : Archive} {header : Header} {offset : Nat} {name : List UInt8}
    {text : CString} {state : State} (held : Terminated name text)
    (inside : offset + header.filesize ≤ disk.size) (holds : invariant state) :
    ∃ code after, files.placeEntry disk header offset name state = .ok (code, after) ∧
      invariant after := by
  have whole := held.cString 0 (Nat.zero_le _)
  rw [List.drop_zero] at whole
  simp only [placeEntry, whole, bind, Except.bind]
  split
  · exact placeDirectory_keeps keeps held holds
  · split
    · exact placeRegular_keeps keeps held inside holds
    · exact ⟨none, state, rfl, holds⟩

omit keeps in
/-- The end of a record keeps the invariant and moves on inside the archive. -/
theorem finishRecord_keeps {disk : Archive} {offset filesize : Nat} {state : State}
    (inside : offset + filesize ≤ disk.size) (holds : invariant state) :
    (finishRecord disk offset filesize state).Sound invariant disk offset := by
  rw [finishRecord, Archive.add64_inside inside, skipPadding_ok inside]
  by_cases short : disk.size < offset + filesize + padding (offset + filesize)
  · rw [if_pos short]
    exact holds
  · rw [if_neg short]
    exact ⟨holds, by omega, by omega⟩

/-- The part of a record behind its name keeps the invariant. -/
theorem parseBody_keeps {disk : Archive} {header : Header} {offset : Nat} {name : List UInt8}
    {text : CString} {state : State} (held : Terminated name text) (inside : offset ≤ disk.size)
    (holds : invariant state) :
    ∃ round, files.parseBody disk header offset name state = .ok round ∧
      round.Sound invariant disk offset := by
  have whole := held.cString 0 (Nat.zero_le _)
  obtain ⟨name', strip, held'⟩ := stripDots_eq held held.length_lt
  have clean := held'.cString 0 (Nat.zero_le _)
  have left : sub64 disk.size offset = disk.size - offset := sub64_eq inside disk.fits
  have first : ∃ byte, readName name' 0 = .ok byte := by
    cases shape : cleanName text with
    | nil =>
        rw [shape] at held'
        exact ⟨0, held'.read_end⟩
    | cons byte rest =>
        rw [shape] at held'
        exact ⟨byte, held'.read_inside 0 (by simp)⟩
  obtain ⟨byte, read⟩ := first
  simp only [parseBody, whole, bind, Except.bind, strip, read, left, clean]
  split
  · exact ⟨_, rfl, holds⟩
  · split
    · exact ⟨_, rfl, holds⟩
    · split
      · exact ⟨_, rfl, holds⟩
      · rename_i room
        have enough : offset + header.filesize ≤ disk.size := by omega
        split
        · exact ⟨_, rfl, finishRecord_keeps enough holds⟩
        · split
          · exact ⟨_, rfl, finishRecord_keeps enough holds⟩
          · obtain ⟨code, after, result, kept⟩ := placeEntry_keeps keeps held' enough holds
            simp only [result]
            cases code with
            | some code => exact ⟨_, rfl, kept⟩
            | none => exact ⟨_, rfl, finishRecord_keeps enough kept⟩

/-- One record keeps the invariant and is longer than its header. -/
theorem parseRecord_keeps (disk : Archive) (stack : Nat → Nat → UInt8) (offset : Nat)
    {state : State} (holds : invariant state) :
    ∃ round, files.parseRecord disk stack offset state = .ok round ∧
      round.Sound invariant disk (offset + 110) := by
  obtain ⟨head, headResult, room⟩ := parseHeader_ok disk offset
  rw [parseRecord, headResult]
  cases head with
  | error code => exact ⟨_, rfl, holds⟩
  | ok header =>
      have inside := room header rfl
      have total := Archive.add64_inside inside
      obtain ⟨name, nameResult, named⟩ := parseName_ok disk (stack offset) header.namesize inside
      simp only [bind, Except.bind, total, nameResult]
      cases name with
      | error code => exact ⟨_, rfl, holds⟩
      | ok pair =>
          obtain ⟨name, next⟩ := pair
          obtain ⟨⟨text, held⟩, low, high⟩ := named name next rfl
          obtain ⟨round, result, sound⟩ := parseBody_keeps keeps held high holds
          refine ⟨round, result, ?_⟩
          cases round with
          | finished code after => exact sound
          | next position after => exact ⟨sound.1, low.trans sound.2.1, sound.2.2⟩

/-- The loop over the records returns and keeps the invariant. -/
theorem parseRecords_keeps {disk : Archive} (stack : Nat → Nat → UInt8) {bound offset : Nat}
    {state : State} (holds : invariant state) (inside : offset ≤ disk.size)
    (enough : disk.size < offset + 110 * bound) :
    ∃ code after, files.parseRecords disk stack bound offset state = .ok (code, after) ∧
      invariant after := by
  induction bound generalizing offset state with
  | zero => omega
  | succ bound ih =>
      obtain ⟨round, result, sound⟩ := parseRecord_keeps keeps disk stack offset holds
      simp only [parseRecords, result, bind, Except.bind]
      cases round with
      | finished code after => exact ⟨code, after, rfl, sound⟩
      | next position after => exact ih sound.1 sound.2.2 (by have low := sound.2.1; omega)

/-- The reader returns on every archive and keeps what its two calls keep. -/
theorem parseCpioDisk_keeps (disk : Option Archive) (stack : Nat → Nat → UInt8) {state : State}
    (holds : invariant state) :
    ∃ code after, files.parseCpioDisk disk stack state = .ok (code, after) ∧ invariant after := by
  cases disk with
  | none => exact ⟨-7, state, rfl, holds⟩
  | some disk => exact parseRecords_keeps keeps stack holds (Nat.zero_le _) (by omega)

end Files

end ArchaOS.FileSystem
