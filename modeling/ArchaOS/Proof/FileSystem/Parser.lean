import ArchaOS.Proof.FileSystem.Operations
import ArchaOS.Proof.FileSystem.Records

namespace ArchaOS.FileSystem

open Library

/-- Hexadecimal digits inside the archive are read. -/
theorem hexLoop_ok {disk : Archive} (count position : Nat) (value : Nat)
    (inside : position + count ≤ disk.size) :
    ∃ result, hexLoop disk count position value = .ok result := by
  induction count generalizing position value with
  | zero => exact ⟨some value, rfl⟩
  | succ count ih =>
      have here : position < disk.size := by omega
      rw [hexLoop, readDisk_ok here]
      simp only [bind, Except.bind]
      split
      · exact ⟨none, rfl⟩
      · exact ih _ _ (by omega)

/-- Fields inside the archive are read. -/
theorem readFields_ok {disk : Archive} (count position : Nat)
    (inside : position + 8 * count ≤ disk.size) :
    ∃ result, readFields disk count position = .ok result := by
  induction count generalizing position with
  | zero => exact ⟨some [], rfl⟩
  | succ count ih =>
      obtain ⟨field, digits⟩ := hexLoop_ok 8 position 0 (show position + 8 ≤ disk.size by omega)
      obtain ⟨fields, later⟩ := ih (position + 8) (by omega)
      simp only [readFields, hex8, digits, bind, Except.bind]
      cases field with
      | none => exact ⟨none, rfl⟩
      | some field =>
          rw [later]
          cases fields with
          | none => exact ⟨none, rfl⟩
          | some fields => exact ⟨some (field :: fields), rfl⟩

/-- The header is read inside the archive. -/
theorem parseHeader_ok (disk : Archive) (offset : Nat) :
    ∃ result, parseHeader disk offset = .ok result ∧
      ∀ header, result = .ok header → offset + 110 ≤ disk.size := by
  unfold parseHeader
  by_cases short : offset > disk.size ∨ sub64 disk.size offset < 110
  · rw [if_pos short]
    exact ⟨.error (-5), rfl, by simp⟩
  · rw [if_neg short]
    have ordered : offset ≤ disk.size := by omega
    have left : sub64 disk.size offset = disk.size - offset := sub64_eq ordered disk.fits
    have room : offset + 110 ≤ disk.size := by omega
    obtain ⟨fields, read⟩ := readFields_ok 13 (offset + 6) (show offset + 6 + 8 * 13 ≤ disk.size by omega)
    simp only [bind, Except.bind, readRange_ok (show offset + 6 ≤ disk.size by omega), read]
    split
    · exact ⟨.error (-2), rfl, by simp⟩
    · cases fields with
      | none => exact ⟨.error (-1), rfl, by simp⟩
      | some fields => exact ⟨_, rfl, fun _ _ => room⟩

/-- An offset inside the archive does not wrap. -/
theorem Archive.add64_inside {disk : Archive} {offset count : Nat}
    (inside : offset + count ≤ disk.size) : add64 offset count = offset + count :=
  add64_eq (inside.trans_lt disk.fits)

/-- The padding is skipped when it lies in the archive. -/
theorem skipPadding_ok {disk : Archive} {offset : Nat} (inside : offset ≤ disk.size) :
    skipPadding disk offset =
      if disk.size < offset + padding offset then .error (-5) else .ok (offset + padding offset) := by
  have left : sub64 disk.size offset = disk.size - offset := sub64_eq inside disk.fits
  have fits := disk.fits
  have test : disk.size - offset < padding offset ↔ disk.size < offset + padding offset := by omega
  unfold skipPadding
  rw [left]
  by_cases short : disk.size < offset + padding offset
  · rw [if_pos (test.mpr short), if_pos short]
  · have total : offset + padding offset < 2 ^ 64 := by
      unfold Archive.size at short
      omega
    rw [if_neg (fun less => short (test.mp less)), if_neg short, add64_eq total]

/-- The name buffer after the copy: the bytes of the record and a tail of the stack. -/
theorem copyName_ok (stack : Nat → UInt8) {bytes : List UInt8} (small : bytes.length ≤ maxPath + 1) :
    ∃ tail, copyName stack bytes = .ok (bytes ++ tail) ∧ (bytes ++ tail).length = maxPath + 1 := by
  refine ⟨_, if_pos small, ?_⟩
  rw [List.length_append, List.length_map, List.length_range]
  omega

/-- A slice inside the archive has its length. -/
theorem slice_length {disk : Archive} {offset count : Nat} (inside : offset + count ≤ disk.size) :
    (disk.slice offset count).length = count := by
  unfold Archive.slice
  unfold Archive.size at inside
  rw [List.length_take, List.length_drop]
  omega

/-- A full buffer with a zero byte holds a C string. -/
theorem terminated_of_mem {name : List UInt8} (room : name.length = maxPath + 1) (member : 0 ∈ name) :
    ∃ text, Terminated name text := by
  obtain ⟨text, rest, split, plain⟩ := List.eq_append_cons_of_mem member
  exact ⟨text, ⟨rest, split⟩, plain, room⟩

/-- The name is read inside the archive and the buffer, and it is terminated. -/
theorem parseName_ok (disk : Archive) (stack : Nat → UInt8) {offset : Nat} (namesize : Nat)
    (inside : offset ≤ disk.size) :
    ∃ result, parseName disk stack offset namesize = .ok result ∧
      ∀ name next, result = .ok (name, next) → (∃ text, Terminated name text) ∧
        offset ≤ next ∧ next ≤ disk.size := by
  have fits := disk.fits
  have left : sub64 disk.size offset = disk.size - offset := sub64_eq inside disk.fits
  unfold parseName
  by_cases bad : namesize = 0 ∨ namesize > maxPath + 1
  · rw [if_pos bad]
    exact ⟨.error (-3), rfl, by simp⟩
  · rw [if_neg bad]
    by_cases short : offset > disk.size ∨ sub64 disk.size offset < namesize
    · rw [if_pos short]
      exact ⟨.error (-3), rfl, by simp⟩
    · rw [if_neg short]
      have room : offset + namesize ≤ disk.size := by omega
      have total := Archive.add64_inside room
      have length := slice_length room
      obtain ⟨tail, copy, size⟩ :=
        copyName_ok stack (show (disk.slice offset namesize).length ≤ maxPath + 1 by omega)
      simp only [bind, Except.bind, readRange_ok room, copy, total]
      generalize disk.slice offset namesize ++ tail = name at size ⊢
      have lastInside : namesize - 1 < name.length := by omega
      have lastLook : readName name (namesize - 1) = .ok (name.get ⟨namesize - 1, lastInside⟩) := by
        rw [readName, List.getElem?_eq_getElem lastInside]
        rfl
      simp only [lastLook]
      split
      · exact ⟨.error (-3), rfl, by simp⟩
      · rename_i null
        have zero : name.get ⟨namesize - 1, lastInside⟩ = 0 := by
          simpa using null
        have member : 0 ∈ name := by
          rw [← zero]
          exact List.get_mem _ _
        obtain ⟨text, terminated⟩ := terminated_of_mem size member
        have whole := terminated.cString 0 (Nat.zero_le _)
        rw [whole]
        dsimp only
        split
        · exact ⟨.error (-3), rfl, by simp⟩
        · rw [skipPadding_ok room]
          split
          · rename_i error
            exact ⟨_, rfl, by simp⟩
          · rename_i next found
            refine ⟨_, rfl, ?_⟩
            intro name next' same
            have pair := Except.ok.inj same
            rw [Prod.mk.injEq] at pair
            rw [← pair.1, ← pair.2]
            split at found
            · simp at found
            · rw [← Except.ok.inj found]
              exact ⟨⟨_, terminated⟩, by omega, by omega⟩

end ArchaOS.FileSystem
