import ArchaOS.Construction.PixelMemory

namespace ArchaOS.Graphics

open Library Traced

section Moving

/-- One below the end of a range is its last byte. -/
theorem sub64_add64 {address count : Nat} (fits : address + (count + 1) ≤ 2 ^ 64) :
    sub64 (add64 address (count + 1)) 1 = address + count := by
  unfold sub64 add64
  omega

/-- Copying upwards to a lower address is a move. -/
theorem copyUp_value (n : Nat) {d s : Nat} (below : d < s) (fits : s + n ≤ 2 ^ 64)
    (memory : Memory) : (copyUp n d s memory).value = memory.move d s n := by
  induction n generalizing d s memory with
  | zero => exact (Memory.move_zero memory d s).symm
  | succ n ih =>
      rw [← Memory.move_lowest memory below]
      simp only [copyUp, value_bind, loadByte, storeByte]
      cases n with
      | zero => exact (Memory.move_zero _ _ _).symm
      | succ n =>
          rw [add64_eq (by omega), add64_eq (by omega)]
          exact ih (by omega) (by omega) _

/-- The addresses of the loads and stores that go up. -/
theorem copyUp_all {holds : Access → Prop} (n : Nat) {d s : Nat} (upper : d + n ≤ 2 ^ 64)
    (fits : s + n ≤ 2 ^ 64) (each : ∀ i < n, holds ⟨d + i, 1⟩ ∧ holds ⟨s + i, 1⟩) (memory : Memory) :
    All holds (copyUp n d s memory) := by
  induction n generalizing d s memory with
  | zero => exact all_pure holds memory
  | succ n ih =>
      have first := each 0 (Nat.succ_pos n)
      have later : ∀ next : Memory, All holds (copyUp n (add64 d 1) (add64 s 1) next) := by
        intro next
        cases n with
        | zero => exact all_pure holds next
        | succ n =>
            rw [add64_eq (by omega), add64_eq (by omega)]
            apply ih (by omega) (by omega)
            intro i inside
            rw [Nat.add_assoc, Nat.add_assoc, Nat.add_comm 1]
            exact each (i + 1) (Nat.succ_lt_succ inside)
      simp only [copyUp, all_bind]
      exact ⟨List.forall_mem_singleton.mpr first.2, List.forall_mem_singleton.mpr first.1, later _⟩

/-- Copying downwards to a higher address is a move. -/
theorem copyDown_value (n : Nat) {d s : Nat} (below : s ≤ d) (fits : d + n ≤ 2 ^ 64)
    (memory : Memory) :
    (copyDown n (add64 d n) (add64 s n) memory).value = memory.move d s n := by
  induction n generalizing memory with
  | zero => exact (Memory.move_zero memory d s).symm
  | succ n ih =>
      have next := ih (by omega) (memory.store (d + n) (memory.byte (s + n)))
      rw [add64_eq (show d + n < 2 ^ 64 by omega), add64_eq (show s + n < 2 ^ 64 by omega)] at next
      rw [← Memory.move_highest memory below]
      simp only [copyDown, value_bind, loadByte, storeByte]
      rw [sub64_add64 fits, sub64_add64 (by omega)]
      exact next

/-- The addresses of the loads and stores that go down. -/
theorem copyDown_all {holds : Access → Prop} (n : Nat) {d s : Nat} (upper : d + n ≤ 2 ^ 64)
    (fits : s + n ≤ 2 ^ 64) (each : ∀ i < n, holds ⟨d + i, 1⟩ ∧ holds ⟨s + i, 1⟩) (memory : Memory) :
    All holds (copyDown n (add64 d n) (add64 s n) memory) := by
  induction n generalizing memory with
  | zero => exact all_pure holds memory
  | succ n ih =>
      have last := each n (Nat.lt_succ_self n)
      have later (next : Memory) : All holds (copyDown n (d + n) (s + n) next) := by
        have below := ih (by omega) (by omega) (fun i inside => each i (Nat.lt_succ_of_lt inside)) next
        rw [add64_eq (show d + n < 2 ^ 64 by omega), add64_eq (show s + n < 2 ^ 64 by omega)] at below
        exact below
      simp only [copyDown, all_bind]
      rw [sub64_add64 upper, sub64_add64 fits]
      exact ⟨List.forall_mem_singleton.mpr last.2, List.forall_mem_singleton.mpr last.1, later _⟩

/-- `memmove` replaces the destination by the old source, however the two overlap. -/
theorem memmove_value {dest src n : Nat} (upper : dest + n ≤ 2 ^ 64) (fits : src + n ≤ 2 ^ 64)
    (memory : Memory) : (memmove dest src n memory).value = (dest, memory.move dest src n) := by
  rw [memmove, value_map]
  congr 1
  split
  · rename_i below
    exact copyUp_value n below fits memory
  · rename_i above
    exact copyDown_value n (Nat.le_of_not_lt above) upper memory

/-- Every access of `memmove` lies in one of its two ranges. -/
theorem memmove_all {holds : Access → Prop} {dest src n : Nat} (upper : dest + n ≤ 2 ^ 64)
    (fits : src + n ≤ 2 ^ 64) (each : ∀ i < n, holds ⟨dest + i, 1⟩ ∧ holds ⟨src + i, 1⟩)
    (memory : Memory) : All holds (memmove dest src n memory) := by
  rw [memmove, all_map]
  split
  · exact copyUp_all n upper fits each memory
  · exact copyDown_all n upper fits each memory

end Moving

end ArchaOS.Graphics
