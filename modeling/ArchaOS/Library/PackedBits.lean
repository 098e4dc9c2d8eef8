import Mathlib.Data.Finset.Card
import Mathlib.Logic.Function.Basic
import Mathlib.Tactic.DefEqTransformations

namespace ArchaOS.Library.PackedBits

/-- A packed array holds eight flags in each byte, the lowest bit first. -/
abbrev Bytes := Nat → BitVec 8

def mask (index : Nat) : BitVec 8 := 1#8 <<< (index % 8)

def isSet (bytes : Bytes) (index : Nat) : Bool := bytes (index / 8) &&& mask index != 0#8

def set (bytes : Bytes) (index : Nat) : Bytes :=
  Function.update bytes (index / 8) (bytes (index / 8) ||| mask index)

def clear (bytes : Bytes) (index : Nat) : Bytes :=
  Function.update bytes (index / 8) (bytes (index / 8) &&& ~~~ mask index)

/-- The mask test reads the addressed bit. -/
theorem isSet_eq (bytes : Bytes) (index : Nat) :
    isSet bytes index = (bytes (index / 8)).getLsbD (index % 8) := by
  have inside : index % 8 < 8 := Nat.mod_lt _ (by decide)
  rw [isSet, mask, ← BitVec.twoPow_eq, BitVec.and_twoPow]
  cases (bytes (index / 8)).getLsbD (index % 8) with
  | false => simp
  | true =>
      have nonzero : BitVec.twoPow 8 (index % 8) ≠ 0#8 := by
        intro zero
        have bit := congrArg (fun word => word.getLsbD (index % 8)) zero
        simp [inside] at bit
      simpa using nonzero

/-- Two indices are equal exactly when they name the same bit of the same byte. -/
theorem index_eq_iff (first second : Nat) :
    first = second ↔ first / 8 = second / 8 ∧ first % 8 = second % 8 := by
  omega

/-- The mask of an index has one bit. -/
theorem mask_getLsbD (index bit : Nat) :
    (mask index).getLsbD bit = decide (index % 8 = bit) := by
  have low : index % 8 < 8 := Nat.mod_lt _ (by decide)
  rw [mask, ← BitVec.twoPow_eq, BitVec.getLsbD_twoPow]
  simp [low]

@[simp] theorem isSet_set (bytes : Bytes) (index other : Nat) :
    isSet (set bytes index) other = (decide (other = index) || isSet bytes other) := by
  have inside : other % 8 < 8 := Nat.mod_lt _ (by decide)
  rw [isSet_eq, isSet_eq, set]
  by_cases sameByte : other / 8 = index / 8
  · rw [sameByte, Function.update_self, BitVec.getLsbD_or, mask_getLsbD index, Bool.or_comm]
    congr 1
    apply decide_eq_decide.mpr
    rw [index_eq_iff other index]
    constructor
    · exact fun same => ⟨sameByte, same.symm⟩
    · exact fun same => same.2.symm
  · have different : other ≠ index := fun same => sameByte (congrArg (· / 8) same)
    rw [Function.update_of_ne sameByte]
    simp [different]

@[simp] theorem isSet_clear (bytes : Bytes) (index other : Nat) :
    isSet (clear bytes index) other = (decide (other ≠ index) && isSet bytes other) := by
  have inside : other % 8 < 8 := Nat.mod_lt _ (by decide)
  rw [isSet_eq, isSet_eq, clear]
  by_cases sameByte : other / 8 = index / 8
  · rw [sameByte, Function.update_self, BitVec.getLsbD_and, BitVec.getLsbD_not,
      mask_getLsbD index, Bool.and_comm]
    congr 1
    have same : other = index ↔ index % 8 = other % 8 := by
      rw [index_eq_iff other index]
      constructor
      · exact fun both => both.2.symm
      · exact fun bit => ⟨sameByte, bit.symm⟩
    simp [inside, same]
  · have different : other ≠ index := fun same => sameByte (congrArg (· / 8) same)
    rw [Function.update_of_ne sameByte]
    simp [different]

/-- Two arrays with the same flags are the same bytes. -/
theorem eq_of_isSet_eq {first second : Bytes}
    (same : ∀ index, isSet first index = isSet second index) : first = second := by
  funext byte
  apply BitVec.eq_of_getLsbD_eq
  intro bit inside
  have quotient : (byte * 8 + bit) / 8 = byte := by omega
  have remainder : (byte * 8 + bit) % 8 = bit := by omega
  have flag := same (byte * 8 + bit)
  rwa [isSet_eq, isSet_eq, quotient, remainder] at flag

/-- The count ranges over the clear bits below a limit. -/
def clearBelow (bytes : Bytes) (limit : Nat) : Finset Nat :=
  (Finset.range limit).filter fun index => isSet bytes index = false

/-- The clear indices below a limit are those whose bits are not set. -/
theorem mem_clearBelow (bytes : Bytes) (limit index : Nat) :
    index ∈ clearBelow bytes limit ↔ index < limit ∧ isSet bytes index = false := by
  simp [clearBelow]

/-- There are at most as many clear indices as indices. -/
theorem clearBelow_card_le (bytes : Bytes) (limit : Nat) :
    (clearBelow bytes limit).card ≤ limit := by
  have bound := Finset.card_filter_le (Finset.range limit) fun index => isSet bytes index = false
  rwa [Finset.card_range] at bound

/-- Setting a clear bit removes exactly that index from the clear set. -/
theorem clearBelow_set (bytes : Bytes) (limit index : Nat) :
    clearBelow (set bytes index) limit = (clearBelow bytes limit).erase index := by
  ext other
  simp only [mem_clearBelow, Finset.mem_erase, isSet_set, Bool.or_eq_false_iff,
    decide_eq_false_iff_not]
  tauto

/-- Clearing a set bit adds exactly that index to the clear set. -/
theorem clearBelow_clear (bytes : Bytes) (limit index : Nat) (inside : index < limit) :
    clearBelow (clear bytes index) limit = insert index (clearBelow bytes limit) := by
  ext other
  simp only [mem_clearBelow, Finset.mem_insert, isSet_clear, Bool.and_eq_false_iff,
    decide_eq_false_iff_not, not_not]
  constructor
  · rintro ⟨low, same | unset⟩
    · exact Or.inl same
    · exact Or.inr ⟨low, unset⟩
  · rintro (rfl | ⟨low, unset⟩)
    · exact ⟨inside, Or.inl rfl⟩
    · exact ⟨low, Or.inr unset⟩

/-- Setting a clear bit lowers the number of clear bits by one. -/
theorem clearBelow_set_card (bytes : Bytes) (limit index : Nat) (inside : index < limit)
    (unset : isSet bytes index = false) :
    (clearBelow (set bytes index) limit).card + 1 = (clearBelow bytes limit).card := by
  rw [clearBelow_set]
  exact Finset.card_erase_add_one ((mem_clearBelow _ _ _).mpr ⟨inside, unset⟩)

/-- Clearing a set bit raises the number of clear bits by one. -/
theorem clearBelow_clear_card (bytes : Bytes) (limit index : Nat) (inside : index < limit)
    (present : isSet bytes index = true) :
    (clearBelow (clear bytes index) limit).card = (clearBelow bytes limit).card + 1 := by
  rw [clearBelow_clear bytes limit index inside]
  apply Finset.card_insert_of_notMem
  rw [mem_clearBelow]
  simp [present]

/-- A byte differs from the full byte exactly when it holds a clear bit. -/
theorem byte_full_iff (byte : BitVec 8) :
    byte = 0xFF#8 ↔ ∀ bit, bit < 8 → byte.getLsbD bit = true := by
  constructor
  · rintro rfl bit inside
    have all : ∀ low : Fin 8, (0xFF#8).getLsbD low = true := by decide
    exact all ⟨bit, inside⟩
  · intro full
    apply BitVec.eq_of_getLsbD_eq
    intro bit inside
    have all : ∀ low : Fin 8, (0xFF#8).getLsbD low = true := by decide
    rw [full bit inside, all ⟨bit, inside⟩]

end ArchaOS.Library.PackedBits
