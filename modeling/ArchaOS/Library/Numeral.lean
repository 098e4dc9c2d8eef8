import Mathlib.Data.Nat.Digits.Lemmas
import Mathlib.Tactic

namespace ArchaOS.Library.Numeral

/-- The numeral of a number, its highest digit first; zero has one digit. -/
def digits (base value : Nat) : List Nat :=
  if value = 0 then [0] else (Nat.digits base value).reverse

/-- A numeral of a number has digits of the base, no leading zero and the number as its value. -/
structure Canonical (base value : Nat) (numeral : List Nat) : Prop where
  bounded : ∀ digit ∈ numeral, digit < base
  value : Nat.ofDigits base numeral.reverse = value
  nonempty : numeral ≠ []
  leading : 1 < numeral.length → numeral.head? ≠ some 0

theorem digits_zero (base : Nat) : digits base 0 = [0] := rfl

theorem digits_pos {base value : Nat} (positive : value ≠ 0) :
    digits base value = (Nat.digits base value).reverse := if_neg positive

/-- The digits of a number are its canonical numeral. -/
theorem digits_canonical {base : Nat} (large : 1 < base) (value : Nat) :
    Canonical base value (digits base value) := by
  by_cases zero : value = 0
  · subst zero
    rw [digits_zero]
    exact ⟨by simp; omega, by simp, by simp, by simp⟩
  · rw [digits_pos zero]
    have nonempty : Nat.digits base value ≠ [] := Nat.digits_ne_nil_iff_ne_zero.mpr zero
    constructor
    · intro digit member
      exact Nat.digits_lt_base large (List.mem_reverse.mp member)
    · rw [List.reverse_reverse, Nat.ofDigits_digits]
    · simpa using nonempty
    · intro _ first
      rw [List.head?_reverse, List.getLast?_eq_some_getLast nonempty, Option.some.injEq] at first
      exact Nat.getLast_digit_ne_zero base zero first

/-- A number has one numeral. -/
theorem Canonical.unique {base value : Nat} (large : 1 < base) {numeral : List Nat}
    (canonical : Canonical base value numeral) : numeral = digits base value := by
  by_cases single : numeral.length = 1
  · obtain ⟨digit, rfl⟩ := List.length_eq_one_iff.mp single
    have small := canonical.bounded digit (by simp)
    have same : digit = value := by simpa using canonical.value
    subst same
    by_cases zero : digit = 0
    · rw [zero, digits_zero]
    · rw [digits_pos zero, Nat.digits_of_lt base digit zero small, List.reverse_singleton]
  · have long : 1 < numeral.length := by
      have some := List.length_pos_iff.mpr canonical.nonempty
      omega
    have filled : numeral.reverse ≠ [] := by simpa using canonical.nonempty
    have last : numeral.reverse.getLast filled ≠ 0 := by
      intro zero
      apply canonical.leading long
      rw [← List.getLast?_reverse, List.getLast?_eq_some_getLast filled, zero]
    have back : Nat.digits base value = numeral.reverse := by
      rw [← canonical.value]
      apply Nat.digits_ofDigits base large
      · intro digit member
        exact canonical.bounded digit (List.mem_reverse.mp member)
      · exact fun _ => last
    have positive : value ≠ 0 := by
      rw [← Nat.digits_ne_nil_iff_ne_zero (b := base), back]
      exact filled
    rw [digits_pos positive, back, List.reverse_reverse]

/-- A number below the base is one digit. -/
theorem digits_small {base value : Nat} (small : value < base) : digits base value = [value] := by
  by_cases zero : value = 0
  · rw [zero, digits_zero]
  · rw [digits_pos zero, Nat.digits_of_lt base value zero small, List.reverse_singleton]

/-- The lowest digit stands behind the numeral of the rest. -/
theorem digits_snoc {base value : Nat} (large : 1 < base) (high : base ≤ value) :
    digits base value = digits base (value / base) ++ [value % base] := by
  have positive : value ≠ 0 := by omega
  have rest : value / base ≠ 0 := by
    have := Nat.div_pos high (by omega)
    omega
  rw [digits_pos positive, digits_pos rest, Nat.digits_def' large (by omega), List.reverse_cons]

/-- A number below a power of the base has at most that many digits. -/
theorem digits_length_le {base value count : Nat} (large : 1 < base) (positive : 0 < count)
    (small : value < base ^ count) : (digits base value).length ≤ count := by
  by_cases zero : value = 0
  · rw [zero, digits_zero]
    exact positive
  · rw [digits_pos zero, List.length_reverse, Nat.digits_length_le_iff large]
    exact small

end ArchaOS.Library.Numeral
