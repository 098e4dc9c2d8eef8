import ArchaOS.Construction.LoaderText
import ArchaOS.Construction.Stdio
import ArchaOS.Library.Numeral

namespace ArchaOS.Stdio

open Library

/-- The decimal numeral of a number. -/
def decimal (value : Nat) : List UInt8 := (Numeral.digits 10 value).map digitChar

/-- The decimal numeral of an integer. -/
def signed (value : Int) : List UInt8 := (if value < 0 then [minus] else []) ++ decimal value.natAbs

/-- A text is a decimal numeral of a number, without leading zeros. -/
def Canonical (value : Nat) (text : List UInt8) : Prop :=
  ∃ numeral, text = numeral.map digitChar ∧ Numeral.Canonical 10 value numeral

/-- The decimal text of a number is canonical. -/
theorem decimal_canonical (value : Nat) : Canonical value (decimal value) :=
  ⟨_, rfl, Numeral.digits_canonical (by decide) value⟩

/-- A canonical text is the decimal text. -/
theorem Canonical.unique {value : Nat} {text : List UInt8} (canonical : Canonical value text) :
    text = decimal value := by
  obtain ⟨numeral, rfl, numeralCanonical⟩ := canonical
  rw [numeralCanonical.unique (by decide), decimal]

/-- A number below a power of ten has at most that many digits. -/
theorem decimal_length {value count : Nat} (positive : 0 < count) (small : value < 10 ^ count) :
    (decimal value).length ≤ count := by
  rw [decimal, List.length_map]
  exact Numeral.digits_length_le (by decide) positive small

/-- No digit is a zero byte. -/
theorem digitChar_ne_zero {digit : Nat} (small : digit < 10) : digitChar digit ≠ 0 := by
  have all : ∀ digit < 10, digitChar digit ≠ 0 := by decide
  exact all digit small

/-- The digit loops leave the digits from the lowest on, if the array has room for them. -/
theorem storeDigits_eq (size value : Nat) (buf : List UInt8) :
    storeDigits size value buf =
      if value = 0 ∨ buf.length + (Nat.digits 10 value).length ≤ size then
        .ok (buf ++ (Nat.digits 10 value).map digitChar)
      else .error .outside := by
  induction value using Nat.strong_induction_on generalizing buf with
  | _ value ih =>
      rw [storeDigits]
      by_cases zero : value = 0
      · subst zero
        simp
      · have below : value / 10 < value := by omega
        have step : Nat.digits 10 value = value % 10 :: Nat.digits 10 (value / 10) :=
          Nat.digits_def' (by decide) (by omega)
        rw [if_neg zero, ih _ below]
        simp only [step, zero, false_or, List.length_cons, List.length_append, List.length_nil,
          List.map_cons, List.append_assoc, List.singleton_append]
        by_cases full : buf.length ≥ size
        · rw [if_pos full, if_neg (by omega)]
        · rw [if_neg full]
          by_cases last : value / 10 = 0
          · simp only [last, true_or, if_true, Nat.digits_zero, List.length_nil, List.map_nil]
            rw [if_pos (by omega)]
          · have same : (value / 10 = 0 ∨
                buf.length + (0 + 1) + (Nat.digits 10 (value / 10)).length ≤ size) ↔
                buf.length + ((Nat.digits 10 (value / 10)).length + 1) ≤ size := by omega
            simp only [same]

/-- `print_uint` prints the decimal text. -/
theorem printUint_eq (value : Nat) : printUint value = decimal value := by
  induction value using Nat.strong_induction_on with
  | _ value ih =>
      rw [printUint]
      split
      · rename_i high
        rw [ih (value / 10) (by omega), decimal, decimal, Numeral.digits_snoc (by decide) high,
          List.map_append, List.map_singleton]
      · rename_i low
        have small : value < 10 := by omega
        rw [decimal, Numeral.digits_small small, List.map_singleton, Nat.mod_eq_of_lt small]

/-- `print_u64` prints the decimal text. -/
theorem printU64_eq (value : BitVec 64) : printU64 value = .ok (decimal value.toNat) := by
  have range := value.isLt
  unfold printU64
  by_cases zero : value = 0
  · rw [if_pos zero, zero]
    rfl
  · have positive : value.toNat ≠ 0 := fun same => zero (BitVec.eq_of_toNat_eq same)
    have short : (Nat.digits 10 value.toNat).length ≤ 20 := by
      rw [Nat.digits_length_le_iff (by decide)]
      omega
    rw [if_neg zero, storeDigits_eq, if_pos (Or.inr (by simpa using short)), decimal,
      Numeral.digits_pos positive, List.map_reverse]
    rfl

/-- The magnitude that the two functions for `int` print. -/
theorem magnitude (value : BitVec 32) :
    (if value.toInt < 0 then 0 - value else value).toNat = value.toInt.natAbs := by
  have range := value.isLt
  have view := BitVec.toInt_eq_toNat_cond value
  have negated : (0 - value).toNat = (2 ^ 32 - value.toNat) % 2 ^ 32 := by
    simp
  by_cases negative : value.toInt < 0
  · rw [if_pos negative, negated]
    split at view <;> omega
  · rw [if_neg negative]
    split at view <;> omega

/-- `print_int` prints the signed decimal text. -/
theorem printInt_eq (value : BitVec 32) : printInt value = signed value.toInt := by
  have size := magnitude value
  unfold printInt signed
  split at size
  · rename_i negative
    rw [if_pos negative, if_pos negative, printUint_eq, size]
    rfl
  · rename_i positive
    rw [if_neg positive, if_neg positive, printUint_eq, size]
    rfl

/-- The characters of a numeral are no terminators. -/
theorem digits_plain (value : Nat) : (0 : UInt8) ∉ (Nat.digits 10 value).map digitChar := by
  intro member
  obtain ⟨digit, inside, zero⟩ := List.mem_map.mp member
  exact digitChar_ne_zero (Nat.digits_lt_base (by decide) inside) zero

section Serial

/-- Exchanging the ends turns the text around. -/
theorem exchangeEnds_eq {original str : List UInt8} {turns : Nat}
    (turned : Turned original str turns) :
    exchangeEnds turns (original.length - 1 - turns) str = original.reverse := by
  generalize distance : original.length - 2 * turns = rest
  induction rest using Nat.strong_induction_on generalizing turns str with
  | _ rest ih =>
      rw [exchangeEnds]
      split
      · rename_i more
        have next : original.length - 1 - turns - 1 = original.length - 1 - (turns + 1) := by omega
        rw [next]
        exact ih _ (by omega) (turned.turn more) rfl
      · exact turned.whole (by omega)

/-- `serial_print` prints a string up to its zero. -/
theorem serialPrint_eq {chars : List UInt8} (plain : 0 ∉ chars) (rest : List UInt8) :
    serialPrint (chars ++ 0 :: rest) = .ok chars := by
  induction chars with
  | nil => simp [serialPrint]
  | cons c chars ih =>
      rw [List.mem_cons, not_or] at plain
      rw [List.cons_append, serialPrint, if_neg (Ne.symm plain.1), ih plain.2]
      rfl

/-- The sign comes from bit 31, and zero has no digit. -/
theorem serialPrintDec_eq (N : BitVec 64) :
    serialPrintDec N =
      .ok ((if N.getLsbD 31 then [minus] else []) ++ ((Nat.digits 10 N.toNat).map digitChar).reverse) := by
  have range := N.isLt
  have short : (Nat.digits 10 N.toNat).length ≤ 20 := by
    rw [Nat.digits_length_le_iff (by decide)]
    omega
  have unsigned : ¬ N < 0 := by simp
  have sign : (N.setWidth 32).toInt < 0 ↔ N.getLsbD 31 = true := by
    have top : (N.setWidth 32).msb = N.getLsbD 31 := BitVec.msb_setWidth'' N
    rw [← top, BitVec.msb_eq_toInt, decide_eq_true_eq]
  have plain := digits_plain N.toNat
  have printed (chars : List UInt8) (clean : 0 ∉ chars) (small : chars.length < 22) :
      (if chars.length ≥ 22 then (.error .outside : Outcome (List UInt8))
        else serialPrint (exchangeEnds 0 (chars.length - 1) chars ++ [0])) = .ok chars.reverse := by
    rw [if_neg (not_le.mpr small)]
    have turned := exchangeEnds_eq (Turned.start chars)
    rw [Nat.sub_zero] at turned
    rw [turned]
    apply serialPrint_eq
    rwa [List.mem_reverse]
  unfold serialPrintDec
  simp only [if_neg unsigned, storeDigits_eq, List.length_nil, Nat.zero_add, List.nil_append, sign]
  rw [if_pos (Or.inr (by omega))]
  cases negative : N.getLsbD 31 with
  | false =>
      simp only [Bool.false_eq_true, if_false, List.nil_append]
      exact printed _ plain (by rw [List.length_map]; omega)
  | true =>
      have signedPlain : 0 ∉ (Nat.digits 10 N.toNat).map digitChar ++ [minus] := by
        rw [List.mem_append, not_or]
        exact ⟨plain, by decide⟩
      have result := printed _ signedPlain (by simp; omega)
      rw [List.reverse_append, List.reverse_singleton] at result
      simp only [if_true]
      rw [← result]
      have room : ¬ ((Nat.digits 10 N.toNat).map digitChar).length ≥ 22 := by
        rw [List.length_map]
        omega
      exact if_neg room

/-- The serial output agrees with the screen exactly for a number other than zero whose bit 31 is
clear. -/
theorem serialPrintDec_iff (N : BitVec 64) :
    serialPrintDec N = printU64 N ↔ N ≠ 0 ∧ N.getLsbD 31 = false := by
  rw [serialPrintDec_eq, printU64_eq, Except.ok.injEq]
  by_cases zero : N = 0
  · subst zero
    apply iff_of_false
    · decide +kernel
    · simp
  · have positive : N.toNat ≠ 0 := fun same => zero (BitVec.eq_of_toNat_eq same)
    have digits : ((Nat.digits 10 N.toNat).map digitChar).reverse = decimal N.toNat := by
      rw [decimal, Numeral.digits_pos positive, List.map_reverse]
    rw [digits]
    cases N.getLsbD 31 with
    | false => simpa using zero
    | true => simp

/-- The serial output of zero is empty. -/
theorem serialPrintDec_fails : ¬ ∀ N : BitVec 64, serialPrintDec N = printU64 N := by
  intro agree
  have same := agree 0
  rw [serialPrintDec_eq, printU64_eq, Except.ok.injEq] at same
  exact absurd same (by decide +kernel)

end Serial

section Loader

open LoaderText

/-- The digit loop of the loader stores the same digits, if the buffer has room for them. -/
theorem decimalLoop_eq {bufSize value : Nat} {buf : List UInt8} (positive : value ≠ 0)
    (room : buf.length + (Nat.digits 10 value).length < bufSize) :
    decimalLoop bufSize value (buf.map UInt8.toUInt16) =
      (buf ++ (Nat.digits 10 value).map digitChar).map UInt8.toUInt16 := by
  induction value using Nat.strong_induction_on generalizing buf with
  | _ value ih =>
      have step : Nat.digits 10 value = value % 10 :: Nat.digits 10 (value / 10) :=
        Nat.digits_def' (by decide) (by omega)
      have char : (UInt16.ofNat (48 + value % 10)) = (digitChar (value % 10)).toUInt16 := by
        have all : ∀ digit < 10, UInt16.ofNat (48 + digit) = (digitChar digit).toUInt16 := by decide
        exact all _ (Nat.mod_lt _ (by decide))
      have stored : buf.map UInt8.toUInt16 ++ [(digitChar (value % 10)).toUInt16] =
          (buf ++ [digitChar (value % 10)]).map UInt8.toUInt16 := by simp
      rw [step, List.length_cons] at room
      rw [decimalLoop, List.length_map, if_neg (by omega), char, stored]
      split
      · rename_i last
        rw [step, last]
        simp
      · rename_i more
        rw [ih _ (by omega) more (by rw [List.length_append, List.length_singleton]; omega), step]
        simp

/-- The second loop reverses the digits. -/
theorem reverseLoop_eq (buf : List UInt16) : reverseLoop buf = buf.reverse := by
  have turned (turns : Nat) (within : turns ≤ buf.length / 2) :
      Turned buf ((List.range turns).foldl (fun buf i => swap buf i (buf.length - 1 - i)) buf)
        turns := by
    induction turns with
    | zero => exact Turned.start buf
    | succ turns ih =>
        have before := ih (by omega)
        have next := before.turn (by omega)
        rw [List.range_succ, List.foldl_append, List.foldl_cons, List.foldl_nil, before.length]
        exact next
  exact (turned _ le_rfl).whole (by omega)

/-- With room for 21 characters the loader prints the decimal text. -/
theorem decimalConvert_eq (value : BitVec 64) {bufSize : Nat} (room : 21 ≤ bufSize) :
    decimalConvert value bufSize = (decimal value.toNat).map UInt8.toUInt16 ++ [0] := by
  have range := value.isLt
  unfold decimalConvert
  rw [if_neg (by omega), reverseLoop_eq]
  by_cases zero : value.toNat = 0
  · rw [zero, decimalLoop]
    simp only [List.length_nil, ge_iff_le, Nat.zero_div, if_true]
    rw [if_neg (by omega)]
    rfl
  · have short : (Nat.digits 10 value.toNat).length ≤ 20 := by
      rw [Nat.digits_length_le_iff (by decide)]
      omega
    have fits : ([] : List UInt8).length + (Nat.digits 10 value.toNat).length < bufSize := by
      rw [List.length_nil]
      omega
    have digits := decimalLoop_eq zero fits
    rw [List.map_nil] at digits
    rw [digits, List.nil_append, decimal, Numeral.digits_pos zero]
    simp only [List.map_reverse]

end Loader

end ArchaOS.Stdio
