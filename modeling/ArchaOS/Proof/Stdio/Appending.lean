import ArchaOS.Proof.Stdio.Numbers

namespace ArchaOS.Stdio

open Library

/-- The number of characters that still fit in front of the terminator. -/
def Appender.kept (start : Appender) (chars : List UInt8) : Nat :=
  min chars.length (start.remaining - 1)

/-- The buffer after some characters have been appended as far as there is room. -/
def Appender.after (start : Appender) (chars : List UInt8) : Appender where
  buffer := start.buffer.take start.out ++ chars.take (start.remaining - 1) ++
    start.buffer.drop (start.out + start.kept chars)
  out := start.out + start.kept chars
  remaining := start.remaining - start.kept chars

/-- The remaining characters fit into the buffer. -/
def Appender.Fits (start : Appender) : Prop := start.out + start.remaining ≤ start.buffer.length

/-- After no character the appender is as at first. -/
theorem Appender.after_nil (start : Appender) : start.after [] = start := by
  have none : start.kept [] = 0 := Nat.zero_min _
  simp [Appender.after, none]

/-- One more character is stored, or there is no room left for it. -/
theorem appendChar_after {start : Appender} (fits : start.Fits) (chars : List UInt8) (c : UInt8) :
    appendChar c (start.after chars) = .ok (start.after (chars ++ [c])) := by
  unfold Appender.Fits at fits
  by_cases full : start.remaining - 1 ≤ chars.length
  · have before : start.kept chars = start.remaining - 1 := Nat.min_eq_right full
    have later : start.kept (chars ++ [c]) = start.remaining - 1 := by
      apply Nat.min_eq_right
      rw [List.length_append]
      omega
    have closed : (start.after chars).remaining ≤ 1 := by
      simp only [Appender.after, before]
      omega
    rw [appendChar, if_pos closed]
    simp only [Appender.after, before, later, List.take_append_of_le_length full]
  · have before : start.kept chars = chars.length := Nat.min_eq_left (by omega)
    have later : start.kept (chars ++ [c]) = chars.length + 1 := by
      rw [Appender.kept, List.length_append, List.length_singleton]
      exact Nat.min_eq_left (by omega)
    have room : ¬ (start.after chars).remaining ≤ 1 := by
      simp only [Appender.after, before]
      omega
    have whole : chars.take (start.remaining - 1) = chars := List.take_of_length_le (by omega)
    have more : (chars ++ [c]).take (start.remaining - 1) = chars ++ [c] := by
      apply List.take_of_length_le
      rw [List.length_append, List.length_singleton]
      omega
    have position : (start.buffer.take start.out ++ chars).length = start.out + chars.length := by
      rw [List.length_append, List.length_take]
      omega
    have inside : start.out + chars.length < start.buffer.length := by omega
    have next : start.buffer.drop (start.out + chars.length) =
        start.buffer[start.out + chars.length] :: start.buffer.drop (start.out + chars.length + 1) :=
      List.drop_eq_getElem_cons inside
    rw [appendChar, if_neg room]
    simp only [Appender.store, Appender.after, before, later, whole, more]
    have bounded : start.out + chars.length < (start.buffer.take start.out ++ chars ++
        start.buffer.drop (start.out + chars.length)).length := by
      rw [List.length_append, position, List.length_drop]
      omega
    rw [if_pos bounded, List.set_append_right _ _ (by omega), position, Nat.sub_self, next,
      List.set_cons_zero]
    simp only [bind, Except.bind, pure, Except.pure, Except.ok.injEq, Appender.mk.injEq]
    constructor
    · simp [Nat.add_assoc]
    · omega

/-- A loop of stores appends its characters in their order. -/
theorem appendChars_after {start : Appender} (fits : start.Fits) (chars more : List UInt8) :
    more.foldlM (fun appender c => appendChar c appender) (start.after chars) =
      .ok (start.after (chars ++ more)) := by
  induction more generalizing chars with
  | nil =>
      rw [List.append_nil]
      rfl
  | cons c more ih =>
      rw [List.foldlM_cons, appendChar_after fits]
      change more.foldlM _ (start.after (chars ++ [c])) = _
      rw [ih, List.append_assoc, List.singleton_append]

/-- A string is appended as far as it fits. -/
theorem appendString_after {start : Appender} (fits : start.Fits) (chars : List UInt8) (text : Text) :
    appendString text.terminated (start.after chars) = .ok (start.after (chars ++ text.bytes)) := by
  obtain ⟨bytes, plain⟩ := text
  change appendString (bytes ++ [0]) _ = .ok (start.after (chars ++ bytes))
  induction bytes generalizing chars with
  | nil => simp [appendString]
  | cons c bytes ih =>
      rw [List.mem_cons, not_or] at plain
      rw [List.cons_append, appendString, if_neg (Ne.symm plain.1), appendChar_after fits]
      change appendString (bytes ++ [0]) (start.after (chars ++ [c])) = _
      rw [ih _ plain.2, List.append_assoc, List.singleton_append]

/-- A number is appended in decimal as far as it fits. -/
theorem appendMagnitude_after {start : Appender} (fits : start.Fits) (chars : List UInt8)
    (n : BitVec 32) :
    appendMagnitude n (start.after chars) = .ok (start.after (chars ++ decimal n.toNat)) := by
  unfold appendMagnitude
  by_cases zero : n = 0
  · rw [if_pos zero, zero, appendChar_after fits]
    rfl
  · have range := n.isLt
    have positive : n.toNat ≠ 0 := fun same => zero (BitVec.eq_of_toNat_eq same)
    have short : (Nat.digits 10 n.toNat).length ≤ 12 := by
      rw [Nat.digits_length_le_iff (by decide)]
      omega
    rw [if_neg zero, storeDigits_eq, if_pos (Or.inr (by simpa using short)), decimal,
      Numeral.digits_pos positive, List.map_reverse]
    exact appendChars_after fits _ _

/-- A signed number is appended in decimal as far as it fits. -/
theorem appendInt_after {start : Appender} (fits : start.Fits) (chars : List UInt8)
    (value : BitVec 32) :
    appendInt value (start.after chars) = .ok (start.after (chars ++ signed value.toInt)) := by
  have size := magnitude value
  unfold appendInt signed
  split at size
  · rename_i negative
    rw [if_pos negative, if_pos negative, appendChar_after fits]
    change appendMagnitude (0 - value) (start.after (chars ++ [minus])) = _
    rw [appendMagnitude_after fits, size, List.append_assoc]
  · rename_i positive
    rw [if_neg positive, if_neg positive, appendMagnitude_after fits, size, List.nil_append]

/-- With enough room the characters are stored as they are. -/
theorem Appender.after_room {start : Appender} {chars : List UInt8}
    (room : chars.length < start.remaining) :
    start.after chars =
      ⟨start.buffer.take start.out ++ chars ++ start.buffer.drop (start.out + chars.length),
        start.out + chars.length, start.remaining - chars.length⟩ := by
  have all : start.kept chars = chars.length := Nat.min_eq_left (by omega)
  have whole : chars.take (start.remaining - 1) = chars := List.take_of_length_le (by omega)
  rw [Appender.after, all, whole]

/-- The decimal functions give the one canonical numeral of a value, and the two functions for `int`
put a sign in front of it exactly for a negative value. -/
theorem renderers_agree (value : BitVec 64) {bufSize : Nat} (large : 21 ≤ bufSize) (word : BitVec 32)
    {appender : Appender} (fits : appender.Fits)
    (room : (printInt word).length < appender.remaining) :
    (∃ text, (∀ other, Canonical value.toNat other ↔ other = text) ∧ text.length ≤ 20 ∧
      printU64 value = .ok text ∧
      LoaderText.decimalConvert value bufSize = text.map UInt8.toUInt16 ++ [0]) ∧
    .ok (printUint word.toNat) = printU64 (word.setWidth 64) ∧
    (∃ text, Canonical word.toInt.natAbs text ∧
      printInt word = (if word.toInt < 0 then [minus] else []) ++ text) ∧
    appendInt word appender =
      .ok ⟨appender.buffer.take appender.out ++ printInt word ++
          appender.buffer.drop (appender.out + (printInt word).length),
        appender.out + (printInt word).length, appender.remaining - (printInt word).length⟩ := by
  have range := value.isLt
  have small := word.isLt
  constructor
  · refine ⟨decimal value.toNat, ?_, ?_, printU64_eq value, decimalConvert_eq value large⟩
    · intro other
      constructor
      · exact Canonical.unique
      · intro same
        rw [same]
        exact decimal_canonical value.toNat
    · apply decimal_length (by decide)
      omega
  constructor
  · have wide : (word.setWidth 64).toNat = word.toNat := by
      rw [BitVec.toNat_setWidth]
      omega
    rw [printUint_eq, printU64_eq, wide]
  constructor
  · exact ⟨_, decimal_canonical _, printInt_eq word⟩
  · have stored := appendInt_after fits [] word
    rw [Appender.after_nil, List.nil_append, ← printInt_eq, Appender.after_room room] at stored
    exact stored

/-- A value of several digits and a negative one, behind a byte of the buffer. -/
theorem renderers_agree_sample :
    printU64 40960 = .ok [52, 48, 57, 54, 48] ∧
      LoaderText.decimalConvert 40960 21 = [52, 48, 57, 54, 48, 0] ∧
      printInt (-205) = [45, 50, 48, 53] ∧
      appendInt (-205) ⟨[9, 7, 7, 7, 7, 7], 1, 5⟩ = .ok ⟨[9, 45, 50, 48, 53, 7], 5, 1⟩ := by
  have digits : decimal 40960 = [52, 48, 57, 54, 48] := by
    norm_num [decimal, Numeral.digits]
    decide
  have negative : printInt (-205) = [45, 50, 48, 53] := by
    have size : (-205 : BitVec 32).toInt.natAbs = 205 := by decide
    rw [printInt_eq]
    norm_num [signed, decimal, Numeral.digits, size]
    decide
  have room : (printInt (-205)).length < 5 := by
    rw [negative]
    decide
  have fits : Appender.Fits ⟨[9, 7, 7, 7, 7, 7], 1, 5⟩ := Nat.le_refl 6
  obtain ⟨⟨text, unique, _, printed, converted⟩, _, _, stored⟩ :=
    renderers_agree 40960 (Nat.le_refl 21) (-205) fits room
  have same : [52, 48, 57, 54, 48] = text :=
    (unique [52, 48, 57, 54, 48]).mp (digits ▸ decimal_canonical 40960)
  subst same
  rw [negative] at stored
  exact ⟨printed, converted, negative, stored⟩

end ArchaOS.Stdio
