import ArchaOS.Proof.Stdio.Appending

namespace ArchaOS.Stdio

open Library

/-- The arguments have the types that the conversions ask for. -/
def Matches (args : List Arg) (kinds : List Kind) : Prop := args.map Arg.kind = kinds

/-- A format for `format` is cut into characters and conversions of two characters. -/
inductive FormatPiece where
  | plain (c : UInt8) (ordinary : c ≠ percent) (inside : c ≠ 0)
  | conversion (c : UInt8) (inside : c ≠ 0)

def FormatPiece.text : FormatPiece → List UInt8
  | .plain c _ _ => [c]
  | .conversion c _ => [percent, c]

/-- The argument that a conversion takes. -/
def FormatPiece.kinds : FormatPiece → List Kind
  | .plain _ _ _ => []
  | .conversion c _ =>
      match letter c with
      | .d => [.word]
      | .s => [.string]
      | _ => []

/-- The characters that a piece stands for, and the arguments that are left. -/
def FormatPiece.expand : FormatPiece → List Arg → List UInt8 × List Arg
  | .plain c _ _, args => ([c], args)
  | .conversion c _, args =>
      match letter c, args with
      | .d, .word value :: args => (signed value.toInt, args)
      | .s, .string value :: args => (value.bytes, args)
      | .percent, args => ([percent], args)
      | _, args => ([percent, c], args)

/-- The full expansion of a format with its arguments. -/
def formatExpansion : List FormatPiece → List Arg → List UInt8
  | [], _ => []
  | piece :: rest, args => (piece.expand args).1 ++ formatExpansion rest (piece.expand args).2

/-- What `snprintf` leaves in a buffer. -/
def truncated (buffer : List UInt8) (size : Nat) (expansion : List UInt8) : List UInt8 :=
  expansion.take (size - 1) ++ 0 :: buffer.drop (min (size - 1) expansion.length + 1)

/-- The string at the start of a buffer. -/
def content (buffer : List UInt8) : List UInt8 := buffer.takeWhile (· ≠ 0)

/-- The next argument is a word. -/
theorem matches_word {args : List Arg} {kinds : List Kind} (same : Matches args (.word :: kinds)) :
    ∃ value rest, args = .word value :: rest ∧ Matches rest kinds := by
  cases args with
  | nil => simp [Matches] at same
  | cons arg rest =>
      cases arg <;> simp [Matches, Arg.kind] at same
      exact ⟨_, rest, rfl, same⟩

/-- The next argument is a string. -/
theorem matches_string {args : List Arg} {kinds : List Kind}
    (same : Matches args (.string :: kinds)) :
    ∃ value rest, args = .string value :: rest ∧ Matches rest kinds := by
  cases args with
  | nil => simp [Matches] at same
  | cons arg rest =>
      cases arg <;> simp [Matches, Arg.kind] at same
      exact ⟨_, rest, rfl, same⟩

section Steps

variable {start : Appender} (fits : start.Fits) (chars : List UInt8) (fmt : List UInt8)
  (args : List Arg)
include fits

/-- An ordinary character is appended. -/
theorem formatLoop_plain {c : UInt8} (ordinary : c ≠ percent) (inside : c ≠ 0) :
    formatLoop (c :: fmt) args (start.after chars) =
      formatLoop fmt args (start.after (chars ++ [c])) := by
  rw [formatLoop.eq_def]
  simp only [inside, ordinary, if_false, ne_eq, not_false_eq_true, if_true, appendChar_after fits]
  rfl

/-- A `%d` appends its argument in decimal. -/
theorem formatLoop_int {c : UInt8} (int : letter c = .d) (value : BitVec 32) :
    formatLoop (percent :: c :: fmt) (.word value :: args) (start.after chars) =
      formatLoop fmt args (start.after (chars ++ signed value.toInt)) := by
  have nonzero : percent ≠ 0 := by decide
  rw [formatLoop.eq_def]
  simp only [nonzero, if_false, ne_eq, not_true_eq_false, int, takeWord]
  change appendInt value (start.after chars) >>= formatLoop fmt args = _
  rw [appendInt_after fits]
  rfl

/-- A `%s` appends its argument. -/
theorem formatLoop_string {c : UInt8} (string : letter c = .s) (value : Text) :
    formatLoop (percent :: c :: fmt) (.string value :: args) (start.after chars) =
      formatLoop fmt args (start.after (chars ++ value.bytes)) := by
  have nonzero : percent ≠ 0 := by decide
  rw [formatLoop.eq_def]
  simp only [nonzero, if_false, ne_eq, not_true_eq_false, string, takeString]
  change appendString value.terminated (start.after chars) >>= formatLoop fmt args = _
  rw [appendString_after fits]
  rfl

/-- A `%%` appends a percent sign. -/
theorem formatLoop_percent {c : UInt8} (sign : letter c = .percent) :
    formatLoop (percent :: c :: fmt) args (start.after chars) =
      formatLoop fmt args (start.after (chars ++ [percent])) := by
  have nonzero : percent ≠ 0 := by decide
  rw [formatLoop.eq_def]
  simp only [nonzero, if_false, ne_eq, not_true_eq_false, sign, appendChar_after fits]
  rfl

/-- Any other letter is appended behind its percent sign. -/
theorem formatLoop_other {c : UInt8} (d : letter c ≠ .d) (s : letter c ≠ .s)
    (sign : letter c ≠ .percent) :
    formatLoop (percent :: c :: fmt) args (start.after chars) =
      formatLoop fmt args (start.after (chars ++ [percent, c])) := by
  have nonzero : percent ≠ 0 := by decide
  have both : (chars ++ [percent]) ++ [c] = chars ++ [percent, c] := by simp
  rw [formatLoop.eq_def]
  cases other : letter c with
  | d => exact absurd other d
  | s => exact absurd other s
  | percent => exact absurd other sign
  | _ =>
      simp only [nonzero, if_false, ne_eq, not_true_eq_false, other, appendChar_after fits]
      change appendChar c (start.after (chars ++ [percent])) >>= formatLoop fmt args = _
      rw [appendChar_after fits, both]
      rfl

/-- One piece is read and its characters are appended. -/
theorem formatLoop_piece (piece : FormatPiece) {kinds : List Kind}
    (same : Matches args (piece.kinds ++ kinds)) :
    formatLoop (piece.text ++ fmt) args (start.after chars) =
        formatLoop fmt (piece.expand args).2 (start.after (chars ++ (piece.expand args).1)) ∧
      Matches (piece.expand args).2 kinds := by
  cases piece with
  | plain c ordinary inside => exact ⟨formatLoop_plain fits chars fmt args ordinary inside, same⟩
  | conversion c inside =>
      rw [FormatPiece.text, List.cons_append, List.singleton_append]
      cases kind : letter c with
      | d =>
          simp only [FormatPiece.kinds, kind, List.singleton_append] at same
          obtain ⟨value, others, rfl, later⟩ := matches_word same
          simp only [FormatPiece.expand, kind]
          exact ⟨formatLoop_int fits chars fmt others kind value, later⟩
      | s =>
          simp only [FormatPiece.kinds, kind, List.singleton_append] at same
          obtain ⟨value, others, rfl, later⟩ := matches_string same
          simp only [FormatPiece.expand, kind]
          exact ⟨formatLoop_string fits chars fmt others kind value, later⟩
      | percent =>
          simp only [FormatPiece.kinds, kind, List.nil_append] at same
          simp only [FormatPiece.expand, kind]
          exact ⟨formatLoop_percent fits chars fmt args kind, same⟩
      | _ =>
          simp only [FormatPiece.kinds, kind, List.nil_append] at same
          simp only [FormatPiece.expand, kind]
          have unknown := formatLoop_other fits chars fmt args (by rw [kind]; decide)
            (by rw [kind]; decide) (by rw [kind]; decide)
          exact ⟨unknown, same⟩

end Steps

/-- The loop of `format` appends the expansion of the pieces that it has read. -/
theorem formatLoop_expands {start : Appender} (fits : start.Fits) (chars : List UInt8)
    (pieces : List FormatPiece) (fmt : List UInt8) {kinds : List Kind} (args : List Arg)
    (same : Matches args (pieces.flatMap FormatPiece.kinds ++ kinds)) :
    ∃ others, formatLoop (pieces.flatMap FormatPiece.text ++ fmt) args (start.after chars) =
      formatLoop fmt others (start.after (chars ++ formatExpansion pieces args)) := by
  induction pieces generalizing args chars with
  | nil => exact ⟨args, by simp [formatExpansion]⟩
  | cons piece rest ih =>
      rw [List.flatMap_cons, List.append_assoc] at same
      obtain ⟨step, later⟩ := formatLoop_piece fits chars
        (rest.flatMap FormatPiece.text ++ fmt) args piece same
      obtain ⟨others, run⟩ := ih (chars ++ (piece.expand args).1) (piece.expand args).2 later
      exists others
      rw [List.flatMap_cons, List.append_assoc, step, run, formatExpansion, List.append_assoc]

/-- `format` leaves the expansion, as far as it fits, and a terminator. -/
theorem format_eq {buffer : List UInt8} {size : Nat} (positive : 0 < size)
    (within : size ≤ buffer.length) (pieces : List FormatPiece) (args : List Arg)
    (same : Matches args (pieces.flatMap FormatPiece.kinds)) :
    format buffer size (pieces.flatMap FormatPiece.text ++ [0]) args =
      .ok (truncated buffer size (formatExpansion pieces args)) := by
  have fits : Appender.Fits ⟨buffer, 0, size⟩ := by
    change 0 + size ≤ buffer.length
    omega
  rw [← List.append_nil (pieces.flatMap FormatPiece.kinds)] at same
  obtain ⟨others, run⟩ := formatLoop_expands fits [] pieces [0] args same
  rw [Appender.after_nil, List.nil_append] at run
  have ended : formatLoop [0] others (Appender.after ⟨buffer, 0, size⟩ (formatExpansion pieces args)) =
      .ok (Appender.after ⟨buffer, 0, size⟩ (formatExpansion pieces args)) := rfl
  rw [format, if_neg (by omega), run, ended]
  generalize formatExpansion pieces args = expansion
  have length : (expansion.take (size - 1)).length = min expansion.length (size - 1) := by
    rw [List.length_take, Nat.min_comm]
  have inside : min expansion.length (size - 1) < buffer.length := by omega
  have next := List.drop_eq_getElem_cons inside
  change Appender.store (Appender.after ⟨buffer, 0, size⟩ expansion) 0 = _
  simp only [Appender.store, Appender.after, Appender.kept, List.take_zero, List.nil_append,
    Nat.zero_add]
  have room : min expansion.length (size - 1) <
      (expansion.take (size - 1) ++ buffer.drop (min expansion.length (size - 1))).length := by
    rw [List.length_append, length, List.length_drop]
    omega
  rw [if_pos room, List.set_append_right _ _ (by omega), length, Nat.sub_self, next,
    List.set_cons_zero, truncated, Nat.min_comm expansion.length]

/-- A number has no zero byte. -/
theorem signed_plain (value : Int) : (0 : UInt8) ∉ signed value := by
  have digits : (0 : UInt8) ∉ decimal value.natAbs := by
    intro member
    obtain ⟨digit, inside, zero⟩ := List.mem_map.mp member
    have canonical := Numeral.digits_canonical (show 1 < 10 by decide) value.natAbs
    exact digitChar_ne_zero (canonical.bounded digit inside) zero
  have sign : (0 : UInt8) ≠ minus := by decide
  rw [signed, List.mem_append]
  split <;> simp [digits, sign]

/-- The expansion of a format holds no terminator. -/
theorem formatExpansion_plain (pieces : List FormatPiece) (args : List Arg) :
    0 ∉ formatExpansion pieces args := by
  have sign : (0 : UInt8) ≠ percent := by decide
  induction pieces generalizing args with
  | nil => simp [formatExpansion]
  | cons piece rest ih =>
      have here : 0 ∉ (piece.expand args).1 := by
        cases piece with
        | plain c ordinary inside => simpa [FormatPiece.expand] using Ne.symm inside
        | conversion c inside =>
            unfold FormatPiece.expand
            dsimp only
            split
            · exact signed_plain _
            · rename_i value _ _
              exact value.plain
            · simpa using sign
            · simpa [sign] using Ne.symm inside
      rw [formatExpansion, List.mem_append, not_or]
      exact ⟨here, ih _⟩

/-- A truncated buffer holds the front of the expansion. -/
theorem content_truncated (buffer : List UInt8) (size : Nat) {expansion : List UInt8}
    (plain : 0 ∉ expansion) : content (truncated buffer size expansion) = expansion.take (size - 1) := by
  have kept : ∀ c ∈ expansion.take (size - 1), decide (c ≠ 0) = true := by
    intro c member
    have inside := List.mem_of_mem_take member
    rw [decide_eq_true_eq]
    intro zero
    exact plain (zero ▸ inside)
  rw [content, truncated, List.takeWhile_append_of_pos kept]
  simp

/-- `format` truncates the full expansion to the size of its buffer, leaves the bytes behind the
terminator alone, and a smaller size gives a prefix of the string for a larger one. -/
theorem format_truncates {pieces : List FormatPiece} {args : List Arg}
    (same : Matches args (pieces.flatMap FormatPiece.kinds)) {buffer : List UInt8} {size : Nat}
    (positive : 0 < size) (within : size ≤ buffer.length) :
    format buffer size (pieces.flatMap FormatPiece.text ++ [0]) args =
        .ok (truncated buffer size (formatExpansion pieces args)) ∧
      ∀ larger ≥ size, ∀ other : List UInt8, larger ≤ other.length →
        ∃ result, format other larger (pieces.flatMap FormatPiece.text ++ [0]) args = .ok result ∧
          content (truncated buffer size (formatExpansion pieces args)) <+: content result := by
  constructor
  · exact format_eq positive within pieces args same
  · intro larger above other room
    have plain := formatExpansion_plain pieces args
    refine ⟨_, format_eq (by omega) room pieces args same, ?_⟩
    rw [content_truncated _ _ plain, content_truncated _ _ plain]
    apply List.take_prefix_take_left
    omega

/-- A negative number that does not fit behind a letter. -/
theorem format_truncates_cut :
    format [1, 2, 3] 3 [97, 37, 100, 0] [.word (-7)] = .ok [97, 45, 0] := by
  have same : Matches [.word (-7)]
      ([.plain 97 (by decide) (by decide), .conversion 100 (by decide)].flatMap FormatPiece.kinds) := rfl
  exact (format_truncates same (show 0 < 3 by decide) (Nat.le_refl [1, 2, 3].length)).1

end ArchaOS.Stdio
