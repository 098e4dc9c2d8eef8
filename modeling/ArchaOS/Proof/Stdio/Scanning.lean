import ArchaOS.Library.Outcome
import ArchaOS.Proof.Stdio.Format

namespace ArchaOS.Stdio

open Library

/-- The conversions of `print` that have one letter. -/
inductive Conversion where
  | d
  | u
  | n
  | s
  | x
  deriving DecidableEq, Repr

def Conversion.char : Conversion → UInt8
  | .d => 100
  | .u => 117
  | .n => 110
  | .s => 115
  | .x => 120

def Conversion.kind : Conversion → Kind
  | .d => .word
  | .u => .word
  | .n => .long
  | .s => .string
  | .x => .word

/-- A hexadecimal digit -/
def hexChar (digit : Nat) : UInt8 := UInt8.ofNat (if digit < 10 then 48 + digit else 55 + digit)

/-- A hexadecimal numeral with leading zeros. -/
def hexadecimal (count value : Nat) : List UInt8 :=
  [48, 120] ++ (List.range count).reverse.map fun i => hexChar (value / 16 ^ i % 16)

/-- The rendering of an argument. -/
def Conversion.render : Conversion → Arg → List UInt8
  | .d, .word value => signed value.toInt
  | .u, .word value => decimal value.toNat
  | .n, .long value => decimal value.toNat
  | .s, .string value => value.bytes
  | .x, .word value => hexadecimal 8 value.toNat
  | _, _ => []

/-- The rendering of an argument for `%lx` -/
def renderLong : Arg → List UInt8
  | .long value => hexadecimal 16 value.toNat
  | _ => []

/-- The pieces in which `print` consumes a format. Three of them pass over a character. -/
inductive PrintUnit where
  | plain (c : UInt8) (ordinary : c ≠ percent) (inside : c ≠ 0)
  | conversion (form : Conversion)
  | percent
  | longHex (next : UInt8) (inside : next ≠ 0)
  | long (next : UInt8) (other : letter next ≠ .x) (inside : next ≠ 0)
  | unknown (c next : UInt8) (other : letter c = .other) (known : c ≠ 0) (inside : next ≠ 0)

def PrintUnit.text : PrintUnit → List UInt8
  | .plain c _ _ => [c]
  | .conversion form => [Stdio.percent, form.char]
  | .percent => [Stdio.percent, Stdio.percent]
  | .longHex next _ => [Stdio.percent, 108, 120, next]
  | .long next _ _ => [Stdio.percent, 108, next]
  | .unknown c next _ _ _ => [Stdio.percent, c, next]

/-- The argument that a piece takes. -/
def PrintUnit.kinds : PrintUnit → List Kind
  | .conversion form => [form.kind]
  | .longHex _ _ => [.long]
  | _ => []

/-- What a piece prints. -/
def PrintUnit.output : PrintUnit → List Arg → List UInt8
  | .plain c _ _, _ => [c]
  | .conversion form, arg :: _ => form.render arg
  | .longHex _ _, arg :: _ => renderLong arg
  | .long _ _ _, _ => [Stdio.percent, 108]
  | .unknown c _ _ _ _, _ => [Stdio.percent, c]
  | _, _ => []

section Letters

/-- A conversion is recognised by its character. -/
theorem letter_char (conversion : Conversion) :
    letter conversion.char = match conversion with
      | .d => .d
      | .u => .u
      | .n => .n
      | .s => .s
      | .x => .x := by
  cases conversion <;> decide

/-- A letter stands for one character. -/
theorem char_of_letter {c : UInt8} :
    (letter c = .d → c = 100) ∧ (letter c = .u → c = 117) ∧ (letter c = .n → c = 110) ∧
      (letter c = .s → c = 115) ∧ (letter c = .x → c = 120) ∧ (letter c = .l → c = 108) ∧
      (letter c = .percent → c = percent) := by
  unfold letter
  split_ifs <;> simp_all

/-- The digits behind `0x` are the hexadecimal text. -/
theorem hexDigits_eq (count value : Nat) :
    [48, 120] ++ hexDigits count value = hexadecimal count value := by
  have char : ∀ digit < 16, hexChars.getD digit 0 = hexChar digit := by decide
  rw [hexDigits, hexadecimal]
  congr 2
  funext i
  have mask : (value >>> (i * 4)) &&& 0xF = value / 16 ^ i % 16 := by
    rw [Nat.shiftRight_eq_div_pow, Nat.mul_comm i 4, Nat.pow_mul]
    exact Nat.and_two_pow_sub_one_eq_mod _ 4
  rw [mask]
  exact char _ (Nat.mod_lt _ (by decide))

/-- A string is printed up to its zero. -/
theorem printChar_eq (text : Text) : printChar text.terminated = .ok text.bytes := by
  obtain ⟨bytes, plain⟩ := text
  change printChar (bytes ++ [0]) = .ok bytes
  induction bytes with
  | nil => rfl
  | cons c bytes ih =>
      rw [List.mem_cons, not_or] at plain
      rw [List.cons_append, printChar, if_neg (Ne.symm plain.1), ih plain.2]
      rfl

end Letters

section Steps

variable (fmt : List UInt8) (args : List Arg)

/-- An ordinary character is printed. -/
theorem printLoop_plain {c : UInt8} (ordinary : c ≠ percent) (inside : c ≠ 0) :
    printLoop (c :: fmt) args = (c :: ·) <$> printLoop fmt args := by
  rw [printLoop.eq_def]
  simp only [inside, ordinary, if_false, ne_eq, not_false_eq_true, if_true]

/-- A conversion takes the first argument, if it has the right type. -/
theorem printLoop_conversion (form : Conversion) :
    printLoop (percent :: form.char :: fmt) args =
      match args with
      | [] => .error .argument
      | arg :: rest =>
          if arg.kind = form.kind then (form.render arg ++ ·) <$> printLoop fmt rest
          else .error .argument := by
  have nonzero : percent ≠ 0 := by decide
  have inside : form.char ≠ 0 := by cases form <;> decide
  have kind := letter_char form
  rw [printLoop.eq_def]
  simp only [nonzero, inside, if_false, ne_eq, not_true_eq_false, kind]
  cases args with
  | nil => cases form <;> rfl
  | cons arg rest =>
      cases form with
      | d =>
          cases arg with
          | word value =>
              change (printInt value ++ ·) <$> printLoop fmt rest =
                (signed value.toInt ++ ·) <$> printLoop fmt rest
              rw [printInt_eq]
          | _ => rfl
      | u =>
          cases arg with
          | word value =>
              change (printUint value.toNat ++ ·) <$> printLoop fmt rest =
                (decimal value.toNat ++ ·) <$> printLoop fmt rest
              rw [printUint_eq]
          | _ => rfl
      | n =>
          cases arg with
          | long value =>
              change (printU64 value >>= fun digits => (digits ++ ·) <$> printLoop fmt rest) =
                (decimal value.toNat ++ ·) <$> printLoop fmt rest
              rw [printU64_eq]
              rfl
          | _ => rfl
      | s =>
          cases arg with
          | string value =>
              change (printChar value.terminated >>= fun chars => (chars ++ ·) <$> printLoop fmt rest) =
                (value.bytes ++ ·) <$> printLoop fmt rest
              rw [printChar_eq]
              rfl
          | _ => rfl
      | x =>
          cases arg with
          | word value =>
              change (printHex value ++ ·) <$> printLoop fmt rest =
                (hexadecimal 8 value.toNat ++ ·) <$> printLoop fmt rest
              rw [printHex, hexDigits_eq]
          | _ => rfl

/-- A `%%` prints nothing. -/
theorem printLoop_percent : printLoop (percent :: percent :: fmt) args = printLoop fmt args := by
  have nonzero : percent ≠ 0 := by decide
  have kind : letter percent = .percent := by decide
  rw [printLoop.eq_def]
  simp only [nonzero, if_false, ne_eq, not_true_eq_false, kind]

/-- `%lx` passes over the character behind it. -/
theorem printLoop_longHex (next : UInt8) :
    printLoop (percent :: 108 :: 120 :: next :: fmt) args =
      match args with
      | [] => .error .argument
      | arg :: rest =>
          if arg.kind = .long then (renderLong arg ++ ·) <$> printLoop fmt rest
          else .error .argument := by
  have nonzero : percent ≠ 0 ∧ (108 : UInt8) ≠ 0 := by decide
  have kinds : letter 108 = .l ∧ letter 120 = .x := by decide
  rw [printLoop.eq_def]
  simp only [nonzero.1, nonzero.2, if_false, ne_eq, not_true_eq_false, kinds.1, kinds.2, if_true]
  cases args with
  | nil => rfl
  | cons arg rest =>
      cases arg with
      | long value =>
          change (printU64Hex value ++ ·) <$> printLoop fmt rest =
            (hexadecimal 16 value.toNat ++ ·) <$> printLoop fmt rest
          rw [printU64Hex, hexDigits_eq]
      | _ => rfl

/-- An `l` without an `x` passes over the character behind it. -/
theorem printLoop_long {next : UInt8} (other : letter next ≠ .x) :
    printLoop (percent :: 108 :: next :: fmt) args = ([percent, 108] ++ ·) <$> printLoop fmt args := by
  have nonzero : percent ≠ 0 ∧ (108 : UInt8) ≠ 0 := by decide
  have kind : letter 108 = .l := by decide
  rw [printLoop.eq_def]
  simp only [nonzero.1, nonzero.2, if_false, ne_eq, not_true_eq_false, kind, other]

/-- An unknown conversion passes over the character behind it. -/
theorem printLoop_unknown {c : UInt8} (other : letter c = .other) (inside : c ≠ 0) (next : UInt8) :
    printLoop (percent :: c :: next :: fmt) args = ([percent, c] ++ ·) <$> printLoop fmt args := by
  have nonzero : percent ≠ 0 := by decide
  rw [printLoop.eq_def]
  simp only [nonzero, inside, if_false, ne_eq, not_true_eq_false, other]

end Steps

section Units

variable (fmt : List UInt8) (args : List Arg)

/-- One piece is consumed, if its argument is there. -/
theorem printLoop_unit (unit : PrintUnit) :
    printLoop (unit.text ++ fmt) args =
      if unit.kinds <+: args.map Arg.kind then
        (unit.output args ++ ·) <$> printLoop fmt (args.drop unit.kinds.length)
      else .error .argument := by
  cases unit with
  | plain c ordinary inside =>
      apply (printLoop_plain fmt args ordinary inside).trans
      exact (if_pos List.nil_prefix).symm
  | conversion form =>
      refine (printLoop_conversion fmt args form).trans ?_
      cases args with
      | nil => rfl
      | cons arg rest =>
          by_cases same : arg.kind = form.kind
          · rw [if_pos (by simp [PrintUnit.kinds, same])]
            exact if_pos same
          · rw [if_neg (by simp [PrintUnit.kinds, Ne.symm same])]
            exact if_neg same
  | percent =>
      apply (printLoop_percent fmt args).trans
      apply Eq.trans _ (if_pos List.nil_prefix).symm
      exact (id_map _).symm
  | longHex next inside =>
      refine (printLoop_longHex fmt args next).trans ?_
      cases args with
      | nil => rfl
      | cons arg rest =>
          by_cases same : arg.kind = .long
          · rw [if_pos (by simp [PrintUnit.kinds, same])]
            exact if_pos same
          · rw [if_neg (by simp [PrintUnit.kinds, Ne.symm same])]
            exact if_neg same
  | long next other inside =>
      apply (printLoop_long fmt args other).trans
      exact (if_pos List.nil_prefix).symm
  | unknown c next other known inside =>
      apply (printLoop_unknown fmt args other known next).trans
      exact (if_pos List.nil_prefix).symm

/-- The endings at which `print` passes over the terminator. -/
def CutOff (fmt : List UInt8) : Prop :=
  fmt = [percent, 108] ∨ fmt = [percent, 108, 120] ∨
    ∃ c, letter c = .other ∧ c ≠ 0 ∧ fmt = [percent, c]

/-- A format that is cut off does not return. -/
theorem printLoop_cutOff {fmt : List UInt8} (broken : CutOff fmt) (out : List UInt8) :
    printLoop (fmt ++ [0]) args ≠ .ok out := by
  intro printed
  rcases broken with rfl | rfl | ⟨c, other, inside, rfl⟩
  · change printLoop (percent :: 108 :: 0 :: []) args = _ at printed
    rw [printLoop_long _ _ (by decide)] at printed
    cases printed
  · change printLoop (percent :: 108 :: 120 :: 0 :: []) args = _ at printed
    rw [printLoop_longHex] at printed
    cases args with
    | nil => cases printed
    | cons arg rest =>
        dsimp only at printed
        split at printed <;> cases printed
  · change printLoop (percent :: c :: 0 :: []) args = _ at printed
    rw [printLoop_unknown _ _ other inside] at printed
    cases printed

/-- A format starts with a piece, or it is at its end. -/
theorem cut_cases {fmt : List UInt8} (plain : 0 ∉ fmt) :
    fmt = [] ∨ fmt = [percent] ∨ CutOff fmt ∨ ∃ unit rest, fmt = PrintUnit.text unit ++ rest := by
  cases fmt with
  | nil => exact Or.inl rfl
  | cons first rest =>
      apply Or.inr
      rw [List.mem_cons, not_or] at plain
      by_cases ordinary : first ≠ percent
      · exact Or.inr (Or.inr ⟨.plain first ordinary (Ne.symm plain.1), rest, rfl⟩)
      rw [not_not] at ordinary
      subst ordinary
      cases rest with
      | nil => exact Or.inl rfl
      | cons c rest =>
          have later := plain.2
          rw [List.mem_cons, not_or] at later
          have chars := @char_of_letter c
          have conversion (form : Conversion) (same : c = form.char) :
              ∃ unit rest', percent :: c :: rest = PrintUnit.text unit ++ rest' :=
            ⟨.conversion form, rest, by rw [same]; rfl⟩
          apply Or.inr
          cases kind : letter c with
          | d => exact Or.inr (conversion .d (chars.1 kind))
          | u => exact Or.inr (conversion .u (chars.2.1 kind))
          | n => exact Or.inr (conversion .n (chars.2.2.1 kind))
          | s => exact Or.inr (conversion .s (chars.2.2.2.1 kind))
          | x => exact Or.inr (conversion .x (chars.2.2.2.2.1 kind))
          | percent =>
              have same := chars.2.2.2.2.2.2 kind
              exact Or.inr ⟨.percent, rest, by rw [same]; rfl⟩
          | other =>
              cases rest with
              | nil => exact Or.inl (Or.inr (Or.inr ⟨c, kind, Ne.symm later.1, rfl⟩))
              | cons next rest =>
                  rw [List.mem_cons, not_or] at later
                  exact Or.inr
                    ⟨.unknown c next kind (Ne.symm later.1) (Ne.symm later.2.1), rest, rfl⟩
          | l =>
              have same := chars.2.2.2.2.2.1 kind
              subst same
              cases rest with
              | nil => exact Or.inl (Or.inl rfl)
              | cons next rest =>
                  rw [List.mem_cons, not_or] at later
                  by_cases hex : letter next = .x
                  · have letterX := (@char_of_letter next).2.2.2.2.1 hex
                    subst letterX
                    cases rest with
                    | nil => exact Or.inl (Or.inr (Or.inl rfl))
                    | cons behind rest =>
                        have last := later.2.2
                        rw [List.mem_cons, not_or] at last
                        exact Or.inr ⟨.longHex behind (Ne.symm last.1), rest, rfl⟩
                  · exact Or.inr ⟨.long next hex (Ne.symm later.2.1), rest, rfl⟩

end Units

section Runs

/-- A mapped outcome returns exactly when the outcome does. -/
theorem mapped_ok_iff {Value Result : Type} (f : Value → Result) (outcome : Outcome Value) :
    (∃ out, f <$> outcome = .ok out) ↔ ∃ out, outcome = .ok out := by
  constructor
  · rintro ⟨out, mapped⟩
    obtain ⟨value, run, _⟩ := map_eq_ok.mp mapped
    exact ⟨value, run⟩
  · rintro ⟨value, run⟩
    exact ⟨f value, map_eq_ok.mpr ⟨value, run, rfl⟩⟩

/-- A prefix is split into its two parts. -/
theorem append_prefix_iff {Element : Type} (first second list : List Element) :
    first ++ second <+: list ↔ first <+: list ∧ second <+: list.drop first.length := by
  constructor
  · rintro ⟨tail, rfl⟩
    rw [List.append_assoc, List.drop_left]
    exact ⟨List.prefix_append _ _, List.prefix_append _ _⟩
  · rintro ⟨⟨tail, rfl⟩, behind⟩
    rw [List.drop_left] at behind
    exact (List.prefix_append_right_inj first).mpr behind

/-- `print` reads a format to its terminator: the format is cut into pieces, a last `%` may stand
behind them, and the arguments of the pieces are there. -/
def PrintReads (fmt : List UInt8) (kinds : List Kind) : Prop :=
  ∃ units : List PrintUnit,
    (fmt = units.flatMap PrintUnit.text ∨ fmt = units.flatMap PrintUnit.text ++ [percent]) ∧
      units.flatMap PrintUnit.kinds <+: kinds

/-- Every unit has text. -/
theorem text_ne_nil (unit : PrintUnit) : 0 < unit.text.length := by
  cases unit <;> exact Nat.succ_pos _

/-- A format that returns is read in units that match the arguments. -/
theorem printReads_of_ok {fmt : List UInt8} (plain : 0 ∉ fmt) {args : List Arg}
    (printed : ∃ out, printLoop (fmt ++ [0]) args = .ok out) :
    PrintReads fmt (args.map Arg.kind) := by
  induction length : fmt.length using Nat.strong_induction_on generalizing fmt args with
  | _ count ih =>
    subst length
    rcases cut_cases plain with rfl | rfl | broken | ⟨unit, rest, rfl⟩
    · exact ⟨[], Or.inl rfl, List.nil_prefix⟩
    · exact ⟨[], Or.inr rfl, List.nil_prefix⟩
    · obtain ⟨out, printed⟩ := printed
      exact absurd printed (printLoop_cutOff args broken out)
    · rw [List.append_assoc, printLoop_unit] at printed
      split at printed
      · rename_i here
        rw [mapped_ok_iff] at printed
        have shorter : rest.length < (unit.text ++ rest).length := by
          rw [List.length_append]
          exact Nat.lt_add_of_pos_left (text_ne_nil unit)
        have later : 0 ∉ rest := fun inside => plain (List.mem_append_right _ inside)
        obtain ⟨units, cut, kinds⟩ := ih _ shorter later printed rfl
        refine ⟨unit :: units, ?_, ?_⟩
        · rw [List.flatMap_cons, List.append_assoc]
          exact cut.imp (congrArg _) (congrArg _)
        · rw [List.flatMap_cons, append_prefix_iff]
          rw [List.map_drop] at kinds
          exact ⟨here, kinds⟩
      · obtain ⟨out, wrong⟩ := printed
        cases wrong

/-- A format that is read in units that match the arguments returns. -/
theorem ok_of_printReads {fmt : List UInt8} {args : List Arg}
    (cut : PrintReads fmt (args.map Arg.kind)) : ∃ out, printLoop (fmt ++ [0]) args = .ok out := by
  obtain ⟨units, cut, kinds⟩ := cut
  induction units generalizing fmt args with
  | nil =>
      rcases cut with rfl | rfl
      · exact ⟨[], rfl⟩
      · exact ⟨[], rfl⟩
  | cons unit units ih =>
      rw [List.flatMap_cons, append_prefix_iff, ← List.map_drop] at kinds
      rw [List.flatMap_cons, List.append_assoc] at cut
      have split : ∃ rest, fmt = unit.text ++ rest ∧
          (rest = units.flatMap PrintUnit.text ∨
            rest = units.flatMap PrintUnit.text ++ [percent]) := by
        rcases cut with whole | short
        · exact ⟨_, whole, Or.inl rfl⟩
        · exact ⟨_, short, Or.inr rfl⟩
      obtain ⟨rest, rfl, later⟩ := split
      rw [List.append_assoc, printLoop_unit, if_pos kinds.1, mapped_ok_iff]
      exact ih later kinds.2

/-- The runs of `print` that stay within a format. -/
theorem printLoop_ok_iff {fmt : List UInt8} (plain : 0 ∉ fmt) (args : List Arg) :
    (∃ out, printLoop (fmt ++ [0]) args = .ok out) ↔ PrintReads fmt (args.map Arg.kind) :=
  ⟨printReads_of_ok plain, ok_of_printReads⟩

end Runs

section Appending

/-- `format` reads a format to its terminator. -/
def FormatReads (fmt : List UInt8) : Prop :=
  ∃ pieces : List FormatPiece, fmt = pieces.flatMap FormatPiece.text

/-- Every format is made of pieces, with a percent sign at most behind them. -/
theorem format_cut_cases {fmt : List UInt8} (plain : 0 ∉ fmt) :
    ∃ pieces : List FormatPiece,
      fmt = pieces.flatMap FormatPiece.text ∨ fmt = pieces.flatMap FormatPiece.text ++ [percent] := by
  induction length : fmt.length using Nat.strong_induction_on generalizing fmt with
  | _ count ih =>
    subst length
    have extended (piece : FormatPiece) {rest : List UInt8}
        (later : 0 ∉ rest) (shorter : rest.length < fmt.length) (split : fmt = piece.text ++ rest) :
        ∃ pieces : List FormatPiece, fmt = pieces.flatMap FormatPiece.text ∨
          fmt = pieces.flatMap FormatPiece.text ++ [percent] := by
      obtain ⟨pieces, cut⟩ := ih _ shorter later rfl
      exists piece :: pieces
      rw [split, List.flatMap_cons, List.append_assoc]
      exact cut.imp (congrArg _) (congrArg _)
    cases fmt with
    | nil => exact ⟨[], Or.inl rfl⟩
    | cons first rest =>
        rw [List.mem_cons, not_or] at plain
        by_cases ordinary : first ≠ percent
        · exact extended (.plain first ordinary (Ne.symm plain.1)) plain.2 (Nat.lt_succ_self _) rfl
        rw [not_not] at ordinary
        subst ordinary
        cases rest with
        | nil => exact ⟨[], Or.inr rfl⟩
        | cons c rest =>
            have later := plain.2
            rw [List.mem_cons, not_or] at later
            exact extended (.conversion c (Ne.symm later.1)) later.2
              (Nat.lt_succ_of_lt (Nat.lt_succ_self _)) rfl

/-- A `%` behind complete pieces is not part of one. -/
theorem pieces_percent (pieces others : List FormatPiece) :
    pieces.flatMap FormatPiece.text ++ [percent] ≠ others.flatMap FormatPiece.text := by
  induction pieces generalizing others with
  | nil =>
      cases others with
      | nil => exact List.cons_ne_nil _ _
      | cons other others =>
          intro same
          cases other with
          | plain c ordinary inside => exact ordinary (List.cons.inj same).1.symm
          | conversion c inside => exact List.cons_ne_nil _ _ (List.cons.inj same).2.symm
  | cons piece pieces ih =>
      cases others with
      | nil => cases piece <;> exact List.cons_ne_nil _ _
      | cons other others =>
          intro same
          apply ih others
          rw [List.flatMap_cons, List.flatMap_cons, List.append_assoc] at same
          cases piece with
          | plain c ordinary inside =>
              cases other with
              | plain d _ _ => exact (List.cons.inj same).2
              | conversion d _ => exact absurd (List.cons.inj same).1 ordinary
          | conversion c inside =>
              cases other with
              | plain d ordinary _ => exact absurd (List.cons.inj same).1.symm ordinary
              | conversion d _ => exact (List.cons.inj (List.cons.inj same).2).2

/-- The arguments that the conversions of a format take in `format`. -/
def formatKinds : List UInt8 → List Kind
  | [] => []
  | c :: fmt =>
      if c ≠ percent then formatKinds fmt
      else
        match fmt with
        | [] => []
        | c :: fmt =>
            match letter c with
            | .d => .word :: formatKinds fmt
            | .s => .string :: formatKinds fmt
            | _ => formatKinds fmt

/-- A piece asks for its arguments first. -/
theorem formatKinds_piece (piece : FormatPiece) (fmt : List UInt8) :
    formatKinds (piece.text ++ fmt) = piece.kinds ++ formatKinds fmt := by
  cases piece with
  | plain c ordinary inside =>
      change formatKinds (c :: fmt) = _
      rw [formatKinds.eq_def]
      exact if_pos ordinary
  | conversion c inside =>
      change formatKinds (percent :: c :: fmt) = _
      rw [formatKinds.eq_def]
      simp only [ne_eq, not_true_eq_false, if_false, FormatPiece.kinds]
      cases letter c <;> rfl

/-- Pieces ask for their arguments in turn. -/
theorem formatKinds_pieces (pieces : List FormatPiece) (fmt : List UInt8) :
    formatKinds (pieces.flatMap FormatPiece.text ++ fmt) =
      pieces.flatMap FormatPiece.kinds ++ formatKinds fmt := by
  induction pieces with
  | nil => rfl
  | cons piece rest ih =>
      rw [List.flatMap_cons, List.append_assoc, formatKinds_piece, ih, List.flatMap_cons,
        List.append_assoc]

end Appending

section Terminator

/-- A `%` at the end makes `format` pass over the terminator. -/
theorem format_ok_iff {fmt : List UInt8} (plain : 0 ∉ fmt) {args : List Arg}
    (same : Matches args (formatKinds fmt)) {buffer : List UInt8} {size : Nat}
    (within : size ≤ buffer.length) :
    (∃ out, format buffer size (fmt ++ [0]) args = .ok out) ↔ size = 0 ∨ FormatReads fmt := by
  by_cases empty : size = 0
  · exact iff_of_true ⟨buffer, if_pos empty⟩ (Or.inl empty)
  have positive : 0 < size := Nat.pos_of_ne_zero empty
  obtain ⟨pieces, rfl | rfl⟩ := format_cut_cases plain
  · have whole := formatKinds_pieces pieces []
    rw [List.append_nil] at whole
    rw [whole, formatKinds, List.append_nil] at same
    exact iff_of_true ⟨_, format_eq positive within pieces args same⟩ (Or.inr ⟨pieces, rfl⟩)
  · rw [formatKinds_pieces] at same
    have fits : Appender.Fits ⟨buffer, 0, size⟩ := by
      change 0 + size ≤ buffer.length
      omega
    obtain ⟨others, run⟩ := formatLoop_expands fits [] pieces ([percent] ++ [0]) args same
    rw [Appender.after_nil, ← List.append_assoc] at run
    apply iff_of_false
    · rintro ⟨out, formatted⟩
      have nonzero : percent ≠ 0 := by decide
      have kind : letter 0 = .other := by decide
      rw [format, if_neg empty, run, List.singleton_append, formatLoop.eq_def] at formatted
      simp only [nonzero, if_false, ne_eq, not_true_eq_false, kind, appendChar_after fits] at formatted
      change (appendChar 0 _ >>= fun appender => formatLoop [] others appender) >>= _ = _ at formatted
      rw [appendChar_after fits] at formatted
      cases formatted
    · rintro (zero | ⟨others, cut⟩)
      · exact empty zero
      · exact pieces_percent pieces others cut

/-- The arguments that the conversions of a format take in `print`. -/
def printKinds : List UInt8 → List Kind
  | [] => []
  | c :: fmt =>
      if c ≠ percent then printKinds fmt
      else
        match fmt with
        | [] => []
        | c :: fmt =>
            match letter c with
            | .d => .word :: printKinds fmt
            | .u => .word :: printKinds fmt
            | .n => .long :: printKinds fmt
            | .s => .string :: printKinds fmt
            | .x => .word :: printKinds fmt
            -- The `x` of `%lx` is read once more, as a character that takes no argument.
            | .l =>
                if letter (fmt.headD 0) = .x then .long :: printKinds fmt else printKinds fmt
            | _ => printKinds fmt

/-- `print` and `format` read a format up to its terminator, and return. -/
def StopsAtTerminator (framebuffer : Option Terminal.Framebuffer) (fmt : Text)
    (printArgs : List Arg) (buffer : List UInt8) (size : Nat) (formatArgs : List Arg) : Prop :=
  (∃ out, print framebuffer fmt.terminated printArgs = .ok out) ∧
    ∃ out, format buffer size fmt.terminated formatArgs = .ok out

/-- `print` stops at the terminator if there is no framebuffer, or if it cuts the format into its
pieces without a rest; `format` stops if its buffer is empty or no `%` stands at the end. -/
theorem stopsAtTerminator_iff (framebuffer : Option Terminal.Framebuffer) (fmt : Text)
    {printArgs formatArgs : List Arg} (printed : Matches printArgs (printKinds fmt.bytes))
    (formatted : Matches formatArgs (formatKinds fmt.bytes)) {buffer : List UInt8} {size : Nat}
    (within : size ≤ buffer.length) :
    StopsAtTerminator framebuffer fmt printArgs buffer size formatArgs ↔
      (framebuffer = none ∨ PrintReads fmt.bytes (printKinds fmt.bytes)) ∧
        (size = 0 ∨ FormatReads fmt.bytes) := by
  apply and_congr
  · cases framebuffer with
    | none => exact iff_of_true ⟨[], rfl⟩ (Or.inl rfl)
    | some framebuffer =>
        have loop := printLoop_ok_iff fmt.plain printArgs
        rw [printed] at loop
        apply loop.trans
        simp
  · exact format_ok_iff fmt.plain formatted within

/-- `%lx` at the end makes `print` pass over the terminator. -/
theorem stopsAtTerminator_fails :
    ∃ (framebuffer : Terminal.Framebuffer) (fmt : Text),
      fmt.bytes = [37, 108, 120] ∧ Matches [.long 5] (printKinds fmt.bytes) ∧
        Matches [] (formatKinds fmt.bytes) ∧
        print (some framebuffer) fmt.terminated [.long 5] = .error .outside ∧
        ¬ StopsAtTerminator (some framebuffer) fmt [.long 5] [7, 7] 2 [] := by
  exists ⟨0, 0, 0, Nat.le_refl 0, Nat.zero_le _⟩, ⟨[37, 108, 120], by decide⟩
  have outside : printLoop [37, 108, 120, 0] [.long 5] = .error .outside := rfl
  refine ⟨rfl, rfl, rfl, outside, ?_⟩
  rintro ⟨⟨out, printed⟩, _⟩
  cases outside.symm.trans printed

/-- Both functions read a format with a conversion and `%%` to its end. -/
theorem stopsAtTerminator_middle :
    StopsAtTerminator (some ⟨0, 0, 0, Nat.le_refl 0, Nat.zero_le _⟩) ⟨[37, 100, 37, 37], by decide⟩
      [.word 3] [7, 7] 2 [.word 3] := by
  have printKind : Matches [.word 3] (printKinds [37, 100, 37, 37]) := rfl
  have formatKind : Matches [.word 3] (formatKinds [37, 100, 37, 37]) := rfl
  have printed : PrintReads [37, 100, 37, 37] (printKinds [37, 100, 37, 37]) :=
    ⟨[.conversion .d, .percent], Or.inl rfl, List.prefix_rfl⟩
  have formatted : FormatReads [37, 100, 37, 37] :=
    ⟨[.conversion 100 (by decide), .conversion 37 (by decide)], rfl⟩
  exact (stopsAtTerminator_iff _ ⟨[37, 100, 37, 37], by decide⟩ printKind formatKind
    (Nat.le_refl [7, 7].length)).mpr ⟨Or.inr printed, Or.inr formatted⟩

end Terminator

end ArchaOS.Stdio
