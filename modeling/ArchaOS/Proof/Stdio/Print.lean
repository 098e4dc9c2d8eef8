import ArchaOS.Proof.Stdio.Scanning

namespace ArchaOS.Stdio

open Library

/-- A format in which each `%` starts a conversion, for `print`. -/
inductive PrintPiece where
  | plain (c : UInt8) (ordinary : c ≠ percent) (inside : c ≠ 0)
  | conversion (form : Conversion)
  | longHex
  | percent

def PrintPiece.text : PrintPiece → List UInt8
  | .plain c _ _ => [c]
  | .conversion form => [Stdio.percent, form.char]
  | .longHex => [Stdio.percent, 108, 120]
  | .percent => [Stdio.percent, Stdio.percent]

/-- The argument that a conversion takes. -/
def PrintPiece.kinds : PrintPiece → List Kind
  | .conversion form => [form.kind]
  | .longHex => [.long]
  | _ => []

/-- The characters that a piece stands for -/
def PrintPiece.expand : PrintPiece → List Arg → List UInt8
  | .plain c _ _, _ => [c]
  | .conversion form, arg :: _ => form.render arg
  | .longHex, arg :: _ => renderLong arg
  | .percent, _ => [Stdio.percent]
  | _, [] => []

/-- The characters that a format stands for, with its arguments. -/
def printExpansion : List PrintPiece → List Arg → List UInt8
  | [], _ => []
  | piece :: rest, args => piece.expand args ++ printExpansion rest (args.drop piece.kinds.length)

def printText (pieces : List PrintPiece) : List UInt8 := pieces.flatMap PrintPiece.text

def printPieceKinds (pieces : List PrintPiece) : List Kind := pieces.flatMap PrintPiece.kinds

/-- `print` sends the expansion to `Putchar`, for all arguments that fit the format. -/
def PrintsExpansion (framebuffer : Option Terminal.Framebuffer) (pieces : List PrintPiece) : Prop :=
  ∀ args, Matches args (printPieceKinds pieces) →
    print framebuffer (printText pieces ++ [0]) args = .ok (printExpansion pieces args)

/-- The pieces that `print` renders without passing over a character. -/
def PrintPiece.Exact : PrintPiece → Prop
  | .plain _ _ _ => True
  | .conversion _ => True
  | .longHex => False
  | .percent => False

section Expansion

/-- A format has no zero byte. -/
theorem printText_plain (pieces : List PrintPiece) : 0 ∉ printText pieces := by
  have sign : (0 : UInt8) ≠ percent ∧ (0 : UInt8) ≠ 108 ∧ (0 : UInt8) ≠ 120 := by decide
  intro member
  obtain ⟨piece, _, inside⟩ := List.mem_flatMap.mp member
  cases piece with
  | plain c ordinary nonzero => exact nonzero (List.mem_singleton.mp inside).symm
  | conversion form => cases form <;> simp [PrintPiece.text, Conversion.char, sign] at inside
  | longHex => simp [PrintPiece.text, sign] at inside
  | percent => simp [PrintPiece.text, sign] at inside

/-- One exact piece is printed. -/
theorem printLoop_exact {piece : PrintPiece} (exact : piece.Exact) (fmt : List UInt8)
    {args : List Arg} (there : piece.kinds <+: args.map Arg.kind) :
    printLoop (piece.text ++ fmt) args =
      (piece.expand args ++ ·) <$> printLoop fmt (args.drop piece.kinds.length) := by
  cases piece with
  | plain c ordinary inside => exact printLoop_plain fmt args ordinary inside
  | conversion form =>
      apply (printLoop_unit fmt args (.conversion form)).trans
      apply (if_pos there).trans
      cases args with
      | nil => exact absurd there (by simp [PrintPiece.kinds])
      | cons arg rest => rfl
  | longHex => exact exact.elim
  | percent => exact exact.elim

/-- Exact pieces expand to what they mean, and the rest follows. -/
theorem printLoop_expands {pieces : List PrintPiece} (exact : ∀ piece ∈ pieces, piece.Exact)
    (fmt : List UInt8) {args : List Arg} (there : printPieceKinds pieces <+: args.map Arg.kind) :
    printLoop (printText pieces ++ fmt) args =
      (printExpansion pieces args ++ ·) <$>
        printLoop fmt (args.drop (printPieceKinds pieces).length) := by
  induction pieces generalizing args with
  | nil => exact (id_map _).symm
  | cons piece rest ih =>
      rw [List.forall_mem_cons] at exact
      rw [printPieceKinds, List.flatMap_cons, append_prefix_iff, ← List.map_drop] at there
      have step := printLoop_exact exact.1 (printText rest ++ fmt) there.1
      rw [ih exact.2 there.2] at step
      rw [printText, List.flatMap_cons, List.append_assoc, printPieceKinds, List.flatMap_cons,
        List.length_append, ← List.drop_drop, printExpansion]
      apply step.trans
      rw [← comp_map]
      congr 1
      funext out
      exact (List.append_assoc _ _ _).symm

/-- Exact pieces print their expansion. -/
theorem printsExpansion_of_exact (framebuffer : Terminal.Framebuffer) {pieces : List PrintPiece}
    (exact : ∀ piece ∈ pieces, piece.Exact) : PrintsExpansion (some framebuffer) pieces := by
  intro args same
  have there : printPieceKinds pieces <+: args.map Arg.kind := by
    rw [same]
  apply (printLoop_expands exact [0] there).trans
  change Except.ok (printExpansion pieces args ++ []) = _
  rw [List.append_nil]

/-- The expansion of a concatenation -/
theorem printExpansion_append (first second : List PrintPiece) (args more : List Arg)
    (same : Matches args (printPieceKinds first)) :
    printExpansion (first ++ second) (args ++ more) =
      printExpansion first args ++ printExpansion second more := by
  induction first generalizing args with
  | nil =>
      have none : args = [] := List.map_eq_nil_iff.mp same
      rw [none]
      rfl
  | cons piece rest ih =>
      rw [printPieceKinds, List.flatMap_cons] at same
      have count := congrArg List.length same
      rw [List.length_map, List.length_append] at count
      have later : Matches (args.drop piece.kinds.length) (printPieceKinds rest) := by
        have dropped := congrArg (List.drop piece.kinds.length) same
        rw [List.drop_left, ← List.map_drop] at dropped
        exact dropped
      have here : piece.expand (args ++ more) = piece.expand args := by
        cases args with
        | cons arg args => cases piece <;> rfl
        | nil =>
            cases piece with
            | plain c ordinary inside => rfl
            | percent => rfl
            | conversion form => cases same
            | longHex => cases same
      rw [List.cons_append, printExpansion, printExpansion, here,
        List.drop_append_of_le_length (by omega), ih _ later, List.append_assoc]

end Expansion

section Samples

/-- An argument whose renderings are long and start with a digit. -/
def sample : Kind → Arg
  | .word => .word 1000000000
  | .long => .long 100000000000000000
  | .string => .string ⟨[48, 48], by decide⟩

/-- The characters of a rendering beyond the two of a conversion. -/
def spare : Kind → Nat
  | .word => 8
  | .long => 16
  | .string => 0

/-- A sample has its kind. -/
theorem sample_kind (kind : Kind) : (sample kind).kind = kind := by
  cases kind <;> rfl

/-- The sample of a word has ten digits. -/
theorem decimal_sample : decimal 1000000000 = 49 :: List.replicate 9 48 := by
  norm_num [decimal, Numeral.digits]
  decide

/-- The sample of a long has eighteen digits. -/
theorem decimal_sample_long : decimal 100000000000000000 = 49 :: List.replicate 17 48 := by
  norm_num [decimal, Numeral.digits]
  decide

/-- A sample is rendered as a digit and as much as its kind spares. -/
theorem sample_render (form : Conversion) :
    ∃ digit rest, form.render (sample form.kind) = digit :: rest ∧
      rest.length = spare form.kind + 1 ∧ letter digit = .other := by
  cases form with
  | d => exact ⟨49, List.replicate 9 48, decimal_sample, rfl, by decide⟩
  | u => exact ⟨49, List.replicate 9 48, decimal_sample, rfl, by decide⟩
  | n => exact ⟨49, List.replicate 17 48, decimal_sample_long, rfl, by decide⟩
  | s => exact ⟨48, [48], rfl, rfl, by decide⟩
  | x => exact ⟨48, _, rfl, by simp [spare, Conversion.kind], by decide⟩

/-- The length of a rendered sample. -/
theorem sample_length (form : Conversion) :
    (form.render (sample form.kind)).length = spare form.kind + 2 := by
  obtain ⟨digit, rest, rendered, count, _⟩ := sample_render form
  rw [rendered, List.length_cons, count]

/-- The length of a long sample in hexadecimal. -/
theorem sample_longHex_length : (renderLong (sample .long)).length = spare .long + 2 := by
  simp [renderLong, sample, hexadecimal, spare]

end Samples

section Worth

/-- The characters that a format stands for, when each conversion stands for two. -/
def worth : List UInt8 → Nat
  | [] => 0
  | c :: fmt =>
      if c ≠ percent then worth fmt + 1
      else
        match fmt with
        | [] => 0
        | c :: fmt =>
            if c = percent ∨ (c = 108 ∧ fmt.head? = some 120) then worth fmt + 1 else worth fmt + 2

/-- An ordinary character is worth one. -/
theorem worth_plain {c : UInt8} (ordinary : c ≠ percent) (fmt : List UInt8) :
    worth (c :: fmt) = worth fmt + 1 := by
  rw [worth.eq_def]
  exact if_pos ordinary

/-- A `%%` is worth one. -/
theorem worth_percent (fmt : List UInt8) : worth (percent :: percent :: fmt) = worth fmt + 1 := by
  rw [worth.eq_def]
  simp

/-- A `%lx` is worth two. -/
theorem worth_longHex (fmt : List UInt8) :
    worth (percent :: 108 :: 120 :: fmt) = worth fmt + 2 := by
  have ordinary : (120 : UInt8) ≠ percent := by decide
  rw [worth.eq_def]
  simp [worth_plain ordinary]

/-- Any other conversion is worth two. -/
theorem worth_conversion {c : UInt8} (sign : c ≠ percent) {fmt : List UInt8}
    (short : c ≠ 108 ∨ fmt.head? ≠ some 120) : worth (percent :: c :: fmt) = worth fmt + 2 := by
  have two : ¬ (c = percent ∨ (c = 108 ∧ fmt.head? = some 120)) := by
    rintro (same | long)
    · exact sign same
    · exact short.elim (· long.1) (· long.2)
  rw [worth.eq_def]
  simp only [ne_eq, not_true_eq_false, if_false, two]

/-- The conversion of a letter is worth two. -/
theorem worth_form (form : Conversion) (fmt : List UInt8) :
    worth (percent :: form.char :: fmt) = worth fmt + 2 := by
  have sign : form.char ≠ percent ∧ form.char ≠ 108 := by cases form <;> decide
  exact worth_conversion sign.1 (Or.inl sign.2)

/-- A character more is not worth less, and a `%` is worth at most one. -/
theorem worth_cons (fmt : List UInt8) :
    (∀ c, worth fmt ≤ worth (c :: fmt)) ∧ worth (percent :: fmt) ≤ worth fmt + 1 := by
  induction fmt with
  | nil => exact ⟨fun _ => Nat.zero_le _, Nat.zero_le _⟩
  | cons d fmt ih =>
      have both : worth (d :: fmt) ≤ worth (percent :: d :: fmt) ∧
          worth (percent :: d :: fmt) ≤ worth (d :: fmt) + 1 := by
        by_cases sign : d = percent
        · subst sign
          rw [worth_percent]
          exact ⟨ih.2, Nat.succ_le_succ (ih.1 _)⟩
        · rw [worth_plain sign, worth.eq_def (percent :: d :: fmt)]
          dsimp only
          rw [if_neg (not_not.mpr rfl)]
          split <;> omega
      constructor
      · intro c
        by_cases sign : c = percent
        · rw [sign]
          exact both.1
        · rw [worth_plain sign]
          exact Nat.le_succ _
      · exact both.2

/-- What a piece of the scanner prints is within the worth that it takes off. -/
theorem unit_length (unit : PrintUnit) (fmt : List UInt8) (kinds : List Kind) :
    (unit.output ((unit.kinds ++ kinds).map sample)).length + worth fmt ≤
      worth (unit.text ++ fmt) + (unit.kinds.map spare).sum := by
  cases unit with
  | plain c ordinary inside =>
      change 1 + worth fmt ≤ worth (c :: fmt) + 0
      rw [worth_plain ordinary]
      omega
  | conversion form =>
      change (form.render (sample form.kind)).length + worth fmt ≤
        worth (percent :: form.char :: fmt) + (spare form.kind + 0)
      rw [sample_length, worth_form]
      omega
  | percent =>
      change 0 + worth fmt ≤ worth (percent :: percent :: fmt) + 0
      rw [worth_percent]
      omega
  | longHex next inside =>
      have more := (worth_cons fmt).1 next
      change (renderLong (sample .long)).length + worth fmt ≤
        worth (percent :: 108 :: 120 :: next :: fmt) + (spare .long + 0)
      rw [sample_longHex_length, worth_longHex]
      omega
  | long next other inside =>
      have more := (worth_cons fmt).1 next
      have short : (next :: fmt).head? ≠ some 120 := by
        intro same
        rw [Option.some.inj same] at other
        exact other rfl
      change 2 + worth fmt ≤ worth (percent :: 108 :: next :: fmt) + 0
      rw [worth_conversion (by decide) (Or.inr short)]
      omega
  | unknown c next other known inside =>
      have more := (worth_cons fmt).1 next
      have sign : c ≠ percent ∧ c ≠ 108 := by
        constructor
        · rintro rfl
          cases other
        · rintro rfl
          cases other
      change 2 + worth fmt ≤ worth (percent :: c :: next :: fmt) + 0
      rw [worth_conversion sign.1 (Or.inl sign.2)]
      omega

/-- `print` does not print more than the worth of its format. -/
theorem printLoop_length {fmt : List UInt8} (plain : 0 ∉ fmt) (kinds : List Kind)
    {out : List UInt8} (printed : printLoop (fmt ++ [0]) (kinds.map sample) = .ok out) :
    out.length ≤ worth fmt + (kinds.map spare).sum := by
  induction length : fmt.length using Nat.strong_induction_on generalizing fmt kinds out with
  | _ count ih =>
    subst length
    rcases cut_cases plain with rfl | rfl | broken | ⟨unit, rest, rfl⟩
    · cases printed
      exact Nat.zero_le _
    · cases printed
      exact Nat.zero_le _
    · exact absurd printed (printLoop_cutOff _ broken out)
    · rw [List.append_assoc, printLoop_unit] at printed
      split at printed
      · rename_i there
        have kindsOf : (kinds.map sample).map Arg.kind = kinds := by
          rw [List.map_map]
          exact (List.map_congr_left fun kind _ => sample_kind kind).trans (List.map_id _)
        rw [kindsOf] at there
        obtain ⟨later, rfl⟩ := there
        rw [← List.map_drop, List.drop_left] at printed
        have shorter : rest.length < (unit.text ++ rest).length := by
          rw [List.length_append]
          exact Nat.lt_add_of_pos_left (text_ne_nil unit)
        have behind : 0 ∉ rest := fun inside => plain (List.mem_append_right _ inside)
        obtain ⟨more, run, rfl⟩ := map_eq_ok.mp printed
        have bound := ih _ shorter behind later run rfl
        have here := unit_length unit rest later
        have total : ((unit.kinds ++ later).map spare).sum =
            (unit.kinds.map spare).sum + (later.map spare).sum := by
          rw [List.map_append, List.sum_append]
        rw [List.length_append, total]
        omega
      · cases printed

/-- The sample arguments of a format -/
def samples (pieces : List PrintPiece) : List Arg := (printPieceKinds pieces).map sample

theorem samples_cons (piece : PrintPiece) (rest : List PrintPiece) :
    samples (piece :: rest) = (piece.kinds ++ printPieceKinds rest).map sample := rfl

/-- The samples of the rest stand behind those of a piece. -/
theorem samples_drop (piece : PrintPiece) (rest : List PrintPiece) :
    (samples (piece :: rest)).drop piece.kinds.length = samples rest := by
  rw [samples_cons, ← List.map_drop, List.drop_left]
  rfl

/-- The samples match the pieces. -/
theorem samples_match (pieces : List PrintPiece) : Matches (samples pieces) (printPieceKinds pieces) := by
  rw [Matches, samples, List.map_map]
  exact (List.map_congr_left fun kind _ => sample_kind kind).trans (List.map_id _)

/-- The expansion has the whole worth of the format. -/
theorem expansion_length (pieces : List PrintPiece) :
    (printExpansion pieces (samples pieces)).length =
      worth (printText pieces) + ((printPieceKinds pieces).map spare).sum := by
  induction pieces with
  | nil => rfl
  | cons piece rest ih =>
      have here : (piece.expand (samples (piece :: rest))).length + worth (printText rest) =
          worth (piece.text ++ printText rest) + (piece.kinds.map spare).sum := by
        cases piece with
        | plain c ordinary inside =>
            change 1 + worth (printText rest) = worth (c :: printText rest) + 0
            rw [worth_plain ordinary]
            omega
        | conversion form =>
            change (form.render (sample form.kind)).length + worth (printText rest) =
              worth (percent :: form.char :: printText rest) + (spare form.kind + 0)
            rw [sample_length, worth_form]
            omega
        | longHex =>
            change (renderLong (sample .long)).length + worth (printText rest) =
              worth (percent :: 108 :: 120 :: printText rest) + (spare .long + 0)
            rw [sample_longHex_length, worth_longHex]
            omega
        | percent =>
            change 1 + worth (printText rest) = worth (percent :: percent :: printText rest) + 0
            rw [worth_percent]
            omega
      change (printExpansion (piece :: rest) (samples (piece :: rest))).length =
        worth (piece.text ++ printText rest) +
          ((piece.kinds ++ printPieceKinds rest).map spare).sum
      rw [printExpansion, List.length_append, samples_drop, ih, List.map_append, List.sum_append]
      omega

end Worth

section Defects

/-- An ordinary character is printed first. -/
theorem printed_plain {c : UInt8} (ordinary : c ≠ percent) (inside : c ≠ 0) {fmt : List UInt8}
    {args : List Arg} {out : List UInt8} (printed : printLoop (c :: fmt) args = .ok out) :
    ∃ rest, out = c :: rest := by
  rw [printLoop_plain _ _ ordinary inside] at printed
  obtain ⟨more, _, same⟩ := map_eq_ok.mp printed
  exact ⟨more, same.symm⟩

/-- A conversion with a sample argument prints a digit first. -/
theorem printed_digit (form : Conversion) (fmt : List UInt8) (kinds : List Kind) {out : List UInt8}
    (printed : printLoop (percent :: form.char :: fmt) (kinds.map sample) = .ok out) :
    ∃ digit rest, out = digit :: rest ∧ letter digit = .other := by
  rw [printLoop_conversion] at printed
  cases kinds with
  | nil => cases printed
  | cons kind kinds =>
      change (if (sample kind).kind = form.kind then
        (form.render (sample kind) ++ ·) <$> printLoop fmt (kinds.map sample)
        else .error .argument) = _ at printed
      split at printed
      · rename_i same
        rw [sample_kind] at same
        subst same
        obtain ⟨digit, rest, rendered, _, other⟩ := sample_render form
        obtain ⟨more, _, whole⟩ := map_eq_ok.mp printed
        rw [rendered] at whole
        exact ⟨digit, rest ++ more, whole.symm, other⟩
      · cases printed

/-- A `%lx` with another letter behind prints a zero first. -/
theorem printed_longHex (fmt : List UInt8) (kinds : List Kind) (next : UInt8) {out : List UInt8}
    (printed : printLoop (percent :: 108 :: 120 :: next :: fmt) (kinds.map sample) = .ok out) :
    ∃ rest, out = 48 :: rest := by
  rw [printLoop_longHex] at printed
  cases kinds with
  | nil => cases printed
  | cons kind kinds =>
      change (if (sample kind).kind = .long then
        (renderLong (sample kind) ++ ·) <$> printLoop fmt (kinds.map sample)
        else .error .argument) = _ at printed
      split at printed
      · rename_i same
        rw [sample_kind] at same
        subst same
        obtain ⟨more, _, whole⟩ := map_eq_ok.mp printed
        exact ⟨_, whole.symm⟩
      · cases printed

/-- A common prefix is taken off. -/
theorem mapped_append {front out : List UInt8} {outcome : Outcome (List UInt8)}
    (same : (front ++ ·) <$> outcome = .ok (front ++ out)) : outcome = .ok out := by
  obtain ⟨value, run, whole⟩ := map_eq_ok.mp same
  rw [run, List.append_cancel_left whole]

/-- The worth of a format bounds what is printed. -/
theorem short_differs {fmt : List UInt8} {pieces : List PrintPiece} (plain : 0 ∉ fmt)
    (short : worth fmt < worth (printText pieces)) :
    printLoop (fmt ++ [0]) (samples pieces) ≠ .ok (printExpansion pieces (samples pieces)) := by
  intro printed
  have bound := printLoop_length plain _ printed
  rw [expansion_length] at bound
  omega

/-- `print` passes over the character behind an unknown conversion. -/
theorem printLoop_skip {c next : UInt8} (inside : c ≠ 0)
    (skips : letter c = .other ∨ (letter c = .l ∧ letter next ≠ .x)) (fmt : List UInt8)
    (args : List Arg) :
    printLoop (percent :: c :: next :: fmt) args = ([percent, c] ++ ·) <$> printLoop fmt args := by
  cases skips with
  | inl other => exact printLoop_unknown fmt args other inside next
  | inr long =>
      have same : c = 108 := (@char_of_letter c).2.2.2.2.2.1 long.1
      subst same
      exact printLoop_long fmt args long.2

/-- Output that starts with a `%` comes from an unknown conversion. -/
theorem percent_passed {c : UInt8} (ordinary : c ≠ percent) (fmt : List UInt8) (kinds : List Kind)
    {out : List UInt8}
    (printed : printLoop (percent :: c :: fmt) (kinds.map sample) = .ok (percent :: out)) :
    letter c = .other ∨ letter c = .l := by
  have chars := @char_of_letter c
  have rendered (form : Conversion) : c ≠ form.char := by
    rintro rfl
    obtain ⟨digit, more, same, other⟩ := printed_digit form _ _ printed
    rw [← (List.cons.inj same).1] at other
    cases other
  cases kind : letter c with
  | d => exact absurd (chars.1 kind) (rendered .d)
  | u => exact absurd (chars.2.1 kind) (rendered .u)
  | n => exact absurd (chars.2.2.1 kind) (rendered .n)
  | s => exact absurd (chars.2.2.2.1 kind) (rendered .s)
  | x => exact absurd (chars.2.2.2.2.1 kind) (rendered .x)
  | percent => exact absurd (chars.2.2.2.2.2.2 kind) ordinary
  | l => exact Or.inr rfl
  | other => exact Or.inl rfl

/-- The character behind an unknown conversion does not become output. -/
theorem percent_skips {c next : UInt8} (ordinary : c ≠ percent) (inside : c ≠ 0) {fmt : List UInt8}
    {kinds : List Kind} {out : List UInt8}
    (printed : printLoop (percent :: c :: next :: (fmt ++ [0])) (kinds.map sample) =
      .ok ([percent, c] ++ out)) : printLoop (fmt ++ [0]) (kinds.map sample) = .ok out := by
  have passed := percent_passed ordinary _ kinds printed
  by_cases hex : letter c = .l ∧ letter next = .x
  · have first : c = 108 := (@char_of_letter c).2.2.2.2.2.1 hex.1
    have second : next = 120 := (@char_of_letter next).2.2.2.2.1 hex.2
    subst first second
    cases ended : fmt ++ [0] with
    | nil => exact absurd ended (List.append_ne_nil_of_right_ne_nil fmt (List.cons_ne_nil 0 []))
    | cons last final =>
        rw [ended] at printed
        obtain ⟨more, same⟩ := printed_longHex _ _ _ printed
        cases (List.cons.inj same).1
  · have skips : letter c = .other ∨ (letter c = .l ∧ letter next ≠ .x) :=
      passed.imp id fun long => ⟨long, fun same => hex ⟨long, same⟩⟩
    rw [printLoop_skip inside skips] at printed
    exact mapped_append printed

/-- A piece is an ordinary character or starts with a percent sign. -/
theorem marked_cases (piece : PrintPiece) :
    (∃ c ordinary inside, piece = .plain c ordinary inside) ∨
      ∃ behind, piece.text = percent :: behind := by
  cases piece with
  | plain c ordinary inside => exact Or.inl ⟨c, ordinary, inside, rfl⟩
  | conversion form => exact Or.inr ⟨[form.char], rfl⟩
  | longHex => exact Or.inr ⟨[108, 120], rfl⟩
  | percent => exact Or.inr ⟨[percent], rfl⟩

/-- The expansion is not printed when the first character of the format is passed over. -/
theorem skipped_differs {pieces : List PrintPiece} {next : UInt8} {fmt : List UInt8}
    (text : printText pieces = next :: fmt) :
    printLoop (fmt ++ [0]) (samples pieces) ≠ .ok (printExpansion pieces (samples pieces)) := by
  induction length : pieces.length using Nat.strong_induction_on generalizing pieces next fmt with
  | _ count ih =>
    subst length
    have plain := printText_plain pieces
    rw [text, List.mem_cons, not_or] at plain
    cases pieces with
    | nil => cases text
    | cons piece rest =>
      intro printed
      cases piece with
      | plain c ordinary inside =>
          apply short_differs plain.2 _ printed
          rw [text, ← (List.cons.inj text).1, worth_plain ordinary]
          exact Nat.lt_succ_self _
      | conversion form =>
          obtain ⟨digit, more, rendered, _, other⟩ := sample_render form
          have sign : form.char ≠ percent ∧ form.char ≠ 0 := by cases form <;> decide
          obtain ⟨_, rfl⟩ := List.cons.inj text
          obtain ⟨behind, same⟩ := printed_plain sign.1 sign.2 printed
          change form.render (sample form.kind) ++ _ = _ at same
          rw [rendered] at same
          rw [(List.cons.inj same).1] at other
          cases form <;> cases other
      | longHex =>
          obtain ⟨_, rfl⟩ := List.cons.inj text
          obtain ⟨behind, same⟩ :=
            printed_plain (c := 108) (by decide) (by decide) printed
          cases (List.cons.inj same).1
      | percent =>
          obtain ⟨_, rfl⟩ := List.cons.inj text
          cases rest with
          | nil => cases printed
          | cons second others =>
            rcases marked_cases second with ⟨c, ordinary, inside, rfl⟩ | ⟨behind, marked⟩
            · -- The second `%` and the character behind it are read as a conversion.
              change printLoop (percent :: c :: (printText others ++ [0]))
                ((printPieceKinds others).map sample) =
                  .ok ([percent, c] ++ printExpansion others (samples others)) at printed
              cases following : printText others with
              | nil =>
                  have passed := percent_passed ordinary _ _ printed
                  rw [following] at printed
                  have broken : CutOff [percent, c] := by
                    cases passed with
                    | inl other => exact Or.inr (Or.inr ⟨c, other, inside, rfl⟩)
                    | inr long =>
                        have same : c = 108 := (@char_of_letter c).2.2.2.2.2.1 long
                        exact Or.inl (same ▸ rfl)
                  exact printLoop_cutOff _ broken _ printed
              | cons next after =>
                  rw [following, List.cons_append] at printed
                  exact ih _ (by simp) following rfl (percent_skips ordinary inside printed)
            · -- The second `%` and the first one of the next piece are read as `%%`.
              have more : printText (second :: others) = percent :: (behind ++ printText others) := by
                rw [printText, List.flatMap_cons, marked]
                rfl
              have plain : 0 ∉ percent :: printText (second :: others) := plain.2
              change printLoop (percent :: (printText (second :: others) ++ [0])) _ = _ at printed
              rw [more, List.cons_append, printLoop_percent] at printed
              rw [more, List.mem_cons, List.mem_cons, not_or, not_or] at plain
              apply short_differs plain.2.2 _ printed
              change worth _ < worth (percent :: percent :: printText (second :: others))
              rw [worth_percent, more]
              exact Nat.lt_succ_of_le ((worth_cons _).1 _)

/-- A piece that is not exact spoils the output for the sample arguments. -/
theorem exact_of_printed {pieces : List PrintPiece}
    (printed : printLoop (printText pieces ++ [0]) (samples pieces) =
      .ok (printExpansion pieces (samples pieces))) : ∀ piece ∈ pieces, piece.Exact := by
  induction pieces with
  | nil => exact List.forall_mem_nil _
  | cons piece rest ih =>
      have there : piece.kinds <+: (samples (piece :: rest)).map Arg.kind := by
        rw [samples_match (piece :: rest)]
        exact List.prefix_append _ _
      have later (exact : piece.Exact) : ∀ other ∈ rest, other.Exact := by
        have step := printLoop_exact exact (printText rest ++ [0]) there
        rw [samples_drop] at step
        change printLoop (piece.text ++ printText rest ++ [0]) _ = _ at printed
        rw [List.append_assoc, step, printExpansion, samples_drop] at printed
        exact ih (mapped_append printed)
      cases piece with
      | plain c ordinary inside => exact List.forall_mem_cons.mpr ⟨trivial, later trivial⟩
      | conversion form => exact List.forall_mem_cons.mpr ⟨trivial, later trivial⟩
      | longHex =>
          exfalso
          change printLoop (percent :: 108 :: 120 :: (printText rest ++ [0]))
            (sample .long :: samples rest) =
              .ok (renderLong (sample .long) ++ printExpansion rest (samples rest)) at printed
          cases following : printText rest with
          | nil =>
              rw [following] at printed
              exact printLoop_cutOff _ (Or.inr (Or.inl rfl)) _ printed
          | cons next fmt =>
              rw [following, List.cons_append, printLoop_longHex] at printed
              exact skipped_differs following (mapped_append printed)
      | percent =>
          exfalso
          have plain := printText_plain rest
          change printLoop (percent :: percent :: (printText rest ++ [0])) _ = _ at printed
          rw [printLoop_percent] at printed
          apply short_differs plain _ printed
          change worth _ < worth (percent :: percent :: printText rest)
          rw [worth_percent]
          exact Nat.lt_succ_self _

end Defects

/-- The formats that `print` renders: with a framebuffer, those without `%%` and `%lx`. -/
def PrintExact (framebuffer : Option Terminal.Framebuffer) (pieces : List PrintPiece) : Prop :=
  pieces = [] ∨ (framebuffer ≠ none ∧ ∀ piece ∈ pieces, piece.Exact)

/-- Without a framebuffer only the empty format prints its expansion. -/
theorem printsExpansion_none {pieces : List PrintPiece}
    (prints : PrintsExpansion none pieces) : pieces = [] := by
  cases pieces with
  | nil => rfl
  | cons piece rest =>
      have empty := prints (samples (piece :: rest)) (samples_match _)
      have none : [] = printExpansion (piece :: rest) (samples (piece :: rest)) := Except.ok.inj empty
      rw [printExpansion] at none
      have first := (List.append_eq_nil_iff.mp none.symm).1
      cases piece with
      | plain c ordinary inside => cases first
      | conversion form =>
          obtain ⟨digit, more, rendered, _⟩ := sample_render form
          cases rendered.symm.trans first
      | longHex => cases first
      | percent => cases first

/-- Under the exact condition the expansion is printed. -/
theorem prints_of_printExact {framebuffer : Option Terminal.Framebuffer}
    {pieces : List PrintPiece} (exact : PrintExact framebuffer pieces) :
    PrintsExpansion framebuffer pieces := by
  cases framebuffer with
  | none =>
      cases exact with
      | inl empty =>
          subst empty
          intro args _
          rfl
      | inr present => exact absurd rfl present.1
  | some framebuffer =>
      cases exact with
      | inl empty =>
          subst empty
          exact printsExpansion_of_exact framebuffer (List.forall_mem_nil _)
      | inr present => exact printsExpansion_of_exact framebuffer present.2

/-- Two formats that meet the condition meet it together. -/
theorem PrintExact.append {framebuffer : Option Terminal.Framebuffer}
    {first second : List PrintPiece} (exact : PrintExact framebuffer first)
    (exact' : PrintExact framebuffer second) : PrintExact framebuffer (first ++ second) := by
  cases exact with
  | inl empty =>
      subst empty
      exact exact'
  | inr present =>
      apply Or.inr
      cases exact' with
      | inl empty =>
          subst empty
          rw [List.append_nil]
          exact present
      | inr present' => exact ⟨present.1, List.forall_mem_append.mpr ⟨present.2, present'.2⟩⟩

/-- `print` renders a format for all arguments exactly if there is a framebuffer and the format has
neither `%%` nor `%lx`; two such formats in a row print their outputs in a row. -/
theorem printsExpansion_iff (framebuffer : Option Terminal.Framebuffer) (pieces : List PrintPiece) :
    (PrintsExpansion framebuffer pieces ↔ PrintExact framebuffer pieces) ∧
      ∀ others, PrintExact framebuffer pieces → PrintExact framebuffer others →
        ∀ args more, Matches args (printPieceKinds pieces) → Matches more (printPieceKinds others) →
          ∃ first second,
            print framebuffer (printText pieces ++ [0]) args = .ok first ∧
            print framebuffer (printText others ++ [0]) more = .ok second ∧
            print framebuffer (printText pieces ++ printText others ++ [0]) (args ++ more) =
              .ok (first ++ second) := by
  constructor
  · constructor
    · intro prints
      cases framebuffer with
      | none => exact Or.inl (printsExpansion_none prints)
      | some framebuffer =>
          have printed := prints (samples pieces) (samples_match pieces)
          exact Or.inr ⟨Option.some_ne_none _, exact_of_printed printed⟩
    · exact prints_of_printExact
  · intro others exact exact' args more same same'
    have both : Matches (args ++ more) (printPieceKinds (pieces ++ others)) := by
      rw [Matches, List.map_append, same, same']
      exact List.flatMap_append.symm
    have text : printText (pieces ++ others) = printText pieces ++ printText others :=
      List.flatMap_append
    have printed := prints_of_printExact (exact.append exact') _ both
    rw [text, printExpansion_append pieces others args more same] at printed
    exact ⟨_, _, prints_of_printExact exact _ same, prints_of_printExact exact' _ same', printed⟩

/-- `%%` prints nothing, and `%lx` passes over the character behind it. -/
theorem printsExpansion_fails :
    (∃ framebuffer : Terminal.Framebuffer,
      print (some framebuffer) [37, 37, 0] [] = .ok [] ∧
        ¬ PrintsExpansion (some framebuffer) [.percent]) ∧
      ¬ ∀ (framebuffer : Terminal.Framebuffer) (pieces : List PrintPiece),
        PrintsExpansion (some framebuffer) pieces := by
  have screen : Terminal.Framebuffer := ⟨0, 0, 0, Nat.le_refl 0, Nat.zero_le _⟩
  have nothing : printLoop [37, 37, 0] [] = .ok [] := rfl
  have wrong (framebuffer : Terminal.Framebuffer) :
      ¬ PrintsExpansion (some framebuffer) [.percent] := by
    intro prints
    cases nothing.symm.trans (prints [] rfl)
  exact ⟨⟨screen, nothing, wrong screen⟩, fun all => wrong screen (all screen [.percent])⟩

end ArchaOS.Stdio
