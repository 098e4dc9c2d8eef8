import ArchaOS.Proof.Terminal.Canvas

namespace ArchaOS.Terminal

open Library

/-- The glyphs of a line, and the line feed in front of it. -/
structure Line where
  feed : Print
  glyphs : List Print

/-- The characters of a text; no line feed precedes the first line. -/
def textOf : List Line → List Print
  | [] => []
  | first :: rest => first.glyphs ++ rest.flatMap fun line => line.feed :: line.glyphs

/-- A screen with room for more than one line, in the range of the coordinates of `put_pixel`. -/
structure TextScreen extends Setting where
  lines : font.height < framebuffer.height
  wide : framebuffer.width ≤ 2 ^ 32
  tall : framebuffer.height ≤ 2 ^ 32

namespace TextScreen

variable (screen : TextScreen)

/-- The number of lines that fit. -/
def room : Nat := screen.framebuffer.height / screen.font.height

/-- The first row of a line of the page. The lines that do not fit any more continue below the last row
of the screen, so a rest of the screen that is lower than a line stays between them. -/
def rowOf (line : Nat) : Nat :=
  if line < screen.room then line * screen.font.height
  else screen.framebuffer.height + (line - screen.room) * screen.font.height

/-- The line that a row of the page belongs to. -/
def lineAt (row : Nat) : Nat :=
  if row < screen.framebuffer.height then row / screen.font.height
  else screen.room + (row - screen.framebuffer.height) / screen.font.height

/-- The rows of the page above the screen. -/
def scrolled (lines : Nat) : Nat := (lines - screen.room) * screen.font.height

/-- What stands on the page where no glyph is: the old picture, or the background of the line feed. -/
def ground (before : Nat → Nat) (line : Line) (row col : Nat) : Nat :=
  if row < screen.framebuffer.height then before (row * screen.framebuffer.pitch + col)
  else line.feed.background

/-- The rest of the screen below the lines that fit. -/
def Rest (row : Nat) : Prop :=
  screen.room * screen.font.height ≤ row ∧ row < screen.framebuffer.height

instance (row : Nat) : Decidable (screen.Rest row) := inferInstanceAs (Decidable (_ ∧ _))

/-- A text on the page: each glyph in the column of its position, in the rows of its line. -/
def pageOf (before : Nat → Nat) (lines : List Line) (row col : Nat) : Nat :=
  if screen.Rest row then before (row * screen.framebuffer.pitch + col)
  else
    match lines[screen.lineAt row]? with
    | none => before (row * screen.framebuffer.pitch + col)
    | some line =>
        match line.glyphs[col / screen.font.width]? with
        | none => screen.ground before line row col
        | some print =>
            glyphColor screen.font print.char.toNat print.foreground print.background
              (row - screen.rowOf (screen.lineAt row)) (col % screen.font.width)

/-- The glyph belongs to the font and is no control character. -/
def Printable (print : Print) : Prop :=
  print.char ∉ [8, 9, 10, 13] ∧ print.char.toNat < screen.font.glyphCount

instance (print : Print) : Decidable (screen.Printable print) := inferInstanceAs (Decidable (_ ∧ _))

/-- The line leaves one cell free at its end. -/
structure Fitting (line : Line) : Prop where
  feed : line.feed.char = 10
  printable : ∀ print ∈ line.glyphs, screen.Printable print
  short : (line.glyphs.length + 1) * screen.font.width ≤ screen.framebuffer.width

/-- The height of the cursor in a line. -/
def cursorOf (line : Nat) : Nat :=
  if line < screen.room then line * screen.font.height
  else screen.framebuffer.height - screen.font.height

section Rows

variable (line row : Nat)

/-- The rows fill the screen up to less than one. -/
theorem room_bounds : screen.room * screen.font.height ≤ screen.framebuffer.height ∧
    screen.framebuffer.height < screen.room * screen.font.height + screen.font.height :=
  ⟨Nat.div_mul_le_self _ _, Nat.lt_div_mul_add screen.heightPositive⟩

/-- There is at least one row. -/
theorem room_pos : 0 < screen.room := Nat.div_pos screen.heightInside screen.heightPositive

/-- Lines that fit end above the rest of the screen. -/
theorem mul_room {line : Nat} (fits : line < screen.room) :
    line * screen.font.height + screen.font.height ≤ screen.room * screen.font.height := by
  have next : (line + 1) * screen.font.height ≤ screen.room * screen.font.height :=
    Nat.mul_le_mul_right _ fits
  rwa [Nat.add_mul, Nat.one_mul] at next

/-- The row of every line lies on the screen. -/
theorem cursorOf_inside : screen.cursorOf line + screen.font.height ≤ screen.framebuffer.height := by
  have bounds := screen.room_bounds
  have tall := screen.heightInside
  unfold cursorOf
  split
  · rename_i fits
    have last := screen.mul_room fits
    omega
  · omega

/-- The line of the cursor on the page. -/
theorem rowOf_eq : screen.rowOf line = screen.scrolled (line + 1) + screen.cursorOf line := by
  have tall := screen.heightInside
  unfold rowOf scrolled cursorOf
  split
  · rename_i fits
    rw [Nat.sub_eq_zero_of_le (by omega), Nat.zero_mul, Nat.zero_add]
  · rename_i below
    rw [Nat.succ_sub (by omega), Nat.succ_mul]
    omega

/-- The rows of a line. -/
theorem lineAt_iff : ¬ screen.Rest row ∧ screen.lineAt row = line ↔
    screen.rowOf line ≤ row ∧ row < screen.rowOf line + screen.font.height := by
  have bounds := screen.room_bounds
  have positive := screen.heightPositive
  have last := @mul_room screen line
  unfold Rest lineAt rowOf
  by_cases high : row < screen.framebuffer.height
  · rw [if_pos high]
    have above : row < screen.room * screen.font.height ↔ row / screen.font.height < screen.room :=
      (Nat.div_lt_iff_lt_mul positive).symm
    have line : row / screen.font.height = line ↔
        line * screen.font.height ≤ row ∧ row < line * screen.font.height + screen.font.height := by
      rw [Nat.div_eq_iff positive]
      constructor <;> intro both <;> constructor <;> omega
    split
    · rename_i fits
      have last := last fits
      rw [line]
      omega
    · omega
  · rw [if_neg high]
    split
    · rename_i fits
      have last := last fits
      have less : screen.room ≤ screen.room + (row - screen.framebuffer.height) / screen.font.height :=
        Nat.le_add_right _ _
      omega
    · rename_i below
      have line : (row - screen.framebuffer.height) / screen.font.height = line - screen.room ↔
          (line - screen.room) * screen.font.height ≤ row - screen.framebuffer.height ∧
            row - screen.framebuffer.height <
              (line - screen.room) * screen.font.height + screen.font.height := by
        rw [Nat.div_eq_iff positive]
        constructor <;> intro both <;> constructor <;> omega
      omega

end Rows

section Pages

variable (before : Nat → Nat) (done : List Line) (feed : Print)

/-- One more glyph changes the page in its cell. -/
theorem pageOf_glyph (glyphs : List Print) (print : Print) (row col : Nat) :
    screen.pageOf before (done ++ [⟨feed, glyphs ++ [print]⟩]) row col =
      if (screen.rowOf done.length ≤ row ∧ row < screen.rowOf done.length + screen.font.height) ∧
          glyphs.length * screen.font.width ≤ col ∧
          col < glyphs.length * screen.font.width + screen.font.width then
        glyphColor screen.font print.char.toNat print.foreground print.background
          (row - screen.rowOf done.length) (col - glyphs.length * screen.font.width)
      else screen.pageOf before (done ++ [⟨feed, glyphs⟩]) row col := by
  have positive := screen.widthPositive
  have column : col / screen.font.width = glyphs.length ↔
      glyphs.length * screen.font.width ≤ col ∧
        col < glyphs.length * screen.font.width + screen.font.width := by
    rw [Nat.div_eq_iff positive]
    constructor <;> intro both <;> constructor <;> omega
  simp only [← screen.lineAt_iff done.length row, ← column]
  unfold pageOf
  by_cases rest : screen.Rest row
  · simp [rest]
  · simp only [rest, if_false, not_false_eq_true, true_and]
    by_cases here : screen.lineAt row = done.length
    · simp only [here, List.getElem?_concat_length, true_and]
      by_cases cell : col / screen.font.width = glyphs.length
      · have split : glyphs.length * screen.font.width + col % screen.font.width = col := by
          rw [← cell, Nat.mul_comm]
          exact Nat.div_add_mod col _
        have rest : col % screen.font.width = col - glyphs.length * screen.font.width := by omega
        simp [cell, rest]
      · rw [if_neg cell]
        have same : (glyphs ++ [print])[col / screen.font.width]? =
            glyphs[col / screen.font.width]? := by
          rcases Nat.lt_or_gt_of_ne cell with left | right
          · exact List.getElem?_append_left left
          · rw [List.getElem?_eq_none (by simp; omega), List.getElem?_eq_none (by omega)]
        rw [same]
        rfl
    · have same : (done ++ [⟨feed, glyphs ++ [print]⟩])[screen.lineAt row]? =
          (done ++ [⟨feed, glyphs⟩])[screen.lineAt row]? := by
        rcases Nat.lt_or_gt_of_ne here with above | below
        · rw [List.getElem?_append_left above, List.getElem?_append_left above]
        · rw [List.getElem?_eq_none (by simp; omega), List.getElem?_eq_none (by simp; omega)]
      simp [here, same]

/-- A new line changes the page only below the screen. -/
theorem pageOf_feed (row col : Nat) :
    screen.pageOf before (done ++ [⟨feed, []⟩]) row col =
      if screen.framebuffer.height ≤ row ∧ screen.rowOf done.length ≤ row ∧
          row < screen.rowOf done.length + screen.font.height then feed.background
      else screen.pageOf before done row col := by
  simp only [← screen.lineAt_iff done.length row]
  unfold pageOf
  by_cases rest : screen.Rest row
  · simp [rest]
  · simp only [rest, if_false, not_false_eq_true, true_and]
    by_cases here : screen.lineAt row = done.length
    · simp only [here, List.getElem?_concat_length, List.getElem?_nil, and_true,
        List.getElem?_eq_none (Nat.le_refl done.length)]
      unfold ground
      by_cases high : row < screen.framebuffer.height
      · simp [high]
      · simp [high, not_lt.mp high]
    · have same : (done ++ [⟨feed, []⟩])[screen.lineAt row]? = done[screen.lineAt row]? := by
        rcases Nat.lt_or_gt_of_ne here with above | below
        · exact List.getElem?_append_left above
        · rw [List.getElem?_eq_none (by simp; omega), List.getElem?_eq_none (by omega)]
      simp [here, same]

end Pages

/-- The canvas holds the text so far, with the cursor behind the last glyph. -/
structure Laid (before : Nat → Nat) (lines : List Line) (canvas : Canvas) : Prop where
  top : canvas.top = screen.scrolled lines.length
  cursorX : canvas.cursorX = (lines.getLast?.elim 0 fun line => line.glyphs.length) * screen.font.width
  cursorY : canvas.cursorY = screen.cursorOf (lines.length - 1)
  pixels : ∀ row < canvas.top + screen.framebuffer.height, ∀ col,
    canvas.pixel row col = screen.pageOf before lines row col

/-- The cell of a cursor on the screen. -/
theorem inCell_iff {cursorX cursorY y x : Nat}
    (insideX : cursorX + screen.font.width ≤ screen.framebuffer.width)
    (insideY : cursorY + screen.font.height ≤ screen.framebuffer.height)
    (visible : y < screen.framebuffer.height) :
    InCell screen.framebuffer screen.font cursorX cursorY y x ↔
      (cursorY ≤ y ∧ y < cursorY + screen.font.height) ∧
        cursorX ≤ x ∧ x < cursorX + screen.font.width := by
  have wide := screen.wide
  have tall := screen.tall
  have positiveX := screen.widthPositive
  have positiveY := screen.heightPositive
  constructor
  · rintro ⟨column, inX, inY⟩
    unfold behind at inX inY
    omega
  · intro inside
    refine ⟨by omega, ⟨by omega, ?_⟩, by omega, ?_⟩
    · unfold behind
      omega
    · unfold behind
      omega

/-- A position after the cursor lies as far behind as they differ. -/
theorem behind_eq {cursor position : Nat} (after : cursor ≤ position) (small : position < 2 ^ 32) :
    behind cursor position = position - cursor := by
  unfold behind
  omega

section Steps

variable {before : Nat → Nat} {done : List Line} {feed : Print} {canvas : Canvas}

/-- A glyph is laid behind the others of its line. -/
theorem Laid.glyph {glyphs : List Print} {print : Print}
    (laid : screen.Laid before (done ++ [⟨feed, glyphs⟩]) canvas) (printable : screen.Printable print)
    (short : (glyphs.length + 2) * screen.font.width ≤ screen.framebuffer.width) :
    screen.Laid before (done ++ [⟨feed, glyphs ++ [print]⟩])
      (canvas.write screen.framebuffer screen.font print) := by
  have wide := screen.wide
  have tall := screen.tall
  have small := screen.font.widthFits
  have low := screen.font.heightFits
  have lower := screen.cursorOf_inside done.length
  have place := screen.rowOf_eq done.length
  have column : canvas.cursorX = glyphs.length * screen.font.width := by
    simpa using laid.cursorX
  have row : canvas.cursorY = screen.cursorOf done.length := by
    simpa using laid.cursorY
  have top : canvas.top = screen.scrolled (done.length + 1) := by
    simpa using laid.top
  rw [Nat.add_mul] at short
  obtain ⟨printed, known⟩ := printable
  simp only [List.mem_cons, List.not_mem_nil, or_false, not_or] at printed
  obtain ⟨notBackspace, notTab, notNewline, notReturn⟩ := printed
  have moved : add64 canvas.cursorX screen.font.width = canvas.cursorX + screen.font.width :=
    add64_eq (by omega)
  have right : ¬ add64 (canvas.cursorX + screen.font.width) screen.font.width >
      screen.framebuffer.width := by
    rw [add64_eq (by omega)]
    omega
  have bottom : ¬ add64 canvas.cursorY screen.font.height > screen.framebuffer.height := by
    rw [add64_eq (by omega)]
    omega
  have written : canvas.write screen.framebuffer screen.font print =
      { canvas.paint screen.framebuffer screen.font
          (glyphColor screen.font print.char.toNat print.foreground print.background) with
        cursorX := canvas.cursorX + screen.font.width } := by
    simp only [Canvas.write, Canvas.glyph, notBackspace, notTab, notNewline, notReturn, known,
      if_false, if_true, moved, right]
    exact if_neg bottom
  rw [written]
  refine ⟨?_, ?_, ?_, ?_⟩
  · change canvas.top = _
    simpa using top
  · change canvas.cursorX + screen.font.width = _
    rw [column]
    simp [Nat.add_mul]
  · change canvas.cursorY = _
    simpa using row
  · intro line inside col
    change line < canvas.top + screen.framebuffer.height at inside
    rw [pageOf_glyph, ← laid.pixels line inside col, place, ← top, ← row, ← column]
    dsimp only [Canvas.paint]
    by_cases above : canvas.top ≤ line
    · simp only [inCell_iff screen (x := col) (show canvas.cursorX + screen.font.width ≤ _ by omega)
        (show canvas.cursorY + screen.font.height ≤ _ by omega)
        (show line - canvas.top < _ by omega)]
      by_cases cell : (canvas.top + canvas.cursorY ≤ line ∧
          line < canvas.top + canvas.cursorY + screen.font.height) ∧
          canvas.cursorX ≤ col ∧ col < canvas.cursorX + screen.font.width
      · rw [if_pos (by omega), if_pos cell, behind_eq (by omega) (by omega),
          behind_eq (by omega) (by omega), Nat.sub_sub]
      · rw [if_neg (by omega), if_neg cell]
    · rw [if_neg (by omega), if_neg (by omega)]

/-- A line feed scrolls once the lines do not fit any more. -/
theorem Laid.newline {line : Line} (laid : screen.Laid before (done ++ [line]) canvas)
    (char : feed.char = 10) : screen.Laid before (done ++ [line] ++ [⟨feed, []⟩])
      (canvas.write screen.framebuffer screen.font feed) := by
  have tall := screen.tall
  have lines := screen.lines
  have positive := screen.heightPositive
  have bounds := screen.room_bounds
  have some := screen.room_pos
  have small := screen.font.heightFits
  have lower := screen.cursorOf_inside done.length
  have place := screen.rowOf_eq (done.length + 1)
  have next := screen.cursorOf_inside (done.length + 1)
  have row : canvas.cursorY = screen.cursorOf done.length := by
    simpa using laid.cursorY
  have top : canvas.top = screen.scrolled (done.length + 1) := by
    simpa using laid.top
  have down : add64 canvas.cursorY screen.font.height = canvas.cursorY + screen.font.height :=
    add64_eq (by omega)
  have edge : add64 (canvas.cursorY + screen.font.height) screen.font.height =
      canvas.cursorY + screen.font.height + screen.font.height := add64_eq (by omega)
  have other : ¬ ((10 : UInt8) = 13) := by decide
  have written : canvas.write screen.framebuffer screen.font feed =
      canvas.newline screen.framebuffer screen.font feed.background := by
    simp [Canvas.write, char, other]
  rw [written, Canvas.newline, down, edge]
  dsimp only
  by_cases fits : done.length + 1 < screen.room
  · have last := screen.mul_room fits
    have here : canvas.cursorY = done.length * screen.font.height := by
      rw [row, cursorOf, if_pos (by omega)]
    have still : screen.scrolled (done.length + 1) = 0 := by
      rw [scrolled, Nat.sub_eq_zero_of_le (by omega), Nat.zero_mul]
    rw [Nat.add_mul, Nat.one_mul] at last
    rw [if_neg (by omega)]
    refine ⟨?_, by simp, ?_, ?_⟩
    · change canvas.top = _
      rw [top, still, scrolled, Nat.sub_eq_zero_of_le (by simp; omega), Nat.zero_mul]
    · change canvas.cursorY + screen.font.height = _
      rw [here, cursorOf, if_pos (by simpa using fits)]
      simp [Nat.add_mul]
    · intro line inside col
      change line < canvas.top + screen.framebuffer.height at inside
      rw [pageOf_feed, if_neg (by omega)]
      exact laid.pixels line inside col
  · have full : screen.framebuffer.height < canvas.cursorY + screen.font.height + screen.font.height := by
      rw [row, cursorOf]
      split
      · have last : (done.length + 1) * screen.font.height = screen.room * screen.font.height := by
          congr 1
          omega
        rw [Nat.add_mul, Nat.one_mul] at last
        omega
      · omega
    have proper : ¬ (screen.font.height = 0 ∨ screen.font.height ≥ screen.framebuffer.height) := by
      omega
    have below : screen.cursorOf (done.length + 1) =
        screen.framebuffer.height - screen.font.height := by
      rw [cursorOf, if_neg fits]
    have more : screen.scrolled (done.length + 2) =
        screen.scrolled (done.length + 1) + screen.font.height := by
      rw [scrolled, scrolled, show done.length + 2 - screen.room = done.length + 1 - screen.room + 1 by
        omega, Nat.add_mul, Nat.one_mul]
    rw [if_pos full, Canvas.advance, if_neg proper]
    refine ⟨?_, by simp, ?_, ?_⟩
    · change canvas.top + screen.font.height = _
      simp [more, top]
    · change sub64 screen.framebuffer.height screen.font.height = _
      rw [sub64_eq (by omega) (by omega)]
      simpa using below.symm
    · intro line inside col
      change line < canvas.top + screen.font.height + screen.framebuffer.height at inside
      rw [pageOf_feed, List.length_append, List.length_singleton, place, more, below, ← top]
      dsimp only
      by_cases new : canvas.top + screen.framebuffer.height ≤ line
      · rw [if_pos (by omega), if_pos (by omega)]
      · rw [if_neg (by omega), if_neg (by omega)]
        exact laid.pixels line (by omega) col

end Steps

section Texts

variable {before : Nat → Nat} {done : List Line}

/-- The rest of a line is laid behind its front. -/
theorem Laid.line {feed : Print} {glyphs : List Print} {canvas : Canvas} (rest : List Print)
    (laid : screen.Laid before (done ++ [⟨feed, glyphs⟩]) canvas)
    (fitting : screen.Fitting ⟨feed, glyphs ++ rest⟩) :
    screen.Laid before (done ++ [⟨feed, glyphs ++ rest⟩])
      (rest.foldl (Canvas.write screen.framebuffer screen.font) canvas) := by
  induction rest generalizing glyphs canvas with
  | nil => simpa using laid
  | cons print rest ih =>
      have printable := fitting.printable print (by simp)
      have short := fitting.short
      have moved : (glyphs.length + 2) * screen.font.width ≤
          (glyphs.length + (rest.length + 1) + 1) * screen.font.width :=
        Nat.mul_le_mul_right _ (by omega)
      rw [List.length_append, List.length_cons] at short
      have next := laid.glyph screen printable (moved.trans short)
      rw [List.append_cons glyphs print rest] at fitting ⊢
      exact ih next fitting

/-- The rest of the lines is laid below the first ones. -/
theorem Laid.lines {last : Line} {canvas : Canvas} (rest : List Line)
    (laid : screen.Laid before (done ++ [last]) canvas) (fitting : ∀ line ∈ rest, screen.Fitting line) :
    screen.Laid before (done ++ last :: rest)
      ((rest.flatMap fun line => line.feed :: line.glyphs).foldl
        (Canvas.write screen.framebuffer screen.font) canvas) := by
  induction rest generalizing done last canvas with
  | nil => exact laid
  | cons line rest ih =>
      rw [List.forall_mem_cons] at fitting
      have fed := laid.newline screen fitting.1.feed
      have written := fed.line screen line.glyphs fitting.1
      have all := ih written fitting.2
      rw [List.flatMap_cons, List.foldl_append, List.foldl_cons]
      simpa using all

end Texts

/-- An empty first line. -/
theorem laid_ofScreen (pixels : Nat → Nat) (feed : Print) : screen.Laid pixels ([] ++ [⟨feed, []⟩])
    (Canvas.ofScreen screen.framebuffer ⟨0, 0, pixels⟩) := by
  have some := screen.room_pos
  refine ⟨?_, by simp [Canvas.ofScreen], ?_, ?_⟩
  · simp [Canvas.ofScreen, scrolled, Nat.sub_eq_zero_of_le some]
  · simp [Canvas.ofScreen, cursorOf, some]
  · intro row inside col
    change row < 0 + screen.framebuffer.height at inside
    rw [pageOf_feed, if_neg (by omega)]
    change pixels _ = _
    simp [pageOf]

/-- A text that starts in the upper left corner stands on the screen exactly as on a page of its own:
every visible pixel shows the glyph of its place in its line, or what was there before, or the background
of the line feed; once the lines do not fit any more, the page has moved up by whole lines. -/
theorem putchars_show_text (pixels : Nat → Nat) (first : Line) (rest : List Line)
    (fitting : ∀ line ∈ first :: rest, screen.Fitting line) :
    let after := putchars screen.framebuffer screen.font (textOf (first :: rest)) ⟨0, 0, pixels⟩
    (∀ y < screen.framebuffer.height, ∀ x < screen.framebuffer.pitch,
      after.pixels (y * screen.framebuffer.pitch + x) =
        screen.pageOf pixels (first :: rest) (screen.scrolled (rest.length + 1) + y) x) ∧
    after.cursorX = (((first :: rest).getLast (by simp)).glyphs.length) * screen.font.width ∧
    after.cursorY = screen.cursorOf rest.length ∧
    ∀ index, screen.framebuffer.height * screen.framebuffer.pitch ≤ index →
      after.pixels index = pixels index := by
  intro after
  rw [List.forall_mem_cons] at fitting
  have shows := (shows_ofScreen screen.framebuffer ⟨0, 0, pixels⟩).run screen.font
    (textOf (first :: rest))
  have started := (screen.laid_ofScreen pixels first.feed).line screen first.glyphs fitting.1
  have laid : screen.Laid pixels (first :: rest) ((textOf (first :: rest)).foldl
      (Canvas.write screen.framebuffer screen.font)
      (Canvas.ofScreen screen.framebuffer ⟨0, 0, pixels⟩)) := by
    rw [textOf, List.foldl_append]
    exact started.lines screen rest fitting.2
  refine ⟨?_, ?_, ?_, shows.below⟩
  · intro y row x column
    rw [shows.pixels y row x column, laid.pixels _ (by omega) x, laid.top, List.length_cons]
  · rw [shows.cursorX, laid.cursorX, List.getLast?_eq_some_getLast (by simp)]
    rfl
  · rw [shows.cursorY, laid.cursorY, List.length_cons, Nat.add_sub_cancel]

theorem two_fits : 2 < 2 ^ 32 := by
  decide

/-- Three rows of four pixels, with a font of two by two pixels. -/
def threeRows : TextScreen where
  framebuffer := ⟨4, 3, 5, by decide, by decide⟩
  font := ⟨fun byte => byte, 2, 128, 2, 2, two_fits, two_fits⟩
  widthPositive := by decide
  widthInside := by decide
  heightPositive := by decide
  heightInside := by decide
  lines := by decide
  wide := by decide
  tall := by decide

def threeLines : List Line :=
  [⟨⟨10, 0, 0⟩, [⟨65, 1, 2⟩]⟩, ⟨⟨10, 1, 3⟩, [⟨96, 4, 5⟩]⟩, ⟨⟨10, 1, 6⟩, []⟩]

/-- The three lines fit. -/
theorem threeLines_fitting : ∀ line ∈ threeLines, threeRows.Fitting line := by
  simp only [threeLines, List.forall_mem_cons]
  refine ⟨⟨rfl, by decide, by decide⟩, ⟨rfl, by decide, by decide⟩, ⟨rfl, by decide, by decide⟩, ?_⟩
  simp

/-- The screen has moved down to the second row of the second line. -/
theorem putchars_show_text_threeLines :
    let after := putchars threeRows.framebuffer threeRows.font (textOf threeLines) ⟨0, 0, fun _ => 9⟩
    (∀ y < 3, ∀ x < 5, after.pixels (y * 5 + x) =
      threeRows.pageOf (fun _ => 9) threeLines (threeRows.scrolled 3 + y) x) ∧
    after.cursorX = 0 * 2 ∧ after.cursorY = threeRows.cursorOf 2 ∧
    ∀ index, 3 * 5 ≤ index → after.pixels index = 9 :=
  putchars_show_text threeRows (fun _ => 9) _ _ threeLines_fitting

end TextScreen

end ArchaOS.Terminal
