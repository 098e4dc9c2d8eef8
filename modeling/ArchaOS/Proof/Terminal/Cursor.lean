import ArchaOS.Construction.Terminal
import ArchaOS.Library.Runs

namespace ArchaOS.Terminal

open Library

/-- A call of `Putchar` with the font of the run. -/
structure Print where
  char : UInt8
  foreground : Nat
  background : Nat

/-- A screen that holds at least one cell of the font. -/
structure Setting where
  framebuffer : Framebuffer
  font : Font
  widthPositive : 0 < font.width
  widthInside : font.width ≤ framebuffer.width
  heightPositive : 0 < font.height
  heightInside : font.height ≤ framebuffer.height

def Setting.step (setting : Setting) (screen : Screen) (print : Print) : Screen :=
  putchar print.char print.foreground print.background setting.font (some setting.framebuffer) screen

/-- The cell at the cursor lies on the screen. -/
def Setting.OnScreen (setting : Setting) (screen : Screen) : Prop :=
  screen.cursorX + setting.font.width ≤ setting.framebuffer.width ∧
    screen.cursorY + setting.font.height ≤ setting.framebuffer.height

/-- A tab reaches a cell of this line or finds a line below, and a glyph leaves room for another. -/
def Setting.Fits (setting : Setting) (screen : Screen) (print : Print) : Prop :=
  (print.char = 9 →
    screen.cursorX + mul32 setting.font.width 4 + setting.font.width ≤ setting.framebuffer.width ∨
      screen.cursorY + 2 * setting.font.height ≤ setting.framebuffer.height) ∧
  (print.char ∉ [8, 9, 10, 13] → print.char.toNat < setting.font.glyphCount →
    screen.cursorX + 2 * setting.font.width ≤ setting.framebuffer.width)

instance (setting : Setting) (screen : Screen) (print : Print) :
    Decidable (setting.Fits screen print) :=
  inferInstanceAs (Decidable ((_ → _ ∨ _) ∧ (_ → _ → _)))

instance (setting : Setting) (screen : Screen) : Decidable (setting.OnScreen screen) :=
  inferInstanceAs (Decidable (_ ∧ _))

/-- The pixels of a framebuffer bound its size. -/
theorem Setting.bounds (setting : Setting) :
    setting.framebuffer.width ≤ 2 ^ 62 ∧ setting.framebuffer.height ≤ 2 ^ 62 := by
  have row := setting.framebuffer.row
  have room := setting.framebuffer.room
  have wide : 0 < setting.framebuffer.pitch := by
    have positive := setting.widthPositive
    have inside := setting.widthInside
    omega
  have tall : 0 < setting.framebuffer.height := by
    have positive := setting.heightPositive
    have inside := setting.heightInside
    omega
  have first := Nat.le_mul_of_pos_right setting.framebuffer.height wide
  have second := Nat.le_mul_of_pos_left setting.framebuffer.pitch tall
  constructor <;> omega

section Paint

variable (framebuffer : Framebuffer) (font : Font)

/-- A pixel leaves the cursor. -/
theorem putPixel_cursor (x y color : Nat) (screen : Screen) :
    (putPixel framebuffer x y color screen).cursorX = screen.cursorX ∧
      (putPixel framebuffer x y color screen).cursorY = screen.cursorY := by
  unfold putPixel
  dsimp only
  split <;> exact ⟨rfl, rfl⟩

/-- A loop whose turns keep the cursor keeps the cursor. -/
theorem foldl_cursor (turn : Screen → Nat → Screen)
    (keeps : ∀ screen i, (turn screen i).cursorX = screen.cursorX ∧
      (turn screen i).cursorY = screen.cursorY) (items : List Nat) (screen : Screen) :
    (items.foldl turn screen).cursorX = screen.cursorX ∧
      (items.foldl turn screen).cursorY = screen.cursorY := by
  induction items generalizing screen with
  | nil => exact ⟨rfl, rfl⟩
  | cons item rest ih =>
      obtain ⟨x, y⟩ := ih (turn screen item)
      obtain ⟨x', y'⟩ := keeps screen item
      exact ⟨x.trans x', y.trans y'⟩

/-- Painting a cell leaves the cursor. -/
theorem paintCell_cursor (color : Nat → Nat → Nat) (screen : Screen) :
    (paintCell framebuffer font color screen).cursorX = screen.cursorX ∧
      (paintCell framebuffer font color screen).cursorY = screen.cursorY := by
  unfold paintCell
  apply foldl_cursor
  intro screen row
  apply foldl_cursor
  intro screen col
  exact putPixel_cursor framebuffer _ _ _ screen

/-- Scrolling leaves the cursor. -/
theorem termScroll_cursor (background : Nat) (screen : Screen) :
    (termScroll background font framebuffer screen).cursorX = screen.cursorX ∧
      (termScroll background font framebuffer screen).cursorY = screen.cursorY := by
  unfold termScroll
  dsimp only
  split <;> exact ⟨rfl, rfl⟩

end Paint

section Steps

variable (setting : Setting) (screen : Screen) (print : Print)

/-- A carriage return moves to the start of the row. -/
theorem step_carriageReturn (char : print.char = 13) :
    (setting.step screen print).cursorX = 0 ∧
      (setting.step screen print).cursorY = screen.cursorY := by
  simp [Setting.step, putchar, char]

/-- A line feed moves to the next row, or scrolls. -/
theorem step_newline (char : print.char = 10)
    (inside : screen.cursorY + setting.font.height ≤ setting.framebuffer.height) :
    (setting.step screen print).cursorX = 0 ∧
      (setting.step screen print).cursorY =
        if setting.framebuffer.height < screen.cursorY + 2 * setting.font.height then
          setting.framebuffer.height - setting.font.height
        else screen.cursorY + setting.font.height := by
  have bounds := setting.bounds
  have small := setting.font.heightFits
  have first : add64 screen.cursorY setting.font.height = screen.cursorY + setting.font.height :=
    add64_eq (by omega)
  have second : add64 (screen.cursorY + setting.font.height) setting.font.height =
      screen.cursorY + 2 * setting.font.height := by
    rw [add64_eq (by omega)]
    omega
  have top : sub64 setting.framebuffer.height setting.font.height =
      setting.framebuffer.height - setting.font.height := sub64_eq setting.heightInside (by omega)
  have other : ¬ ((10 : UInt8) = 13) := by decide
  simp only [Setting.step, putchar, char, other, if_false, if_true, ln, first, second, top]
  split
  · refine ⟨?_, rfl⟩
    exact (termScroll_cursor setting.framebuffer setting.font print.background _).1
  · exact ⟨rfl, rfl⟩

/-- A backspace moves back in the row. -/
theorem step_backspace (char : print.char = 8) :
    (setting.step screen print).cursorX ≤ screen.cursorX ∧
      (setting.step screen print).cursorY = screen.cursorY := by
  have other : ¬ ((8 : UInt8) = 13) ∧ ¬ ((8 : UInt8) = 10) := by decide
  simp only [Setting.step, putchar, char, other.1, other.2, if_false, if_true]
  obtain ⟨x, y⟩ := paintCell_cursor setting.framebuffer setting.font (fun _ _ => print.background)
    { screen with
      cursorX := if screen.cursorX ≥ setting.font.width then screen.cursorX - setting.font.width
        else 0 }
  rw [x, y]
  refine ⟨?_, rfl⟩
  dsimp only
  split <;> omega

/-- A tab moves by four glyphs, or to the next row without a look at the height. -/
theorem step_tab (char : print.char = 9) (onScreen : setting.OnScreen screen) :
    ((setting.step screen print).cursorX, (setting.step screen print).cursorY) =
      if setting.framebuffer.width <
          screen.cursorX + mul32 setting.font.width 4 + setting.font.width then
        (0, screen.cursorY + setting.font.height)
      else (screen.cursorX + mul32 setting.font.width 4, screen.cursorY) := by
  have bounds := setting.bounds
  have small := setting.font.heightFits
  have narrow := setting.font.widthFits
  have advance : mul32 setting.font.width 4 < 2 ^ 32 := Nat.mod_lt _ (by decide)
  obtain ⟨inX, inY⟩ := onScreen
  have moved : add64 screen.cursorX (mul32 setting.font.width 4) =
      screen.cursorX + mul32 setting.font.width 4 := add64_eq (by omega)
  have edge : add64 (screen.cursorX + mul32 setting.font.width 4) setting.font.width =
      screen.cursorX + mul32 setting.font.width 4 + setting.font.width := add64_eq (by omega)
  have down : add64 screen.cursorY setting.font.height = screen.cursorY + setting.font.height :=
    add64_eq (by omega)
  have other : ¬ ((9 : UInt8) = 13) ∧ ¬ ((9 : UInt8) = 10) ∧ ¬ ((9 : UInt8) = 8) := by decide
  simp only [Setting.step, putchar, char, other.1, other.2.1, other.2.2, if_false, if_true, moved,
    edge, down]
  split <;> rfl

/-- A glyph moves by its width. -/
theorem step_glyph (char : print.char ∉ [8, 9, 10, 13]) (onScreen : setting.OnScreen screen) :
    ((setting.step screen print).cursorX, (setting.step screen print).cursorY) =
      if print.char.toNat < setting.font.glyphCount then
        (screen.cursorX + setting.font.width, screen.cursorY)
      else (screen.cursorX, screen.cursorY) := by
  have bounds := setting.bounds
  simp only [List.mem_cons, List.not_mem_nil, or_false, not_or] at char
  obtain ⟨notBackspace, notTab, notNewline, notReturn⟩ := char
  simp only [Setting.step, putchar, notBackspace, notTab, notNewline, notReturn, if_false]
  by_cases known : print.char.toNat < setting.font.glyphCount
  · obtain ⟨x, y⟩ := paintCell_cursor setting.framebuffer setting.font
      (glyphColor setting.font print.char.toNat print.foreground print.background) screen
    have moved : add64 screen.cursorX setting.font.width = screen.cursorX + setting.font.width :=
      add64_eq (by have inX := onScreen.1; omega)
    simp only [known, not_le.mpr known, if_false, if_true, x, y, moved, gt_iff_lt]
    split <;> split <;> simp only [termScroll_cursor]
  · simp [known, not_lt.mp known]

/-- From a cursor on the screen, a call leaves it on the screen exactly when it fits. -/
theorem step_onScreen_iff (onScreen : setting.OnScreen screen) :
    setting.OnScreen (setting.step screen print) ↔ setting.Fits screen print := by
  have inside := setting.widthInside
  obtain ⟨inX, inY⟩ := onScreen
  unfold Setting.OnScreen Setting.Fits
  by_cases isReturn : print.char = 13
  · obtain ⟨x, y⟩ := step_carriageReturn setting screen print isReturn
    simp [x, y, isReturn, inside, inY]
  by_cases isNewline : print.char = 10
  · obtain ⟨x, y⟩ := step_newline setting screen print isNewline inY
    have below : (setting.step screen print).cursorY + setting.font.height ≤
        setting.framebuffer.height := by
      have tall := setting.heightInside
      rw [y]
      split <;> omega
    simp [x, below, isNewline, inside]
  by_cases isBackspace : print.char = 8
  · obtain ⟨x, y⟩ := step_backspace setting screen print isBackspace
    have left : (setting.step screen print).cursorX + setting.font.width ≤
        setting.framebuffer.width := by omega
    simp [left, y, isBackspace, inY]
  by_cases isTab : print.char = 9
  · have cursor := step_tab setting screen print isTab ⟨inX, inY⟩
    simp only [isTab, List.mem_cons, true_or, or_true, not_true_eq_false, false_implies, and_true,
      forall_const]
    split at cursor <;> obtain ⟨x, y⟩ := Prod.mk.inj cursor <;> rw [x, y] <;> omega
  · have printable : print.char ∉ [8, 9, 10, 13] := by
      simp [isReturn, isNewline, isBackspace, isTab]
    have cursor := step_glyph setting screen print printable ⟨inX, inY⟩
    simp only [isTab, printable, false_implies, true_and, not_false_eq_true, forall_const]
    split at cursor <;> rename_i known <;> obtain ⟨x, y⟩ := Prod.mk.inj cursor <;> rw [x, y]
    · simp only [known, forall_const]
      omega
    · simp [known, inX, inY]

end Steps

/-- A run of `Putchar` from the upper left corner keeps the cursor's cell on the screen exactly when
every tab and every glyph of it fits. -/
theorem onScreen_run_iff (setting : Setting) (pixels : Nat → Nat) (prints : List Print) :
    (∀ reached ∈ visited setting.step ⟨0, 0, pixels⟩ prints, setting.OnScreen reached) ↔
      Guarded setting.step setting.Fits ⟨0, 0, pixels⟩ prints := by
  have start : setting.OnScreen ⟨0, 0, pixels⟩ := by
    have wide := setting.widthInside
    have tall := setting.heightInside
    exact ⟨by simpa using wide, by simpa using tall⟩
  have everything : Guarded setting.step (fun _ _ => True) ⟨0, 0, pixels⟩ prints :=
    guarded_of_forall (fun _ _ => trivial) _
  refine visited_iff_guarded (fun _ => id) ?_ ?_ start everything
  · intro screen print onScreen _ fits
    exact (step_onScreen_iff setting screen print onScreen).mpr fits
  · intro screen print onScreen _ unfit after
    exact unfit ((step_onScreen_iff setting screen print onScreen).mp after)

/-- A screen of two cells with a font of a full ASCII table. -/
def twoCells : Setting where
  framebuffer := ⟨4, 2, 4, by decide, by decide⟩
  font := ⟨fun _ => 0xFF, 2, 128, 2, 2, by decide, by decide⟩
  widthPositive := by decide
  widthInside := by decide
  heightPositive := by decide
  heightInside := by decide

/-- The second glyph of the line leaves the cursor behind the right edge. -/
theorem onScreen_run_fails :
    ∃ reached ∈ visited twoCells.step ⟨0, 0, fun _ => 0⟩ [⟨65, 1, 0⟩, ⟨66, 1, 0⟩],
      ¬ twoCells.OnScreen reached := by
  refine ⟨twoCells.step (twoCells.step ⟨0, 0, fun _ => 0⟩ ⟨65, 1, 0⟩) ⟨66, 1, 0⟩, by simp, ?_⟩
  decide

end ArchaOS.Terminal
