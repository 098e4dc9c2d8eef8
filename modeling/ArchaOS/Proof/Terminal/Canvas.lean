import ArchaOS.Library.PointLoop
import ArchaOS.Proof.Terminal.Cursor

namespace ArchaOS.Terminal

open Library

/-- How far a position lies behind a cursor, in the arithmetic of `put_pixel`. -/
def behind (cursor position : Nat) : Nat := (position + (2 ^ 32 - cursor % 2 ^ 32)) % 2 ^ 32

/-- A position lies some steps behind the cursor. -/
theorem behind_iff {cursor position step : Nat} (small : step < 2 ^ 32) :
    add64 cursor step % 2 ^ 32 = position ↔ position < 2 ^ 32 ∧ behind cursor position = step := by
  unfold add64 behind
  omega

section Cells

variable (framebuffer : Framebuffer) (font : Font)

/-- A visible pixel lies in the cell at the cursor. -/
structure InCell (cursorX cursorY y x : Nat) : Prop where
  visible : x < framebuffer.width
  column : x < 2 ^ 32 ∧ behind cursorX x < font.width
  row : y < 2 ^ 32 ∧ behind cursorY y < font.height

instance (cursorX cursorY y x : Nat) : Decidable (InCell framebuffer font cursorX cursorY y x) :=
  decidable_of_iff (x < framebuffer.width ∧ (x < 2 ^ 32 ∧ behind cursorX x < font.width) ∧
      y < 2 ^ 32 ∧ behind cursorY y < font.height)
    ⟨fun ⟨visible, column, row⟩ => ⟨visible, column, row⟩,
      fun ⟨visible, column, row⟩ => ⟨visible, column, row⟩⟩

/-- What `put_pixel` does to the pixels. -/
def pixelTurn (cursorX cursorY row col color : Nat) (pixels : Nat → Nat) : Nat → Nat :=
  if add64 cursorX col % 2 ^ 32 < framebuffer.width ∧ add64 cursorY row % 2 ^ 32 < framebuffer.height then
    Function.update pixels
      (add64 cursorY row % 2 ^ 32 * framebuffer.pitch + add64 cursorX col % 2 ^ 32) color
  else pixels

/-- A pixel of a cell is one turn. -/
theorem putPixel_turn (cursorX cursorY row col color : Nat) (pixels : Nat → Nat) :
    putPixel framebuffer (add64 cursorX col) (add64 cursorY row) color ⟨cursorX, cursorY, pixels⟩ =
      ⟨cursorX, cursorY, pixelTurn framebuffer cursorX cursorY row col color pixels⟩ := by
  unfold putPixel pixelTurn
  dsimp only
  split
  · rename_i outside
    rw [if_neg (by omega)]
  · rename_i inside
    rw [if_pos (by omega)]

/-- A loop whose turns change only the pixels changes only the pixels. -/
theorem foldl_pixels {cursorX cursorY : Nat} {turn : Screen → Nat → Screen}
    {paint : Nat → (Nat → Nat) → Nat → Nat}
    (each : ∀ i pixels, turn ⟨cursorX, cursorY, pixels⟩ i = ⟨cursorX, cursorY, paint i pixels⟩)
    (items : List Nat) (pixels : Nat → Nat) : items.foldl turn ⟨cursorX, cursorY, pixels⟩ =
      ⟨cursorX, cursorY, items.foldl (fun pixels i => paint i pixels) pixels⟩ := by
  induction items generalizing pixels with
  | nil => rfl
  | cons item rest ih => rw [List.foldl_cons, each, ih, List.foldl_cons]

/-- The two loops on the pixels alone. -/
def paintPixels (cursorX cursorY : Nat) (color : Nat → Nat → Nat) (pixels : Nat → Nat) : Nat → Nat :=
  (List.range font.height).foldl (fun pixels row => (List.range font.width).foldl
    (fun pixels col => pixelTurn framebuffer cursorX cursorY row col (color row col) pixels) pixels)
    pixels

/-- Painting a cell makes its turns and leaves the cursor. -/
theorem paintCell_pixels (cursorX cursorY : Nat) (color : Nat → Nat → Nat) (pixels : Nat → Nat) :
    paintCell framebuffer font color ⟨cursorX, cursorY, pixels⟩ =
      ⟨cursorX, cursorY, paintPixels framebuffer font cursorX cursorY color pixels⟩ := by
  apply foldl_pixels
  intro row pixels
  apply foldl_pixels
  intro col pixels
  exact putPixel_turn framebuffer cursorX cursorY row col (color row col) pixels

/-- Two pixels in one place are one. -/
theorem index_inj {y x y' x' : Nat} (column : x < framebuffer.pitch) (column' : x' < framebuffer.pitch)
    (same : y' * framebuffer.pitch + x' = y * framebuffer.pitch + x) : y' = y ∧ x' = x := by
  have rows : y' = y := by
    have left : (y' * framebuffer.pitch + x') / framebuffer.pitch = y' := by
      rw [Nat.mul_comm, Nat.mul_add_div (by omega), Nat.div_eq_of_lt column', Nat.add_zero]
    have right : (y * framebuffer.pitch + x) / framebuffer.pitch = y := by
      rw [Nat.mul_comm, Nat.mul_add_div (by omega), Nat.div_eq_of_lt column, Nat.add_zero]
    rw [← left, same, right]
  subst rows
  exact ⟨rfl, by omega⟩

/-- A painted cell shows its colors, and every other pixel of the rows on the screen is unchanged. -/
theorem paintPixels_visible (cursorX cursorY : Nat) (color : Nat → Nat → Nat) (pixels : Nat → Nat)
    {y x : Nat} (row : y < framebuffer.height) (column : x < framebuffer.pitch) :
    paintPixels framebuffer font cursorX cursorY color pixels (y * framebuffer.pitch + x) =
      if InCell framebuffer font cursorX cursorY y x then
        color (behind cursorY y) (behind cursorX x)
      else pixels (y * framebuffer.pitch + x) := by
  have narrow := framebuffer.row
  have wide := font.widthFits
  have tall := font.heightFits
  have turned : SetsWhen (y * framebuffer.pitch + x) (color (behind cursorY y) (behind cursorX x))
      (∃ row < font.height, ∃ col < font.width,
        (add64 cursorX col % 2 ^ 32 < framebuffer.width ∧
          add64 cursorY row % 2 ^ 32 < framebuffer.height) ∧
        add64 cursorY row % 2 ^ 32 * framebuffer.pitch + add64 cursorX col % 2 ^ 32 =
          y * framebuffer.pitch + x)
      (paintPixels framebuffer font cursorX cursorY color) := by
    refine SetsWhen.count fun row below => SetsWhen.count fun col left => SetsWhen.ite fun inside => ?_
    apply setsWhen_update
    intro same
    obtain ⟨sameRow, sameColumn⟩ := index_inj framebuffer column (by omega) same
    rw [((behind_iff (by omega)).mp sameRow).2, ((behind_iff (by omega)).mp sameColumn).2]
  have condition : (∃ row < font.height, ∃ col < font.width,
      (add64 cursorX col % 2 ^ 32 < framebuffer.width ∧
        add64 cursorY row % 2 ^ 32 < framebuffer.height) ∧
      add64 cursorY row % 2 ^ 32 * framebuffer.pitch + add64 cursorX col % 2 ^ 32 =
        y * framebuffer.pitch + x) ↔ InCell framebuffer font cursorX cursorY y x := by
    constructor
    · rintro ⟨row, below, col, left, inside, same⟩
      obtain ⟨sameRow, sameColumn⟩ := index_inj framebuffer column (by omega) same
      have rows := (behind_iff (by omega)).mp sameRow
      have columns := (behind_iff (by omega)).mp sameColumn
      exact ⟨by omega, ⟨columns.1, by omega⟩, ⟨rows.1, by omega⟩⟩
    · rintro ⟨visible, ⟨narrowX, left⟩, ⟨narrowY, below⟩⟩
      have rows : add64 cursorY (behind cursorY y) % 2 ^ 32 = y :=
        (behind_iff (by omega)).mpr ⟨narrowY, rfl⟩
      have columns : add64 cursorX (behind cursorX x) % 2 ^ 32 = x :=
        (behind_iff (by omega)).mpr ⟨narrowX, rfl⟩
      exact ⟨_, below, _, left, by omega, by rw [rows, columns]⟩
  split
  · rename_i inside
    exact turned.sets (condition.mpr inside) pixels
  · rename_i outside
    exact turned.keeps (fun holds => outside (condition.mp holds)) pixels

/-- No pixel below the screen is painted. -/
theorem paintPixels_below (cursorX cursorY : Nat) (color : Nat → Nat → Nat) (pixels : Nat → Nat)
    {index : Nat} (below : framebuffer.height * framebuffer.pitch ≤ index) :
    paintPixels framebuffer font cursorX cursorY color pixels index = pixels index := by
  have narrow := framebuffer.row
  have kept : SetsWhen index 0 (∃ row < font.height, ∃ col < font.width,
      (add64 cursorX col % 2 ^ 32 < framebuffer.width ∧
        add64 cursorY row % 2 ^ 32 < framebuffer.height) ∧ False)
      (paintPixels framebuffer font cursorX cursorY color) := by
    refine SetsWhen.count fun row _ => SetsWhen.count fun col _ => SetsWhen.ite fun inside => ?_
    have last : (add64 cursorY row % 2 ^ 32 + 1) * framebuffer.pitch ≤
        framebuffer.height * framebuffer.pitch := Nat.mul_le_mul_right _ inside.2
    rw [Nat.add_mul, Nat.one_mul] at last
    refine ⟨False.elim, fun _ pixels => Function.update_of_ne ?_ _ _⟩
    omega
  refine kept.keeps ?_ pixels
  rintro ⟨_, _, _, _, _, impossible⟩
  exact impossible

end Cells

/-- An endless page of rows and the part of it that the screen shows: the rows from `top` on. The cursor
counts from the first of them. -/
structure Canvas where
  top : Nat
  cursorX : Nat
  cursorY : Nat
  pixel : Nat → Nat → Nat

namespace Canvas

variable (framebuffer : Framebuffer) (font : Font)

/-- A cell is painted where it lies on the page. -/
def paint (color : Nat → Nat → Nat) (canvas : Canvas) : Canvas :=
  { canvas with
    pixel := fun row col =>
      if (canvas.top ≤ row ∧ row < canvas.top + framebuffer.height) ∧
          InCell framebuffer font canvas.cursorX canvas.cursorY (row - canvas.top) col then
        color (behind canvas.cursorY (row - canvas.top)) (behind canvas.cursorX col)
      else canvas.pixel row col }

/-- The screen moves down the page by one line, which starts in one color. -/
def advance (background : Nat) (canvas : Canvas) : Canvas :=
  if font.height = 0 ∨ font.height ≥ framebuffer.height then canvas
  else
    { canvas with
      top := canvas.top + font.height
      pixel := fun row col =>
        if canvas.top + framebuffer.height ≤ row ∧
            row < canvas.top + framebuffer.height + font.height then background
        else canvas.pixel row col }

/-- A new line. -/
def newline (background : Nat) (canvas : Canvas) : Canvas :=
  let lower := add64 canvas.cursorY font.height
  if add64 lower font.height > framebuffer.height then
    { advance framebuffer font background { canvas with cursorX := 0, cursorY := lower } with
      cursorY := sub64 framebuffer.height font.height }
  else { canvas with cursorX := 0, cursorY := lower }

/-- A glyph, and one line more for each edge of the screen behind which the cursor stands then. -/
def glyph (print : Print) (canvas : Canvas) : Canvas :=
  let color := glyphColor font print.char.toNat print.foreground print.background
  let painted := paint framebuffer font color canvas
  let moved := { painted with cursorX := add64 canvas.cursorX font.width }
  let passed :=
    if add64 moved.cursorX font.width > framebuffer.width then
      advance framebuffer font print.background moved
    else moved
  if add64 passed.cursorY font.height > framebuffer.height then
    advance framebuffer font print.background passed
  else passed

/-- The page after one more character. -/
def write (canvas : Canvas) (print : Print) : Canvas :=
  if print.char = 13 then { canvas with cursorX := 0 }
  else if print.char = 10 then newline framebuffer font print.background canvas
  else if print.char = 8 then
    paint framebuffer font (fun _ _ => print.background)
      { canvas with cursorX := canvas.cursorX - font.width }
  else if print.char = 9 then
    let moved := add64 canvas.cursorX (mul32 font.width 4)
    if add64 moved font.width > framebuffer.width then
      { canvas with cursorX := 0, cursorY := add64 canvas.cursorY font.height }
    else { canvas with cursorX := moved }
  else if print.char.toNat < font.glyphCount then glyph framebuffer font print canvas
  else canvas

/-- The page of which a screen shows the first rows. -/
def ofScreen (screen : Screen) : Canvas where
  top := 0
  cursorX := screen.cursorX
  cursorY := screen.cursorY
  pixel := fun row col => screen.pixels (row * framebuffer.pitch + col)

end Canvas

/-- The screen shows its part of the page, and the memory behind it is as it was. -/
structure Shows (framebuffer : Framebuffer) (before : Nat → Nat) (canvas : Canvas) (screen : Screen) :
    Prop where
  cursorX : screen.cursorX = canvas.cursorX
  cursorY : screen.cursorY = canvas.cursorY
  pixels : ∀ y < framebuffer.height, ∀ x < framebuffer.pitch,
    screen.pixels (y * framebuffer.pitch + x) = canvas.pixel (canvas.top + y) x
  below : ∀ index, framebuffer.height * framebuffer.pitch ≤ index → screen.pixels index = before index

section Refinement

variable {framebuffer : Framebuffer} (font : Font) {before : Nat → Nat} {canvas : Canvas}
  {screen : Screen} (shows : Shows framebuffer before canvas screen)
include shows

/-- A painted cell is shown. -/
theorem Shows.paint (color : Nat → Nat → Nat) : Shows framebuffer before
    (canvas.paint framebuffer font color) (paintCell framebuffer font color screen) := by
  obtain ⟨cursorX, cursorY, pixels⟩ := screen
  obtain ⟨rfl, rfl, visible, below⟩ := shows
  rw [paintCell_pixels]
  refine ⟨rfl, rfl, ?_, ?_⟩
  · intro y row x column
    have inside : canvas.top ≤ canvas.top + y ∧ canvas.top + y < canvas.top + framebuffer.height := by
      omega
    dsimp only [Canvas.paint]
    rw [paintPixels_visible framebuffer font _ _ color pixels row column, ← visible y row x column]
    simp only [inside, true_and, Nat.add_sub_cancel_left]
  · intro index low
    exact (paintPixels_below framebuffer font _ _ color pixels low).trans (below index low)

/-- Moving the pixels up is moving the screen down the page. -/
theorem Shows.advance (background : Nat) : Shows framebuffer before
    (canvas.advance framebuffer font background) (termScroll background font framebuffer screen) := by
  unfold Canvas.advance termScroll
  dsimp only
  split
  · exact shows
  · rename_i proper
    have total : (framebuffer.height - font.height) * framebuffer.pitch +
        font.height * framebuffer.pitch = framebuffer.height * framebuffer.pitch := by
      rw [← Nat.add_mul, Nat.sub_add_cancel (by omega)]
    refine ⟨shows.cursorX, shows.cursorY, ?_, ?_⟩
    · intro y row x column
      dsimp only
      by_cases high : y < framebuffer.height - font.height
      · have kept : (y + 1) * framebuffer.pitch ≤
            (framebuffer.height - font.height) * framebuffer.pitch := Nat.mul_le_mul_right _ high
        have lower : y * framebuffer.pitch + x + font.height * framebuffer.pitch =
            (y + font.height) * framebuffer.pitch + x := by
          rw [Nat.add_mul]
          omega
        rw [Nat.add_mul, Nat.one_mul] at kept
        rw [if_pos (by omega), lower, shows.pixels (y + font.height) (by omega) x column,
          if_neg (by omega), Nat.add_assoc, Nat.add_comm font.height y]
      · have cleared : (framebuffer.height - font.height) * framebuffer.pitch ≤
            y * framebuffer.pitch := Nat.mul_le_mul_right _ (by omega)
        have inside : (y + 1) * framebuffer.pitch ≤ framebuffer.height * framebuffer.pitch :=
          Nat.mul_le_mul_right _ row
        rw [Nat.add_mul, Nat.one_mul] at inside
        rw [if_neg (by omega), if_pos (by omega), if_pos (by omega)]
    · intro index low
      dsimp only
      rw [if_neg (by omega), if_neg (by omega)]
      exact shows.below index low

/-- The screen scrolls in the same cases in which it moves down the page. -/
theorem Shows.advanceIf (background : Nat) {scrolls advances : Prop} [Decidable scrolls]
    [Decidable advances] (same : scrolls ↔ advances) : Shows framebuffer before
      (if advances then canvas.advance framebuffer font background else canvas)
      (if scrolls then termScroll background font framebuffer screen else screen) := by
  by_cases edge : advances
  · rw [if_pos edge, if_pos (same.mpr edge)]
    exact shows.advance font background
  · rw [if_neg edge, if_neg (fun scrolled => edge (same.mp scrolled))]
    exact shows

/-- A new line is shown. -/
theorem Shows.newline (background : Nat) : Shows framebuffer before
    (canvas.newline framebuffer font background) (ln background font framebuffer screen) := by
  have lower : Shows framebuffer before
      { canvas with cursorX := 0, cursorY := add64 canvas.cursorY font.height }
      { screen with cursorX := 0, cursorY := add64 canvas.cursorY font.height } :=
    { shows with cursorX := rfl, cursorY := rfl }
  unfold Canvas.newline ln
  dsimp only
  rw [shows.cursorY]
  split
  · exact { lower.advance font background with cursorY := rfl }
  · exact lower

/-- A glyph is shown. -/
theorem Shows.glyph (print : Print) : Shows framebuffer before (canvas.glyph framebuffer font print)
    (let screen := paintCell framebuffer font
      (glyphColor font print.char.toNat print.foreground print.background) screen
    let screen := { screen with cursorX := add64 screen.cursorX font.width }
    let screen :=
      if add64 screen.cursorX font.width > framebuffer.width then
        termScroll print.background font framebuffer screen
      else screen
    if add64 screen.cursorY font.height > framebuffer.height then
      termScroll print.background font framebuffer screen
    else screen) := by
  have painted := shows.paint font
    (glyphColor font print.char.toNat print.foreground print.background)
  have moved : Shows framebuffer before
      { canvas.paint framebuffer font
          (glyphColor font print.char.toNat print.foreground print.background) with
        cursorX := add64 canvas.cursorX font.width }
      { paintCell framebuffer font
          (glyphColor font print.char.toNat print.foreground print.background) screen with
        cursorX := add64 screen.cursorX font.width } := by
    rw [shows.cursorX]
    exact { painted with cursorX := rfl }
  dsimp only
  rw [(paintCell_cursor framebuffer font _ screen).1]
  have passed := moved.advanceIf font print.background
    (Iff.of_eq (congrArg (add64 · font.width > framebuffer.width) moved.cursorX))
  exact passed.advanceIf font print.background
    (Iff.of_eq (congrArg (add64 · font.height > framebuffer.height) passed.cursorY))

/-- A character on the screen is a character on the page. -/
theorem Shows.write (print : Print) : Shows framebuffer before
    (canvas.write framebuffer font print)
    (putchar print.char print.foreground print.background font (some framebuffer) screen) := by
  unfold Canvas.write putchar
  dsimp only
  split
  · exact { shows with cursorX := rfl }
  · split
    · exact shows.newline font print.background
    · split
      · have left : (if screen.cursorX ≥ font.width then screen.cursorX - font.width else 0) =
            canvas.cursorX - font.width := by
          rw [shows.cursorX]
          split <;> omega
        rw [left]
        have moved : Shows framebuffer before
            { canvas with cursorX := canvas.cursorX - font.width }
            { screen with cursorX := canvas.cursorX - font.width } :=
          { shows with cursorX := rfl }
        exact moved.paint font _
      · split
        · have down : add64 screen.cursorY font.height = add64 canvas.cursorY font.height := by
            rw [shows.cursorY]
          rw [shows.cursorX, down]
          split
          · exact { shows with cursorX := rfl, cursorY := rfl }
          · exact { shows with cursorX := rfl }
        · split
          · rename_i known
            rw [if_neg (by omega)]
            exact shows.glyph font print
          · rename_i unknown
            rw [if_pos (by omega)]
            exact shows

end Refinement

/-- `Putchar` for a list of characters -/
def putchars (framebuffer : Framebuffer) (font : Font) (prints : List Print) (screen : Screen) :
    Screen :=
  prints.foldl (fun screen print =>
    putchar print.char print.foreground print.background font (some framebuffer) screen) screen

/-- A run of characters is shown. -/
theorem Shows.run {framebuffer : Framebuffer} (font : Font) {before : Nat → Nat}
    {canvas : Canvas} {screen : Screen} (shows : Shows framebuffer before canvas screen)
    (prints : List Print) : Shows framebuffer before
      (prints.foldl (Canvas.write framebuffer font) canvas)
      (putchars framebuffer font prints screen) := by
  induction prints generalizing canvas screen with
  | nil => exact shows
  | cons print rest ih => exact ih (shows.write font print)

/-- Every screen shows a canvas. -/
theorem shows_ofScreen (framebuffer : Framebuffer) (screen : Screen) :
    Shows framebuffer screen.pixels (Canvas.ofScreen framebuffer screen) screen where
  cursorX := rfl
  cursorY := rfl
  pixels := by
    intro y _ x _
    change _ = screen.pixels ((0 + y) * framebuffer.pitch + x)
    rw [Nat.zero_add]
  below := fun _ _ => rfl

/-- The screen has only moved down, and what it left behind is unchanged. -/
structure Canvas.Leaves (canvas next : Canvas) : Prop where
  top : canvas.top ≤ next.top
  above : ∀ row < canvas.top, next.pixel row = canvas.pixel row

namespace Canvas

/-- What two steps leave is left by both. -/
theorem Leaves.trans {first second third : Canvas} (early : first.Leaves second)
    (late : second.Leaves third) : first.Leaves third := by
  refine ⟨early.top.trans late.top, ?_⟩
  intro row above
  exact (late.above row (by have := early.top; omega)).trans (early.above row above)

/-- What both branches leave is left. -/
theorem Leaves.ite {condition : Prop} [Decidable condition] {canvas yes no : Canvas}
    (left : canvas.Leaves yes) (right : canvas.Leaves no) :
    canvas.Leaves (if condition then yes else no) := by
  split
  · exact left
  · exact right

variable (framebuffer : Framebuffer) (font : Font) (canvas : Canvas)

/-- The cursor does not matter. -/
theorem leaves_cursor (x y : Nat) : canvas.Leaves { canvas with cursorX := x, cursorY := y } :=
  ⟨le_rfl, fun _ _ => rfl⟩

/-- Painting a cell leaves what stands above it. -/
theorem leaves_paint (color : Nat → Nat → Nat) :
    canvas.Leaves (canvas.paint framebuffer font color) := by
  refine ⟨le_rfl, ?_⟩
  intro row above
  funext col
  exact if_neg (by omega)

/-- Advancing leaves what stands above the cursor. -/
theorem leaves_advance (background : Nat) :
    canvas.Leaves (canvas.advance framebuffer font background) := by
  apply Leaves.ite
  · exact leaves_cursor canvas canvas.cursorX canvas.cursorY
  · refine ⟨Nat.le_add_right _ _, ?_⟩
    intro row above
    funext col
    exact if_neg (by omega)

/-- Advancing under a condition leaves what stands above the cursor. -/
theorem leaves_advanceIf (condition : Prop) [Decidable condition] (background : Nat) :
    canvas.Leaves (if condition then canvas.advance framebuffer font background else canvas) :=
  Leaves.ite (leaves_advance framebuffer font canvas background)
    (leaves_cursor canvas canvas.cursorX canvas.cursorY)

/-- A new line leaves what stands above the cursor. -/
theorem leaves_newline (background : Nat) :
    canvas.Leaves (canvas.newline framebuffer font background) := by
  have lower := leaves_cursor canvas 0 (add64 canvas.cursorY font.height)
  apply Leaves.ite
  · have advanced := lower.trans (leaves_advance framebuffer font _ background)
    exact advanced.trans (leaves_cursor _ _ _)
  · exact lower

/-- A glyph leaves what stands above the cursor. -/
theorem leaves_glyph (print : Print) : canvas.Leaves (canvas.glyph framebuffer font print) := by
  have painted := leaves_paint framebuffer font canvas
    (glyphColor font print.char.toNat print.foreground print.background)
  have moved := painted.trans (leaves_cursor _ (add64 canvas.cursorX font.width) canvas.cursorY)
  refine Leaves.trans ?_ (leaves_advanceIf framebuffer font _ _ print.background)
  exact moved.trans (leaves_advanceIf framebuffer font _ _ print.background)

/-- A character leaves what stands above the cursor. -/
theorem leaves_write (print : Print) : canvas.Leaves (canvas.write framebuffer font print) := by
  have moves (x y : Nat) := leaves_cursor canvas x y
  apply Leaves.ite (moves 0 canvas.cursorY)
  apply Leaves.ite (leaves_newline framebuffer font canvas print.background)
  apply Leaves.ite
  · exact (moves (canvas.cursorX - font.width) canvas.cursorY).trans (leaves_paint framebuffer font _ _)
  apply Leaves.ite
  · exact Leaves.ite (moves _ _) (moves _ _)
  · exact Leaves.ite (leaves_glyph framebuffer font canvas print) (moves canvas.cursorX canvas.cursorY)

/-- A run of characters leaves what stands above the cursor. -/
theorem leaves_run (prints : List Print) :
    canvas.Leaves (prints.foldl (write framebuffer font) canvas) := by
  induction prints generalizing canvas with
  | nil => exact leaves_cursor canvas canvas.cursorX canvas.cursorY
  | cons print rest ih => exact (leaves_write framebuffer font canvas print).trans (ih _)

end Canvas

/-- Whatever is printed, with whatever font and from whatever cursor: the screen always shows the rows
from some row on of an endless page, on which each glyph has been painted once, in the cell where the
cursor stood, and rows that have left the screen never change again. -/
theorem putchars_show_page (framebuffer : Framebuffer) (font : Font) (screen : Screen)
    (prints later : List Print) :
    let page := prints.foldl (Canvas.write framebuffer font) (Canvas.ofScreen framebuffer screen)
    Shows framebuffer screen.pixels page (putchars framebuffer font prints screen) ∧
      page.Leaves (later.foldl (Canvas.write framebuffer font) page) := by
  intro page
  exact ⟨(shows_ofScreen framebuffer screen).run font prints,
    Canvas.leaves_run framebuffer font page later⟩

end ArchaOS.Terminal
