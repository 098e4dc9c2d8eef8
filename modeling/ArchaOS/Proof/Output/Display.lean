import ArchaOS.Construction.Output
import ArchaOS.Proof.Graphics.Rectangle
import ArchaOS.Proof.Terminal.Canvas

namespace ArchaOS.Output

open Library Graphics
open Terminal (Font)

/-- The words of a buffer are those of a screen, and no byte outside of them has changed. -/
structure Displays (buffer : PixelBuffer) (before : Memory) (console : Console)
    (screen : Terminal.Screen) : Prop where
  cursorX : console.cursorX = screen.cursorX
  cursorY : console.cursorY = screen.cursorY
  pixels : buffer.word console.memory = screen.pixels
  outside : ∀ byte, byte < buffer.address ∨ buffer.address + 4 * (buffer.pitch * buffer.height) ≤ byte →
    console.memory.byte byte = before.byte byte

/-- The source takes the same branch for both. -/
theorem Displays.branch {buffer : PixelBuffer} {before : Memory} {test : Prop} [Decidable test]
    {console other : Console} {screen screen' : Terminal.Screen}
    (yes : test → Displays buffer before console screen)
    (no : ¬ test → Displays buffer before other screen') :
    Displays buffer before (if test then console else other) (if test then screen else screen') := by
  by_cases taken : test
  · rw [if_pos taken, if_pos taken]
    exact yes taken
  · rw [if_neg taken, if_neg taken]
    exact no taken

/-- A store of one word changes that word alone. -/
theorem word_write (buffer : PixelBuffer) (memory : Memory) (index : Nat) (color : BitVec 32) :
    buffer.word (memory.write (buffer.address + 4 * index) 4 color.toNat) =
      Function.update (buffer.word memory) index color.toNat := by
  have fits : color.toNat % 256 ^ 4 = color.toNat := Nat.mod_eq_of_lt color.isLt
  funext other
  by_cases same : other = index
  · rw [same, Function.update_self, PixelBuffer.word, Memory.read_write_same, fits]
  · rw [Function.update_of_ne same, PixelBuffer.word, Memory.read_write_apart (by omega)]
    rfl

section Drawing

variable {buffer : PixelBuffer} (proper : buffer.Proper) (font : Font) {before : Memory}
  {console : Console} {screen : Terminal.Screen} (displays : Displays buffer before console screen)
include displays

/-- The cursors move together. -/
theorem Displays.moveTo (cursorX cursorY : Nat) :
    Displays buffer before { console with cursorX := cursorX, cursorY := cursorY }
      { screen with cursorX := cursorX, cursorY := cursorY } :=
  ⟨rfl, rfl, displays.pixels, displays.outside⟩

/-- The cursors move together along a row. -/
theorem Displays.across (cursorX : Nat) : Displays buffer before { console with cursorX := cursorX }
    { screen with cursorX := cursorX } :=
  ⟨rfl, displays.cursorY, displays.pixels, displays.outside⟩

/-- A pixel is stored in the memory and on the screen. -/
theorem Displays.putPixel (x y : Nat) (color : BitVec 32) :
    Displays buffer before
      { console with
        memory := Graphics.putPixel (some buffer) (BitVec.ofNat 32 x) (BitVec.ofNat 32 y) color
          console.memory }
      (Terminal.putPixel (buffer.framebuffer proper) x y color.toNat screen) := by
  have column : (BitVec.ofNat 32 x).toNat = x % 2 ^ 32 := BitVec.toNat_ofNat _ _
  have row : (BitVec.ofNat 32 y).toNat = y % 2 ^ 32 := BitVec.toNat_ofNat _ _
  by_cases hidden : x % 2 ^ 32 ≥ buffer.width ∨ y % 2 ^ 32 ≥ buffer.height
  · have still : storePixel buffer (BitVec.ofNat 32 x) (BitVec.ofNat 32 y) color console.memory =
        console.memory := by
      rw [storePixel, column, row, if_pos hidden]
    rw [Graphics.putPixel, still, Terminal.putPixel]
    exact (if_pos hidden).symm ▸ displays
  · have inside : x % 2 ^ 32 < buffer.width ∧ y % 2 ^ 32 < buffer.height := by omega
    have narrow : buffer.width ≤ buffer.pitch := proper
    have last : (y % 2 ^ 32 + 1) * buffer.pitch ≤ buffer.height * buffer.pitch :=
      Nat.mul_le_mul_right _ inside.2
    rw [Nat.add_mul, Nat.one_mul, Nat.mul_comm buffer.height] at last
    have stored : storePixel buffer (BitVec.ofNat 32 x) (BitVec.ofNat 32 y) color console.memory =
        console.memory.write (buffer.address + 4 * (y % 2 ^ 32 * buffer.pitch + x % 2 ^ 32)) 4
          color.toNat := by
      rw [storePixel, column, row, if_neg hidden, (pixelWord_eq proper inside.1 inside.2).1]
    have drawn : Terminal.putPixel (buffer.framebuffer proper) x y color.toNat screen =
        { screen with
          pixels := Function.update screen.pixels (y % 2 ^ 32 * buffer.pitch + x % 2 ^ 32)
            color.toNat } := if_neg hidden
    rw [Graphics.putPixel, stored, drawn]
    refine ⟨displays.cursorX, displays.cursorY, ?_, ?_⟩
    · dsimp only
      rw [word_write, displays.pixels]
    · intro byte outside
      rw [← displays.outside byte outside]
      exact Memory.write_outside (by omega)

/-- Painting a cell, pixel by pixel. -/
theorem Displays.paintCell (color : Nat → Nat → BitVec 32) :
    Displays buffer before (Output.paintCell buffer font color console)
      (Terminal.paintCell (buffer.framebuffer proper) font (fun row col => (color row col).toNat)
        screen) := by
  refine List.foldl_rel (r := Displays buffer before) displays ?_
  intro row _ console screen displays
  refine List.foldl_rel (r := Displays buffer before) displays ?_
  intro col _ console screen displays
  rw [← displays.cursorX, ← displays.cursorY]
  exact displays.putPixel proper _ _ _

/-- The memory and the screen scroll together. -/
theorem Displays.scroll (background : BitVec 32) :
    Displays buffer before (Output.scroll background font buffer console)
      (Terminal.termScroll background.toNat font (buffer.framebuffer proper) screen) := by
  have same : buffer.screen console.memory console.cursorX console.cursorY = screen := by
    obtain ⟨cursorX, cursorY, pixels, _⟩ := displays
    cases screen
    simp_all [PixelBuffer.screen]
  have refined := termScroll_refines background font buffer proper console.memory console.cursorX
    console.cursorY
  rw [same] at refined
  rw [← refined]
  refine ⟨rfl, rfl, rfl, ?_⟩
  intro byte outside
  rw [← displays.outside byte outside]
  change (termScroll background font (some buffer) console.memory).value.byte byte = _
  by_cases none : font.height = 0 ∨ buffer.height ≤ font.height
  · rw [termScroll_none background font buffer console.memory none]
    rfl
  · rw [(termScroll_eq background console.memory (by omega) (by omega)).1]
    exact scrolled_outside background console.memory (by omega) outside

/-- A scroll that depends on the cursor. -/
theorem Displays.scrollWhen (background : BitVec 32) (test : Prop) [Decidable test] :
    Displays buffer before (if test then Output.scroll background font buffer console else console)
      (if test then Terminal.termScroll background.toNat font (buffer.framebuffer proper) screen
        else screen) :=
  Displays.branch (fun _ => displays.scroll proper font background) fun _ => displays

/-- The memory and the screen start a new line together. -/
theorem Displays.ln (background : BitVec 32) :
    Displays buffer before (Output.ln background font buffer console)
      (Terminal.ln background.toNat font (buffer.framebuffer proper) screen) := by
  have moved := displays.moveTo 0 (add64 screen.cursorY font.height)
  unfold Output.ln Terminal.ln
  rw [displays.cursorY]
  refine Displays.branch (fun full => ?_) fun room => moved
  have scrolled : Displays buffer before _ _ := moved.scroll proper font background
  exact ⟨scrolled.cursorX, rfl, scrolled.pixels, scrolled.outside⟩

omit displays in
/-- The color of a glyph is the same in both models. -/
theorem glyphColor_toNat (index : Nat) (foreground background : BitVec 32) (row col : Nat) :
    (glyphColor font index foreground background row col).toNat =
      Terminal.glyphColor font index foreground.toNat background.toNat row col := by
  unfold glyphColor Terminal.glyphColor
  dsimp only
  split <;> rfl

/-- `Putchar` does to the bytes what it does to the words. -/
theorem Displays.putchar (c : UInt8) (foreground background : BitVec 32) :
    Displays buffer before (Output.putchar c foreground background font (some buffer) console)
      (Terminal.putchar c foreground.toNat background.toNat font (some (buffer.framebuffer proper))
        screen) := by
  unfold Output.putchar Terminal.putchar
  dsimp only
  refine Displays.branch (fun _ => displays.across 0) fun _ => ?_
  refine Displays.branch (fun _ => displays.ln proper font background) fun _ => ?_
  rw [displays.cursorX]
  refine Displays.branch (fun _ => ?_) fun _ => ?_
  · exact (displays.across _).paintCell proper font _
  refine Displays.branch (fun _ => ?_) fun _ => ?_
  · have moved := displays.moveTo (add64 screen.cursorX (Terminal.mul32 font.width 4)) screen.cursorY
    rw [displays.cursorY]
    exact Displays.branch (fun _ => moved.moveTo _ _) fun _ => moved
  refine Displays.branch (fun _ => displays) fun _ => ?_
  have painted := displays.paintCell proper font
    (glyphColor font c.toNat foreground background)
  simp only [glyphColor_toNat] at painted
  have moved := painted.across (add64 (Output.paintCell buffer font
    (glyphColor font c.toNat foreground background) console).cursorX font.width)
  rw [painted.cursorX] at moved ⊢
  have wrapped := moved.scrollWhen proper font background
    (add64 (add64 (Terminal.paintCell (buffer.framebuffer proper) font
      (Terminal.glyphColor font c.toNat foreground.toNat background.toNat) screen).cursorX font.width)
        font.width > buffer.width)
  rw [wrapped.cursorY]
  exact wrapped.scrollWhen proper font background _

end Drawing

/-- The call of `Putchar` as the words of the screen see it. -/
def Print.shown (print : Print) : Terminal.Print :=
  ⟨print.char, print.foreground.toNat, print.background.toNat⟩

/-- The memory and the screen show the same characters. -/
theorem Displays.putchars {buffer : PixelBuffer} (proper : buffer.Proper) (font : Font)
    {before : Memory} {console : Console} {screen : Terminal.Screen}
    (displays : Displays buffer before console screen) (prints : List Print) :
    Displays buffer before (Output.putchars (some buffer) font prints console)
      (Terminal.putchars (buffer.framebuffer proper) font (prints.map Print.shown) screen) := by
  induction prints generalizing console screen with
  | nil => exact displays
  | cons print rest ih =>
      exact ih (displays.putchar proper font print.char print.foreground print.background)

/-- Every framebuffer displays the screen that it holds. -/
theorem displays_screen (buffer : PixelBuffer) (console : Console) :
    Displays buffer console.memory console
      (buffer.screen console.memory console.cursorX console.cursorY) :=
  ⟨rfl, rfl, rfl, fun _ _ => rfl⟩

/-- Whatever is printed: the bytes of the framebuffer hold the screen of the terminal's words, with the
same cursor, and no other byte of memory changes; without a framebuffer nothing changes. -/
theorem putchars_refine (buffer : PixelBuffer) (proper : buffer.Proper) (font : Font)
    (prints : List Print) (console : Console) :
    Displays buffer console.memory (putchars (some buffer) font prints console)
        (Terminal.putchars (buffer.framebuffer proper) font (prints.map Print.shown)
          (buffer.screen console.memory console.cursorX console.cursorY)) ∧
      putchars none font prints console = console := by
  constructor
  · exact (displays_screen buffer console).putchars proper font prints
  · induction prints with
    | nil => rfl
    | cons print rest ih => exact ih

/-- A line feed on a screen of two rows scrolls it. -/
theorem putchars_refine_smallBuffer :
    let font : Font := ⟨fun _ => 0xFF, 1, 128, 1, 1, by decide, by decide⟩
    let prints := [65, 10, 10].map printed
    Displays smallBuffer ⟨fun _ => 0⟩ (putchars (some smallBuffer) font prints ⟨0, 0, ⟨fun _ => 0⟩⟩)
        (Terminal.putchars (smallBuffer.framebuffer (by decide)) font (prints.map Print.shown)
          (smallBuffer.screen ⟨fun _ => 0⟩ 0 0)) ∧
      putchars none font prints ⟨0, 0, ⟨fun _ => 0⟩⟩ = ⟨0, 0, ⟨fun _ => 0⟩⟩ := by
  intro font prints
  have proper : smallBuffer.Proper := by
    unfold PixelBuffer.Proper
    decide
  exact putchars_refine smallBuffer proper font prints ⟨0, 0, ⟨fun _ => 0⟩⟩

end ArchaOS.Output
