import ArchaOS.Construction.PixelMemory
import ArchaOS.Construction.Stdio

/-
This file models Putchar of kernel/graphics/terminal.c over a byte memory, and print of
kernel/lib/stdio.c on top of it.
-/

namespace ArchaOS.Output

open Library Graphics
open Terminal (Font mul32)

/-- `cursor_x`, `cursor_y` and the memory in which the framebuffer stands. -/
structure Console where
  cursorX : Nat
  cursorY : Nat
  memory : Memory

/-- The two loops that paint the cell at the cursor. -/
def paintCell (framebuffer : PixelBuffer) (font : Font) (color : Nat → Nat → BitVec 32)
    (console : Console) : Console :=
  (List.range font.height).foldl
    (fun console row => (List.range font.width).foldl
      (fun console col => { console with
        memory := putPixel (some framebuffer) (BitVec.ofNat 32 (add64 console.cursorX col))
          (BitVec.ofNat 32 (add64 console.cursorY row)) (color row col) console.memory }) console)
    console

def scroll (background : BitVec 32) (font : Font) (framebuffer : PixelBuffer) (console : Console) :
    Console :=
  { console with memory := (termScroll background font (some framebuffer) console.memory).value }

def ln (background : BitVec 32) (font : Font) (framebuffer : PixelBuffer) (console : Console) :
    Console :=
  let console := { console with cursorX := 0, cursorY := add64 console.cursorY font.height }
  if add64 console.cursorY font.height > framebuffer.height then
    { scroll background font framebuffer console with
      cursorY := sub64 framebuffer.height font.height }
  else console

/-- The color of one pixel of a glyph. -/
def glyphColor (font : Font) (index : Nat) (foreground background : BitVec 32) (row col : Nat) :
    BitVec 32 :=
  let bytes := (font.width + 7) % 2 ^ 32 / 8
  let byte := font.glyphs (mul32 index font.glyphsize + (row * bytes + col / 8) % 2 ^ 32)
  if byte &&& (0x80 >>> (col % 8)) ≠ 0 then foreground else background

def putchar (c : UInt8) (foreground background : BitVec 32) (font : Font)
    (framebuffer : Option PixelBuffer) (console : Console) : Console :=
  match framebuffer with
  | none => console
  | some framebuffer =>
      if c = 13 then { console with cursorX := 0 }
      else if c = 10 then ln background font framebuffer console
      else if c = 8 then
        let console := { console with
          cursorX := if console.cursorX ≥ font.width then console.cursorX - font.width else 0 }
        paintCell framebuffer font (fun _ _ => background) console
      else if c = 9 then
        let console := { console with cursorX := add64 console.cursorX (mul32 font.width 4) }
        if add64 console.cursorX font.width > framebuffer.width then
          { console with cursorX := 0, cursorY := add64 console.cursorY font.height }
        else console
      else if c.toNat ≥ font.glyphCount then console
      else
        let console := paintCell framebuffer font
          (glyphColor font c.toNat foreground background) console
        let console := { console with cursorX := add64 console.cursorX font.width }
        let console :=
          if add64 console.cursorX font.width > framebuffer.width then
            scroll background font framebuffer console
          else console
        if add64 console.cursorY font.height > framebuffer.height then
          scroll background font framebuffer console
        else console

/-- A call of `Putchar` with the colors of its pixels. -/
structure Print where
  char : UInt8
  foreground : BitVec 32
  background : BitVec 32
  deriving DecidableEq, Repr

/-- `Putchar` for a list of characters. -/
def putchars (framebuffer : Option PixelBuffer) (font : Font) (prints : List Print)
    (console : Console) : Console :=
  prints.foldl (fun console print =>
    putchar print.char print.foreground print.background font framebuffer console) console

/-- The colors that `print` gives to `Putchar`. -/
def printed (char : UInt8) : Print := ⟨char, 0xffffffff, 0x00102030⟩

end ArchaOS.Output
