import ArchaOS.Library.Word64

/-
This file models the kernel terminal of kernel/graphics/terminal.c and the pixel store of
kernel/graphics/graphics.c.
-/

namespace ArchaOS.Terminal

open Library

/-- The geometry of `framebuffer_t`; its pixels fit into the address space. -/
structure Framebuffer where
  width : Nat
  height : Nat
  pitch : Nat
  row : width ≤ pitch
  room : height * pitch * 4 ≤ 2 ^ 64

/-- `font_t` with its 32-bit fields. -/
structure Font where
  glyphs : Nat → Nat
  glyphsize : Nat
  glyphCount : Nat
  width : Nat
  height : Nat
  widthFits : width < 2 ^ 32
  heightFits : height < 2 ^ 32

/-- The cursor and the pixels at `framebuffer_pb->address`. -/
structure Screen where
  cursorX : Nat
  cursorY : Nat
  pixels : Nat → Nat

/-- Unsigned 32-bit multiplication wraps around. -/
def mul32 (first second : Nat) : Nat := (first * second) % 2 ^ 32

def putPixel (framebuffer : Framebuffer) (x y color : Nat) (screen : Screen) : Screen :=
  let x := x % 2 ^ 32
  let y := y % 2 ^ 32
  if x ≥ framebuffer.width ∨ y ≥ framebuffer.height then screen
  else { screen with pixels := Function.update screen.pixels (y * framebuffer.pitch + x) color }

/-- The two loops that paint the cell at the cursor. -/
def paintCell (framebuffer : Framebuffer) (font : Font) (color : Nat → Nat → Nat)
    (screen : Screen) : Screen :=
  (List.range font.height).foldl
    (fun screen row => (List.range font.width).foldl
      (fun screen col => putPixel framebuffer (add64 screen.cursorX col) (add64 screen.cursorY row)
        (color row col) screen) screen) screen

def termScroll (background : Nat) (font : Font) (framebuffer : Framebuffer) (screen : Screen) :
    Screen :=
  let pitch := framebuffer.pitch
  let height := framebuffer.height
  let lineHeight := font.height
  if lineHeight = 0 ∨ lineHeight ≥ height then screen
  else
    let firstClearRow := height - lineHeight
    { screen with
      pixels := fun index =>
        if index < firstClearRow * pitch then screen.pixels (index + lineHeight * pitch)
        else if index < height * pitch then background
        else screen.pixels index }

def ln (background : Nat) (font : Font) (framebuffer : Framebuffer) (screen : Screen) : Screen :=
  let screen := { screen with cursorX := 0, cursorY := add64 screen.cursorY font.height }
  if add64 screen.cursorY font.height > framebuffer.height then
    { termScroll background font framebuffer screen with
      cursorY := sub64 framebuffer.height font.height }
  else screen

/-- The color of one pixel of a glyph. -/
def glyphColor (font : Font) (index foreground background row col : Nat) : Nat :=
  let bytes := (font.width + 7) % 2 ^ 32 / 8
  let byte := font.glyphs (mul32 index font.glyphsize + (row * bytes + col / 8) % 2 ^ 32)
  if byte &&& (0x80 >>> (col % 8)) ≠ 0 then foreground else background

def putchar (c : UInt8) (foreground background : Nat) (font : Font)
    (framebuffer : Option Framebuffer) (screen : Screen) : Screen :=
  match framebuffer with
  | none => screen
  | some framebuffer =>
      if c = 13 then { screen with cursorX := 0 }
      else if c = 10 then ln background font framebuffer screen
      else if c = 8 then
        let screen := { screen with
          cursorX := if screen.cursorX ≥ font.width then screen.cursorX - font.width else 0 }
        paintCell framebuffer font (fun _ _ => background) screen
      else if c = 9 then
        let screen := { screen with cursorX := add64 screen.cursorX (mul32 font.width 4) }
        if add64 screen.cursorX font.width > framebuffer.width then
          { screen with cursorX := 0, cursorY := add64 screen.cursorY font.height }
        else screen
      else if c.toNat ≥ font.glyphCount then screen
      else
        let screen := paintCell framebuffer font
          (glyphColor font c.toNat foreground background) screen
        let screen := { screen with cursorX := add64 screen.cursorX font.width }
        let screen :=
          if add64 screen.cursorX font.width > framebuffer.width then
            termScroll background font framebuffer screen
          else screen
        if add64 screen.cursorY font.height > framebuffer.height then
          termScroll background font framebuffer screen
        else screen

end ArchaOS.Terminal
