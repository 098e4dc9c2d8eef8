import ArchaOS.Library.ByteMemory
import ArchaOS.Library.Word64

/-
This file models DrawBMP of bootloader/uefi.c with its two header structures.
-/

namespace ArchaOS.Bitmap

open Library

section Headers

variable (bmp : Memory)

/-- `header->type` and `header->offset`, in an image whose first byte has address 0 -/
def type : Nat := bmp.read 0 2

def offset : Nat := bmp.read 10 4

/-- An `int32_t` field. -/
def int32 (position : Nat) : Int := (BitVec.ofNat 32 (bmp.read position 4)).toInt

/-- `info->width`, `info->height` and `info->bpp` -/
def infoWidth : Int := int32 bmp 18

def infoHeight : Int := int32 bmp 22

def bpp : Nat := bmp.read 28 2

end Headers

/-- The framebuffer is an array of `UINT32`. -/
abbrev Framebuffer := Nat → BitVec 32

/-- The arguments other than the framebuffer and the image. -/
structure Placement where
  fbWidth : Nat
  fbHeight : Nat
  pitch : Nat
  posX : Nat
  posY : Nat
  scale : Nat
  deriving DecidableEq, Repr

/-- The body of the innermost loop. -/
def drawWord (place : Placement) (x y sx sy : Nat) (color : BitVec 32) (fb : Framebuffer) : Framebuffer :=
  let drawX := add64 (add64 place.posX (mul64 x place.scale)) sx
  let drawY := add64 (add64 place.posY (mul64 y place.scale)) sy
  if drawX < place.fbWidth ∧ drawY < place.fbHeight then
    Function.update fb (add64 (mul64 drawY place.pitch) drawX) color
  else fb

/-- The loops over `sy` and `sx`. -/
def drawPixel (place : Placement) (x y : Nat) (color : BitVec 32) (fb : Framebuffer) : Framebuffer :=
  (List.range place.scale).foldl (fun fb sy =>
    (List.range place.scale).foldl (fun fb sx => drawWord place x y sx sy color fb) fb) fb

/-- `color` -/
def pixelColor (bmp : Memory) (pixel : Nat) : BitVec 32 :=
  ((bmp.byte (add64 pixel 2)).toBitVec.setWidth 32 <<< 16) |||
    ((bmp.byte (add64 pixel 1)).toBitVec.setWidth 32 <<< 8) |||
    (bmp.byte pixel).toBitVec.setWidth 32

/-- `DrawBMP`; the width and the height are positive where they are converted to `UINTN`. -/
def drawBmp (place : Placement) (bmp : Memory) (fb : Framebuffer) : Framebuffer :=
  if type bmp ≠ 0x4D42 then fb
  else if bpp bmp ≠ 24 then fb
  else
    let pixels := offset bmp
    if infoWidth bmp ≤ 0 ∨ infoHeight bmp ≤ 0 ∨ place.scale = 0 then fb
    else
      let width := (infoWidth bmp).toNat
      let height := (infoHeight bmp).toNat
      let rowSize := add64 (mul64 width 3) 3 &&& (2 ^ 64 - 1 - 3)
      (List.range height).foldl (fun fb y =>
        (List.range width).foldl (fun fb x =>
          let row := mul64 (sub64 (sub64 height 1) y) rowSize
          let pixel := add64 (add64 pixels row) (mul64 x 3)
          drawPixel place x y (pixelColor bmp pixel) fb) fb) fb

end ArchaOS.Bitmap
