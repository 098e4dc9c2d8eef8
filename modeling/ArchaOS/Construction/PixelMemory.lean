import ArchaOS.Construction.Terminal
import ArchaOS.Library.ByteMemory
import ArchaOS.Library.Traced

/-
This file models the pixel stores of kernel/graphics/graphics.c and the scroll of
kernel/graphics/terminal.c over a byte memory, with memmove of kernel/lib/string.c.
-/

namespace ArchaOS.Graphics

open Library

/-- The bytes that one load or store touches. -/
structure Access where
  address : Nat
  size : Nat
  deriving DecidableEq, Repr

/-- `*s` -/
def loadByte (memory : Memory) (s : Nat) : Traced Access UInt8 := ⟨[⟨s, 1⟩], memory.byte s⟩

/-- `*d = value` -/
def storeByte (memory : Memory) (d : Nat) (value : UInt8) : Traced Access Memory :=
  ⟨[⟨d, 1⟩], memory.store d value⟩

section Moving

/-- `*d++ = *s++` -/
def copyUp : Nat → Nat → Nat → Memory → Traced Access Memory
  | 0, _, _, memory => pure memory
  | n + 1, d, s, memory => do
      let value ← loadByte memory s
      let memory ← storeByte memory d value
      copyUp n (add64 d 1) (add64 s 1) memory

/-- `*--d = *--s` -/
def copyDown : Nat → Nat → Nat → Memory → Traced Access Memory
  | 0, _, _, memory => pure memory
  | n + 1, d, s, memory => do
      let d := sub64 d 1
      let s := sub64 s 1
      let value ← loadByte memory s
      let memory ← storeByte memory d value
      copyDown n d s memory

/-- `memmove` returns `dest`. -/
def memmove (dest src n : Nat) (memory : Memory) : Traced Access (Nat × Memory) :=
  (dest, ·) <$>
    if dest < src then copyUp n dest src memory
    else copyDown n (add64 dest n) (add64 src n) memory

end Moving

/-- `framebuffer_t`; its pixels are an object in the address space. -/
structure PixelBuffer where
  width : Nat
  height : Nat
  pitch : Nat
  address : Nat
  heightFits : height < 2 ^ 64
  addressFits : address < 2 ^ 64
  fits : address + height * pitch * 4 ≤ 2 ^ 64

/-- The address of element `index` of an array of `uint32_t`. -/
def word (array index : Nat) : Nat := add64 array (mul64 index 4)

/-- `buffer->address[(uint64_t)y * buffer->pitch + x] = color`, if the pixel is visible. -/
def storePixel (buffer : PixelBuffer) (x y color : BitVec 32) (memory : Memory) : Memory :=
  if x.toNat ≥ buffer.width ∨ y.toNat ≥ buffer.height then memory
  else
    memory.write (word buffer.address (add64 (mul64 y.toNat buffer.pitch) x.toNat)) 4 color.toNat

def putPixel (framebuffer : Option PixelBuffer) (x y color : BitVec 32) (memory : Memory) : Memory :=
  match framebuffer with
  | none => memory
  | some framebuffer => storePixel framebuffer x y color memory

def putPixelQ (framebuffer buffer : Option PixelBuffer) (x y color : BitVec 32) (memory : Memory) :
    Memory :=
  match framebuffer with
  | none => memory
  | some framebuffer => storePixel (buffer.getD framebuffer) x y color memory

/-- The loop that clears one row. -/
def clearRow (background : BitVec 32) (row pitch : Nat) (memory : Memory) : Traced Access Memory :=
  (List.range pitch).foldlM
    (fun memory x => ⟨[⟨word row x, 4⟩], memory.write (word row x) 4 background.toNat⟩) memory

def termScroll (background : BitVec 32) (font : Terminal.Font) (framebuffer : Option PixelBuffer)
    (memory : Memory) : Traced Access Memory :=
  match framebuffer with
  | none => pure memory
  | some framebuffer => do
      let pitch := framebuffer.pitch
      let height := framebuffer.height
      let lineHeight := font.height
      if lineHeight = 0 ∨ lineHeight ≥ height then return memory
      let buffer := framebuffer.address
      let (_, memory) ← memmove buffer (word buffer (mul64 lineHeight pitch))
        (mul64 (mul64 (sub64 height lineHeight) pitch) 4) memory
      let firstClearRow := sub64 height lineHeight
      (List.range' firstClearRow (height - firstClearRow)).foldlM
        (fun memory y => clearRow background (word buffer (mul64 y pitch)) pitch memory) memory

end ArchaOS.Graphics
