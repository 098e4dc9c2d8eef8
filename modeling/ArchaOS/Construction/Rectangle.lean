import ArchaOS.Construction.PixelMemory

/-
This file models fill_rect and fill_rect_q of kernel/graphics/graphics.c and panic_screen of
kernel/errs/kernel_panic.c.
-/

namespace ArchaOS.Graphics

open Library

/-- The two loops that the functions share. -/
def rectLoop {State : Type} (plot : BitVec 32 → BitVec 32 → State → State) (sx sy dx dy : BitVec 32)
    (state : State) : State :=
  (List.range' sx.toNat (dx.toNat - sx.toNat)).foldl
    (fun state ix => (List.range' sy.toNat (dy.toNat - sy.toNat)).foldl
      (fun state iy => plot (BitVec.ofNat 32 ix) (BitVec.ofNat 32 iy) state) state) state

def fillRect (framebuffer : Option PixelBuffer) (sx sy dx dy color : BitVec 32) (memory : Memory) :
    Memory :=
  rectLoop (fun x y => putPixel framebuffer x y color) sx sy dx dy memory

def fillRectQ (framebuffer buffer : Option PixelBuffer) (sx sy dx dy color : BitVec 32)
    (memory : Memory) : Memory :=
  rectLoop (fun x y => putPixelQ framebuffer buffer x y color) sx sy dx dy memory

/-- `panic_screen`; the arguments are cut to 32 bits. -/
def panicScreen (framebuffer : PixelBuffer) (memory : Memory) : Memory :=
  fillRect (some framebuffer) (BitVec.ofNat 32 (add64 (framebuffer.width / 2) 100))
    (BitVec.ofNat 32 (add64 (framebuffer.height / 2) 50))
    (BitVec.ofNat 32 (sub64 (framebuffer.width / 2) 100))
    (BitVec.ofNat 32 (sub64 (framebuffer.height / 2) 50)) 0xFFFF8C15#32 memory

end ArchaOS.Graphics
