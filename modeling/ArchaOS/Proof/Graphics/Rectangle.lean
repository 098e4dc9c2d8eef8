import ArchaOS.Construction.Rectangle
import ArchaOS.Library.PointLoop
import ArchaOS.Proof.Graphics.Scrolling

namespace ArchaOS.Graphics

open Library

/-- The rows of the buffer do not overlap. -/
def PixelBuffer.Proper (buffer : PixelBuffer) : Prop := buffer.width ≤ buffer.pitch

/-- The pixel lies in the rectangle, whose right and lower edges are open. -/
structure InRect (sx sy dx dy : BitVec 32) (x y : Nat) : Prop where
  left : sx.toNat ≤ x
  right : x < dx.toNat
  upper : sy.toNat ≤ y
  lower : y < dy.toNat

instance (sx sy dx dy : BitVec 32) (x y : Nat) : Decidable (InRect sx sy dx dy x y) :=
  decidable_of_iff (sx.toNat ≤ x ∧ x < dx.toNat ∧ sy.toNat ≤ y ∧ y < dy.toNat)
    ⟨fun ⟨left, right, upper, lower⟩ => ⟨left, right, upper, lower⟩,
      fun ⟨left, right, upper, lower⟩ => ⟨left, right, upper, lower⟩⟩

/-- The visible pixels of a shape have the color, and every byte outside of them is unchanged. -/
structure Paints (buffer : PixelBuffer) (shape : Nat → Nat → Prop) [∀ x y, Decidable (shape x y)]
    (color : BitVec 32) (before after : Memory) : Prop where
  pixels : ∀ x < buffer.width, ∀ y < buffer.height, buffer.pixel after x y =
    if shape x y then color.toNat else buffer.pixel before x y
  other : ∀ byte, (∀ x < buffer.width, ∀ y < buffer.height, shape x y →
      byte < buffer.address + 4 * (y * buffer.pitch + x) ∨
        buffer.address + 4 * (y * buffer.pitch + x) + 4 ≤ byte) →
    after.byte byte = before.byte byte

/-- A loop over memories, byte by byte. -/
theorem foldl_byte {Item : Type} (turn : Item → Memory → Memory) (items : List Item) (memory : Memory) :
    (items.foldl (fun memory item => turn item memory) memory).byte =
      items.foldl (fun bytes item => (turn item ⟨bytes⟩).byte) memory.byte := by
  induction items generalizing memory with
  | nil => rfl
  | cons item rest ih => exact ih (turn item memory)

/-- Turns that change nothing add up to no change. -/
theorem foldl_still {State Item : Type} {turn : State → Item → State} {items : List Item}
    (still : ∀ item ∈ items, ∀ state, turn state item = state) (state : State) :
    items.foldl turn state = state := by
  induction items with
  | nil => rfl
  | cons item rest ih =>
      rw [List.forall_mem_cons] at still
      rw [List.foldl_cons, still.1 state, ih still.2]

section Loops

variable {buffer : PixelBuffer} (proper : buffer.Proper)

include proper in
/-- A visible pixel has its own word in the buffer. -/
theorem pixelWord_eq {x y : Nat} (column : x < buffer.width) (row : y < buffer.height) :
    word buffer.address (add64 (mul64 y buffer.pitch) x) =
      buffer.address + 4 * (y * buffer.pitch + x) ∧
    buffer.address + 4 * (y * buffer.pitch + x) + 4 ≤ 2 ^ 64 := by
  have fits := buffer.fits
  have narrow : buffer.width ≤ buffer.pitch := proper
  have last : (y + 1) * buffer.pitch ≤ buffer.height * buffer.pitch := Nat.mul_le_mul_right _ row
  rw [Nat.add_mul, Nat.one_mul] at last
  rw [mul64_eq (by omega), add64_eq (by omega), word_eq (by omega)]
  exact ⟨rfl, by omega⟩

/-- The byte belongs to the pixel. -/
def Within (buffer : PixelBuffer) (x y byte : Nat) : Prop :=
  buffer.address + 4 * (y * buffer.pitch + x) ≤ byte ∧
    byte < buffer.address + 4 * (y * buffer.pitch + x) + 4

include proper in
/-- One pixel gives its bytes those of the color. -/
theorem storePixel_sets (x y color : BitVec 32) (byte : Nat) :
    SetsWhen byte (UInt8.ofNat (color.toNat / 256 ^ ((byte - buffer.address) % 4)))
      ((x.toNat < buffer.width ∧ y.toNat < buffer.height) ∧ Within buffer x.toNat y.toNat byte)
      fun bytes => (storePixel buffer x y color ⟨bytes⟩).byte := by
  constructor
  · rintro ⟨⟨column, row⟩, lower, upper⟩ bytes
    rw [storePixel, if_neg (by omega), (pixelWord_eq proper column row).1]
    have offset : byte - (buffer.address + 4 * (y.toNat * buffer.pitch + x.toNat)) =
        (byte - buffer.address) % 4 := by omega
    simp [Memory.write, lower, upper, offset]
  · intro missed bytes
    unfold storePixel
    split
    · rfl
    · rename_i visible
      have inside : x.toNat < buffer.width ∧ y.toNat < buffer.height := by omega
      rw [(pixelWord_eq proper inside.1 inside.2).1]
      refine Memory.write_outside ?_
      by_contra within
      exact missed ⟨inside, by omega, by omega⟩

include proper in
/-- The loops set a byte exactly when its pixel lies in the rectangle and on the screen. -/
theorem rectLoop_sets (sx sy dx dy color : BitVec 32) (byte : Nat) :
    SetsWhen byte (UInt8.ofNat (color.toNat / 256 ^ ((byte - buffer.address) % 4)))
      (∃ x y, InRect sx sy dx dy x y ∧ (x < buffer.width ∧ y < buffer.height) ∧
        Within buffer x y byte)
      fun bytes => (rectLoop (fun x y => storePixel buffer x y color) sx sy dx dy ⟨bytes⟩).byte := by
  have bytewise : (fun bytes : Nat → UInt8 =>
      (rectLoop (fun x y => storePixel buffer x y color) sx sy dx dy ⟨bytes⟩).byte) =
      fun bytes => (List.range' sx.toNat (dx.toNat - sx.toNat)).foldl
        (fun bytes ix => (List.range' sy.toNat (dy.toNat - sy.toNat)).foldl
          (fun bytes iy => (storePixel buffer (BitVec.ofNat 32 ix) (BitVec.ofNat 32 iy) color
            ⟨bytes⟩).byte) bytes) bytes := by
    funext bytes
    simp only [rectLoop, foldl_byte]
  rw [bytewise]
  refine SetsWhen.congr (SetsWhen.loop fun ix _ => SetsWhen.loop fun iy _ =>
    storePixel_sets proper (BitVec.ofNat 32 ix) (BitVec.ofNat 32 iy) color byte) ?_
  have small := dx.isLt
  have low := dy.isLt
  simp only [List.mem_range'_1]
  constructor
  · rintro ⟨x, y, ⟨left, right, upper, lower⟩, visible⟩
    refine ⟨x, by omega, y, by omega, ?_⟩
    rwa [BitVec.toNat_ofNat, BitVec.toNat_ofNat, Nat.mod_eq_of_lt (by omega), Nat.mod_eq_of_lt (by omega)]
  · rintro ⟨x, across, y, down, visible⟩
    rw [BitVec.toNat_ofNat, BitVec.toNat_ofNat, Nat.mod_eq_of_lt (by omega),
      Nat.mod_eq_of_lt (by omega)] at visible
    exact ⟨x, y, ⟨by omega, by omega, by omega, by omega⟩, visible⟩

/-- Only one pixel can hold a byte. -/
theorem within_inj {x y x' y' byte : Nat} (column : x < buffer.pitch) (column' : x' < buffer.pitch)
    (within : Within buffer x y byte) (within' : Within buffer x' y' byte) : x' = x ∧ y' = y := by
  unfold Within at within within'
  have same : y' * buffer.pitch + x' = y * buffer.pitch + x := by omega
  rcases Nat.lt_trichotomy y y' with above | rfl | below
  · have next : (y + 1) * buffer.pitch ≤ y' * buffer.pitch := Nat.mul_le_mul_right _ above
    rw [Nat.add_mul, Nat.one_mul] at next
    omega
  · exact ⟨by omega, rfl⟩
  · have next : (y' + 1) * buffer.pitch ≤ y * buffer.pitch := Nat.mul_le_mul_right _ below
    rw [Nat.add_mul, Nat.one_mul] at next
    omega

include proper in
/-- A loop that paints a shape byte by byte paints it pixel by pixel. -/
theorem paints_of_sets {shape : Nat → Nat → Prop} [∀ x y, Decidable (shape x y)] {color : BitVec 32}
    (turn : (Nat → UInt8) → Nat → UInt8) {memory after : Memory} (result : turn memory.byte = after.byte)
    (sets : ∀ byte, SetsWhen byte (UInt8.ofNat (color.toNat / 256 ^ ((byte - buffer.address) % 4)))
      (∃ x y, shape x y ∧ (x < buffer.width ∧ y < buffer.height) ∧ Within buffer x y byte) turn) :
    Paints buffer shape color memory after := by
  have narrow : buffer.width ≤ buffer.pitch := proper
  constructor
  · intro x column y row
    rw [PixelBuffer.pixel, PixelBuffer.word, PixelBuffer.pixel, PixelBuffer.word]
    by_cases inside : shape x y
    · have stored : after.read (buffer.address + 4 * (y * buffer.pitch + x)) 4 =
          (memory.write (buffer.address + 4 * (y * buffer.pitch + x)) 4 color.toNat).read
            (buffer.address + 4 * (y * buffer.pitch + x)) 4 := by
        apply Memory.read_congr
        intro byte lower upper
        have painted := (sets byte).sets ⟨x, y, inside, ⟨column, row⟩, lower, upper⟩ memory.byte
        have offset : byte - (buffer.address + 4 * (y * buffer.pitch + x)) =
            (byte - buffer.address) % 4 := by omega
        rw [← result, painted]
        simp [Memory.write, lower, upper, offset]
      rw [if_pos inside, stored, Memory.read_write_same]
      exact Nat.mod_eq_of_lt color.isLt
    · rw [if_neg inside]
      apply Memory.read_congr
      intro byte lower upper
      rw [← result]
      refine (sets byte).keeps ?_ memory.byte
      rintro ⟨x', y', inside', ⟨column', _⟩, within⟩
      obtain ⟨rfl, rfl⟩ := within_inj (x := x) (y := y) (by omega) (by omega) ⟨lower, upper⟩ within
      exact inside inside'
  · intro byte apart
    rw [← result]
    refine (sets byte).keeps ?_ memory.byte
    rintro ⟨x, y, inside, ⟨column, row⟩, lower, upper⟩
    have away := apart x column y row inside
    omega

include proper in
/-- The loops fill the rectangle and leave the rest. -/
theorem rectLoop_fills (sx sy dx dy color : BitVec 32) (memory : Memory) :
    Paints buffer (InRect sx sy dx dy) color memory
      (rectLoop (fun x y => storePixel buffer x y color) sx sy dx dy memory) :=
  paints_of_sets proper _ rfl (rectLoop_sets proper sx sy dx dy color)

end Loops

/-- A rectangle of pixels that change nothing. -/
theorem rectLoop_still {State : Type} {plot : BitVec 32 → BitVec 32 → State → State}
    {sx sy dx dy : BitVec 32}
    (still : ∀ x y : BitVec 32, InRect sx sy dx dy x.toNat y.toNat → ∀ state, plot x y state = state)
    (state : State) : rectLoop plot sx sy dx dy state = state := by
  have small := dx.isLt
  have low := dy.isLt
  unfold rectLoop
  refine foldl_still ?_ state
  intro x across state
  refine foldl_still ?_ state
  intro y down state
  rw [List.mem_range'_1] at across down
  apply still
  rw [BitVec.toNat_ofNat, BitVec.toNat_ofNat, Nat.mod_eq_of_lt (by omega), Nat.mod_eq_of_lt (by omega)]
  exact ⟨by omega, by omega, by omega, by omega⟩

/-- `fill_rect` and `fill_rect_q` give exactly the visible pixels of the half-open rectangle their
color, on the screen or on the buffer that they are given, and leave every other byte alone. Without a
framebuffer they do nothing. -/
theorem fillRect_fills (framebuffer buffer : Option PixelBuffer) (sx sy dx dy color : BitVec 32)
    (memory : Memory) :
    (∀ screen, framebuffer = some screen → screen.Proper →
      Paints screen (InRect sx sy dx dy) color memory (fillRect framebuffer sx sy dx dy color memory)) ∧
    (∀ screen, framebuffer = some screen → (buffer.getD screen).Proper →
      Paints (buffer.getD screen) (InRect sx sy dx dy) color memory
        (fillRectQ framebuffer buffer sx sy dx dy color memory)) ∧
    (framebuffer = none → fillRect framebuffer sx sy dx dy color memory = memory ∧
      fillRectQ framebuffer buffer sx sy dx dy color memory = memory) := by
  refine ⟨?_, ?_, ?_⟩
  · rintro screen rfl proper
    exact rectLoop_fills proper sx sy dx dy color memory
  · rintro screen rfl proper
    exact rectLoop_fills proper sx sy dx dy color memory
  · rintro rfl
    exact ⟨rectLoop_still (fun _ _ _ _ => rfl) memory, rectLoop_still (fun _ _ _ _ => rfl) memory⟩

/-- A buffer of two rows, of which only three of four words are visible. -/
def smallBuffer : PixelBuffer := ⟨3, 2, 4, 16, by decide, by decide, by decide⟩

/-- A rectangle that leaves the screen is filled as far as it is on it. -/
theorem fillRect_fills_smallBuffer :
    Paints smallBuffer (InRect 1 0 9 1) 7 ⟨fun _ => 0⟩ (fillRect (some smallBuffer) 1 0 9 1 7 ⟨fun _ => 0⟩) ∧
    Paints smallBuffer (InRect 1 0 9 1) 7 ⟨fun _ => 0⟩
      (fillRectQ (some smallBuffer) none 1 0 9 1 7 ⟨fun _ => 0⟩) := by
  have proper : smallBuffer.Proper := by
    unfold PixelBuffer.Proper
    decide
  have fills := fillRect_fills (some smallBuffer) none 1 0 9 1 7 ⟨fun _ => 0⟩
  exact ⟨fills.1 smallBuffer rfl proper, fills.2.1 smallBuffer rfl proper⟩

/-- The orange box of a kernel panic never appears: its left edge lies behind its right edge, and on a
screen of less than two hundred columns, where the right edge wraps around, behind the screen. -/
theorem panicScreen_invisible (framebuffer : PixelBuffer) (narrow : framebuffer.width < 2 ^ 32)
    (memory : Memory) : panicScreen framebuffer memory = memory := by
  have left : (BitVec.ofNat 32 (add64 (framebuffer.width / 2) 100)).toNat =
      framebuffer.width / 2 + 100 := by
    rw [BitVec.toNat_ofNat, add64_eq (by omega), Nat.mod_eq_of_lt (by omega)]
  unfold panicScreen fillRect
  refine rectLoop_still ?_ memory
  intro x y inside unchanged
  have across := inside.left
  have right := inside.right
  rw [left] at across
  refine if_pos (Or.inl ?_)
  by_cases wide : 100 ≤ framebuffer.width / 2
  · rw [BitVec.toNat_ofNat, sub64_eq wide (by omega), Nat.mod_eq_of_lt (by omega)] at right
    omega
  · omega

end ArchaOS.Graphics
