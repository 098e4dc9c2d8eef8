import ArchaOS.Proof.Graphics.Moving

namespace ArchaOS.Graphics

open Library Traced

/-- The value of the word `index` of the framebuffer. -/
def PixelBuffer.word (buffer : PixelBuffer) (memory : Memory) (index : Nat) : Nat :=
  memory.read (buffer.address + 4 * index) 4

/-- The pixel in column `x` of row `y` -/
def PixelBuffer.pixel (buffer : PixelBuffer) (memory : Memory) (x y : Nat) : Nat :=
  buffer.word memory (y * buffer.pitch + x)

/-- An access to the first `pitch * height` words -/
def PixelBuffer.Covers (buffer : PixelBuffer) (access : Access) : Prop :=
  buffer.address ≤ access.address ∧
    access.address + access.size ≤ buffer.address + 4 * (buffer.pitch * buffer.height)

/-- The address of a pixel does not wrap around. -/
theorem word_eq {array index : Nat} (fits : array + 4 * index < 2 ^ 64) :
    word array index = array + 4 * index := by
  rw [word, mul64_eq (by omega), add64_eq (by omega), Nat.mul_comm index 4]

section Clearing

variable (background : BitVec 32)

/-- Clearing a row fills it with the background. -/
theorem clearRow_value {row pitch : Nat} (fits : row + 4 * pitch ≤ 2 ^ 64) (memory : Memory) :
    (clearRow background row pitch memory).value =
      memory.fillWords row 4 pitch background.toNat := by
  rw [clearRow, value_foldlM]
  induction pitch with
  | zero => exact (Memory.fillWords_zero memory row 4 background.toNat).symm
  | succ pitch ih =>
      rw [List.range_succ, List.foldl_append, ih (by omega), List.foldl_cons, List.foldl_nil,
        word_eq (by omega), Memory.write_eq_fillWords, Memory.fillWords_append]

/-- Every access of a cleared row lies in the row. -/
theorem clearRow_all {row pitch : Nat} {holds : Access → Prop} (fits : row + 4 * pitch ≤ 2 ^ 64)
    (each : ∀ x < pitch, holds ⟨row + 4 * x, 4⟩) (memory : Memory) :
    All holds (clearRow background row pitch memory) := by
  apply all_foldlM
  intro x inside memory access member
  have column := List.mem_range.mp inside
  rw [List.mem_singleton.mp member, word_eq (by omega)]
  exact each x column

/-- The start of a row -/
theorem row_eq {array pitch y : Nat} (start : array < 2 ^ 64)
    (fits : array + 4 * ((y + 1) * pitch) ≤ 2 ^ 64) :
    word array (mul64 y pitch) = array + 4 * (y * pitch) := by
  have next : (y + 1) * pitch = y * pitch + pitch := Nat.succ_mul y pitch
  have below : array + 4 * (y * pitch) < 2 ^ 64 := by
    cases pitch with
    | zero => exact start
    | succ pitch => omega
  rw [mul64_eq (by omega), word_eq below]

/-- Rows that stand one behind the other are cleared as one range of words. -/
theorem clearRows_value {array pitch first count : Nat} (start : array < 2 ^ 64)
    (fits : array + 4 * ((first + count) * pitch) ≤ 2 ^ 64) (memory : Memory) :
    (List.range' first count).foldl
        (fun memory y => (clearRow background (word array (mul64 y pitch)) pitch memory).value) memory =
      memory.fillWords (array + 4 * (first * pitch)) 4 (count * pitch) background.toNat := by
  induction count with
  | zero =>
      rw [Nat.zero_mul, Memory.fillWords_zero]
      rfl
  | succ count ih =>
      have next : (first + count + 1) * pitch = (first + count) * pitch + pitch := Nat.succ_mul _ _
      have position : array + 4 * ((first + count) * pitch) =
          array + 4 * (first * pitch) + 4 * (count * pitch) := by ring
      rw [← Nat.add_assoc] at fits
      rw [List.range'_1_concat, List.foldl_append, ih (by omega), List.foldl_cons, List.foldl_nil,
        row_eq start fits, clearRow_value background (by omega), position, Memory.fillWords_append,
        Nat.succ_mul count]

end Clearing

section Scroll

variable (background : BitVec 32) (font : Terminal.Font) (buffer : PixelBuffer) (memory : Memory)

/-- The memory after the scroll: the lower rows are moved up, and the rows that they leave are filled. -/
def scrolled : Memory :=
  let kept := (buffer.height - font.height) * buffer.pitch
  (memory.move buffer.address (buffer.address + 4 * (font.height * buffer.pitch)) (4 * kept)).fillWords
    (buffer.address + 4 * kept) 4 (font.height * buffer.pitch) background.toNat

/-- Nothing is read or written for a font without a height, or one as high as the screen. -/
theorem termScroll_none (large : font.height = 0 ∨ buffer.height ≤ font.height) :
    termScroll background font (some buffer) memory = pure memory := if_pos large

variable {font} {buffer}

/-- Each row of the screen stands in the buffer. -/
theorem row_fits {y : Nat} (inside : y < buffer.height) :
    buffer.address + 4 * ((y + 1) * buffer.pitch) ≤ 2 ^ 64 := by
  have rows : (y + 1) * buffer.pitch ≤ buffer.height * buffer.pitch := Nat.mul_le_mul_right _ inside
  have fits := buffer.fits
  omega

section Sizes

variable (positive : 0 < font.height) (small : font.height < buffer.height)
include small

/-- The words of the rows that are kept, and of those that are cleared. -/
theorem kept_add : (buffer.height - font.height) * buffer.pitch + font.height * buffer.pitch =
    buffer.height * buffer.pitch := by
  rw [← Nat.add_mul, Nat.sub_add_cancel (Nat.le_of_lt small)]

include positive

/-- The number of bytes that `memmove` gets. -/
theorem moved_size : mul64 (mul64 (sub64 buffer.height font.height) buffer.pitch) 4 =
    4 * ((buffer.height - font.height) * buffer.pitch) := by
  have whole := kept_add small
  have fits := buffer.fits
  have height := buffer.heightFits
  have below : 4 * ((buffer.height - font.height) * buffer.pitch) < 2 ^ 64 := by
    cases empty : buffer.pitch with
    | zero => simp
    | succ rest =>
        have cleared : 0 < font.height * (rest + 1) := Nat.mul_pos positive (Nat.succ_pos _)
        rw [empty] at whole fits
        omega
  have words : mul64 (buffer.height - font.height) buffer.pitch =
      (buffer.height - font.height) * buffer.pitch := mul64_eq (by omega)
  rw [sub64_eq (by omega) height, words, mul64_eq (by omega), Nat.mul_comm]

/-- The scroll moves the rows and clears those behind them. -/
theorem termScroll_run : termScroll background font (some buffer) memory =
    (memmove buffer.address (buffer.address + 4 * (font.height * buffer.pitch))
      (4 * ((buffer.height - font.height) * buffer.pitch)) memory) >>= fun moved =>
        (List.range' (buffer.height - font.height) font.height).foldlM
          (fun memory y =>
            clearRow background (word buffer.address (mul64 y buffer.pitch)) buffer.pitch memory)
          moved.2 := by
  have between : ¬ (font.height = 0 ∨ font.height ≥ buffer.height) := by omega
  have height : sub64 buffer.height font.height = buffer.height - font.height :=
    sub64_eq (by omega) buffer.heightFits
  have rest : buffer.height - (buffer.height - font.height) = font.height := by omega
  have start := row_eq buffer.addressFits (row_fits small)
  have size := moved_size positive small
  rw [termScroll]
  simp only [between, if_false]
  rw [size, start, height, rest]

end Sizes

/-- `term_scroll` gives the scrolled memory and stays inside of the framebuffer. -/
theorem termScroll_eq (positive : 0 < font.height) (small : font.height < buffer.height) :
    (termScroll background font (some buffer) memory).value = scrolled background font buffer memory ∧
      All buffer.Covers (termScroll background font (some buffer) memory) := by
  have whole := kept_add small
  have fits := buffer.fits
  have area : buffer.pitch * buffer.height = buffer.height * buffer.pitch := Nat.mul_comm _ _
  have rows : buffer.height - font.height + font.height = buffer.height := by omega
  rw [termScroll_run background memory positive small]
  constructor
  · rw [value_bind, memmove_value (by omega) (by omega), value_foldlM,
      clearRows_value background buffer.addressFits (by rw [rows]; omega)]
    rfl
  · rw [all_bind]
    constructor
    · have each : ∀ i < 4 * ((buffer.height - font.height) * buffer.pitch),
          buffer.Covers ⟨buffer.address + i, 1⟩ ∧
            buffer.Covers ⟨buffer.address + 4 * (font.height * buffer.pitch) + i, 1⟩ := by
        intro i inside
        simp only [PixelBuffer.Covers, area]
        omega
      exact memmove_all (by omega) (by omega) each memory
    · apply all_foldlM
      intro y inside memory
      have row := (List.mem_range'_1.mp inside).2
      rw [rows] at row
      have end_ := row_fits row
      rw [row_eq buffer.addressFits end_]
      have bound : (y + 1) * buffer.pitch ≤ buffer.height * buffer.pitch := Nat.mul_le_mul_right _ row
      have next : (y + 1) * buffer.pitch = y * buffer.pitch + buffer.pitch := Nat.succ_mul _ _
      have each : ∀ x < buffer.pitch,
          buffer.Covers ⟨buffer.address + 4 * (y * buffer.pitch) + 4 * x, 4⟩ := by
        intro x column
        simp only [PixelBuffer.Covers, area]
        omega
      exact clearRow_all background (by omega) each memory

/-- The words of the scrolled screen. -/
theorem scrolled_word (small : font.height < buffer.height) (index : Nat) :
    buffer.word (scrolled background font buffer memory) index =
      if index < (buffer.height - font.height) * buffer.pitch then
        buffer.word memory (index + font.height * buffer.pitch)
      else if index < buffer.height * buffer.pitch then background.toNat
      else buffer.word memory index := by
  have whole := kept_add small
  have color : background.toNat % 256 ^ 4 = background.toNat := Nat.mod_eq_of_lt background.isLt
  simp only [PixelBuffer.word, scrolled]
  split
  · rename_i kept
    rw [Memory.read_fillWords_apart (by omega), Memory.read_move memory (by omega)]
    congr 1
    omega
  · rename_i above
    split
    · rename_i inside
      have position : buffer.address + 4 * index =
          buffer.address + 4 * ((buffer.height - font.height) * buffer.pitch) +
            4 * (index - (buffer.height - font.height) * buffer.pitch) := by omega
      rw [position, Memory.read_fillWords _ (by omega), color]
    · rw [Memory.read_fillWords_apart (by omega), Memory.read_move_apart (by omega)]

/-- The pixels of the scrolled screen. -/
theorem scrolled_pixel (small : font.height < buffer.height) {x y : Nat} (column : x < buffer.pitch)
    (row : y < buffer.height) :
    buffer.pixel (scrolled background font buffer memory) x y =
      if y + font.height < buffer.height then buffer.pixel memory x (y + font.height)
      else background.toNat := by
  have next : (y + 1) * buffer.pitch = y * buffer.pitch + buffer.pitch := Nat.succ_mul _ _
  have last : (y + 1) * buffer.pitch ≤ buffer.height * buffer.pitch := Nat.mul_le_mul_right _ row
  rw [PixelBuffer.pixel, scrolled_word background memory small]
  split
  · rename_i kept
    have above : y + font.height < buffer.height := by
      by_contra below
      have cleared : (buffer.height - font.height) * buffer.pitch ≤ y * buffer.pitch :=
        Nat.mul_le_mul_right _ (by omega)
      omega
    rw [if_pos above, PixelBuffer.pixel, Nat.add_mul]
    congr 1
    omega
  · rename_i cleared
    have below : ¬ y + font.height < buffer.height := by
      intro above
      have kept : (y + 1) * buffer.pitch ≤ (buffer.height - font.height) * buffer.pitch :=
        Nat.mul_le_mul_right _ (by omega)
      omega
    rw [if_neg below, if_pos (by omega)]

/-- Scrolling leaves the bytes outside the buffer. -/
theorem scrolled_outside (small : font.height < buffer.height) {other : Nat}
    (outside : other < buffer.address ∨
      buffer.address + 4 * (buffer.pitch * buffer.height) ≤ other) :
    (scrolled background font buffer memory).byte other = memory.byte other := by
  have whole := kept_add small
  rw [Nat.mul_comm buffer.pitch] at outside
  rw [scrolled, Memory.fillWords_outside (by omega), Memory.move_outside (by omega)]

end Scroll

/-- `term_scroll` moves every row up by one line of text, clears the rows at the bottom, touches only
the words of the screen, and does nothing for a line that is empty or as high as the screen. -/
theorem termScroll_shifts (background : BitVec 32) (font : Terminal.Font) (buffer : PixelBuffer)
    (memory : Memory) :
    (0 < font.height → font.height < buffer.height →
      (∀ y < buffer.height, ∀ x < buffer.pitch,
        buffer.pixel (termScroll background font (some buffer) memory).value x y =
          if y + font.height < buffer.height then buffer.pixel memory x (y + font.height)
          else background.toNat) ∧
      (∀ access ∈ (termScroll background font (some buffer) memory).events, buffer.Covers access) ∧
      ∀ other, (other < buffer.address ∨
          buffer.address + 4 * (buffer.pitch * buffer.height) ≤ other) →
        (termScroll background font (some buffer) memory).value.byte other = memory.byte other) ∧
    (font.height = 0 ∨ buffer.height ≤ font.height →
      termScroll background font (some buffer) memory = pure memory) := by
  constructor
  · intro positive small
    obtain ⟨value, covered⟩ := termScroll_eq background memory positive small
    rw [value]
    constructor
    · intro y row x column
      exact scrolled_pixel background memory small column row
    · constructor
      · exact covered
      · intro other outside
        exact scrolled_outside background memory small outside
  · exact termScroll_none background font buffer memory

/-- A line of one row on a screen of two rows -/
theorem termScroll_shifts_two :
    ∃ (buffer : PixelBuffer) (font : Terminal.Font) (memory : Memory),
      buffer.height = 2 ∧ buffer.pitch = 1 ∧ font.height = 1 ∧
        buffer.pixel (termScroll 7 font (some buffer) memory).value 0 0 = buffer.pixel memory 0 1 ∧
        buffer.pixel (termScroll 7 font (some buffer) memory).value 0 1 = 7 := by
  let buffer : PixelBuffer := ⟨1, 2, 1, 0, by decide, by decide, by decide⟩
  let font : Terminal.Font := ⟨fun _ => 0, 0, 0, 1, 1, by decide, by decide⟩
  let memory : Memory := ⟨UInt8.ofNat⟩
  have shifted := ((termScroll_shifts 7 font buffer memory).1 (by decide) (by decide)).1
  exact ⟨buffer, font, memory, rfl, rfl, rfl, shifted 0 (by decide) 0 (by decide),
    shifted 1 (by decide) 0 (by decide)⟩

section Refinement

/-- The geometry of a framebuffer whose rows are not longer than its pitch. -/
def PixelBuffer.framebuffer (buffer : PixelBuffer) (row : buffer.width ≤ buffer.pitch) :
    Terminal.Framebuffer where
  width := buffer.width
  height := buffer.height
  pitch := buffer.pitch
  row := row
  room := (Nat.le_add_left _ _).trans buffer.fits

/-- The screen whose words stand in a memory. -/
def PixelBuffer.screen (buffer : PixelBuffer) (memory : Memory) (cursorX cursorY : Nat) :
    Terminal.Screen where
  cursorX := cursorX
  cursorY := cursorY
  pixels := buffer.word memory

/-- The scroll over the bytes is the scroll of the terminal's words. -/
theorem termScroll_refines (background : BitVec 32) (font : Terminal.Font) (buffer : PixelBuffer)
    (row : buffer.width ≤ buffer.pitch) (memory : Memory) (cursorX cursorY : Nat) :
    buffer.screen (termScroll background font (some buffer) memory).value cursorX cursorY =
      Terminal.termScroll background.toNat font (buffer.framebuffer row)
        (buffer.screen memory cursorX cursorY) := by
  rw [Terminal.termScroll]
  by_cases none : font.height = 0 ∨ buffer.height ≤ font.height
  · rw [termScroll_none background font buffer memory none]
    exact (if_pos none).symm
  · have positive : 0 < font.height := by omega
    have small : font.height < buffer.height := by omega
    rw [(termScroll_eq background memory positive small).1]
    apply Eq.trans _ (if_neg none).symm
    apply congrArg (Terminal.Screen.mk cursorX cursorY)
    funext index
    exact scrolled_word background memory small index

end Refinement

end ArchaOS.Graphics
