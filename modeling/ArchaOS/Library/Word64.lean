import Mathlib.Tactic

namespace ArchaOS.Library

/-- Unsigned 64-bit addition, subtraction and multiplication wrap around. -/
def add64 (first second : Nat) : Nat := (first + second) % 2 ^ 64

def sub64 (first second : Nat) : Nat := (first + (2 ^ 64 - second % 2 ^ 64)) % 2 ^ 64

def mul64 (first second : Nat) : Nat := (first * second) % 2 ^ 64

/-- A number that is cut to a signed 32-bit integer and widened to 64 bits again. -/
def signExtend32 (value : Nat) : Nat :=
  if value % 2 ^ 32 < 2 ^ 31 then value % 2 ^ 32 else 2 ^ 64 - 2 ^ 32 + value % 2 ^ 32

/-- A sum that fits is the sum. -/
theorem add64_eq {first second : Nat} (fits : first + second < 2 ^ 64) :
    add64 first second = first + second := Nat.mod_eq_of_lt fits

/-- A difference that does not go below zero is the difference. -/
theorem sub64_eq {first second : Nat} (ordered : second ≤ first) (fits : first < 2 ^ 64) :
    sub64 first second = first - second := by
  unfold sub64
  omega

/-- A product that fits is the product. -/
theorem mul64_eq {first second : Nat} (fits : first * second < 2 ^ 64) :
    mul64 first second = first * second := Nat.mod_eq_of_lt fits

theorem add64_lt (first second : Nat) : add64 first second < 2 ^ 64 :=
  Nat.mod_lt _ (by decide)

/-- Masking with `count` ones above `low` zeros keeps exactly those bits. -/
theorem and_mask (value low count : Nat) :
    value &&& ((2 ^ count - 1) <<< low) = value / 2 ^ low % 2 ^ count * 2 ^ low := by
  apply Nat.eq_of_testBit_eq
  intro bit
  rw [← Nat.shiftLeft_eq, Nat.testBit_and, Nat.testBit_shiftLeft, Nat.testBit_shiftLeft,
    Nat.testBit_two_pow_sub_one, Nat.testBit_mod_two_pow, Nat.testBit_div_two_pow]
  by_cases above : low ≤ bit
  · have position : bit - low + low = bit := by omega
    simp [above, position, Bool.and_comm]
  · simp [above]

end ArchaOS.Library
