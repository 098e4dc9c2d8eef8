import Mathlib.Tactic

namespace ArchaOS.Library

/-- On a segment that rises by `short` over `long` columns, no row is nearer to it in a column. -/
structure NearestRow (long short column row : Int) : Prop where
  lower : -long ≤ 2 * (row * long - column * short)
  upper : 2 * (row * long - column * short) ≤ long

namespace NearestRow

variable {long short column row : Int}

/-- The row in the next column -/
def next (long short column row : Int) : Int :=
  if 2 * ((row + 1) * long - (column + 1) * short) ≤ long then row + 1 else row

/-- The first row is the nearest one at the first column. -/
theorem start (short : Int) (positive : 0 ≤ long) : NearestRow long short 0 0 := by
  constructor <;> simp [positive]

/-- The segment is not steep, so a row is left at most once in a column. -/
theorem advance (near : NearestRow long short column row) (rises : 0 ≤ short) (flat : short ≤ long) :
    NearestRow long short (column + 1) (next long short column row) := by
  have lower := near.lower
  have upper := near.upper
  have up : (row + 1) * long = row * long + long := by ring
  have across : (column + 1) * short = column * short + short := by ring
  unfold next
  rw [up, across]
  split
  · constructor
    · rw [up, across]
      omega
    · rw [up, across]
      omega
  · constructor
    · rw [across]
      omega
    · rw [across]
      omega

/-- A multiple within half of the length is zero. -/
theorem multiple_zero {count : Int} (positive : 0 < long) (lower : -long ≤ 2 * (count * long))
    (upper : 2 * (count * long) ≤ long) : count = 0 := by
  have above : -1 < count := by
    by_contra negative
    have bound : count * long ≤ -1 * long := Int.mul_le_mul_of_nonneg_right (by omega) (by omega)
    omega
  have below : count < 1 := by
    by_contra large
    have bound : 1 * long ≤ count * long := Int.mul_le_mul_of_nonneg_right (by omega) (by omega)
    omega
  omega

/-- Where the segment passes through a row, it is the nearest one. -/
theorem passing {through : Int} (near : NearestRow long short column row) (positive : 0 < long)
    (passes : column * short = through * long) : row = through := by
  have apart : row * long - column * short = (row - through) * long := by
    rw [passes]
    ring
  have lower := near.lower
  have upper := near.upper
  rw [apart] at lower upper
  have zero := multiple_zero positive lower upper
  omega

/-- The last column holds the end of the segment. -/
theorem last (near : NearestRow long short long row) (positive : 0 < long) : row = short :=
  near.passing positive (mul_comm long short)

/-- On a diagonal the row is the column. -/
theorem diagonal (near : NearestRow long long column row) (positive : 0 < long) : row = column :=
  near.passing positive rfl

/-- On a level segment the row stays. -/
theorem level (near : NearestRow long 0 column row) (positive : 0 < long) : row = 0 :=
  near.passing positive (by rw [mul_zero, zero_mul])

/-- The row is within half a unit of the segment. -/
theorem distance (near : NearestRow long short column row) (positive : 0 < long) :
    |(row : ℚ) - column * short / long| ≤ 1 / 2 := by
  have size : (0 : ℚ) < long := Int.cast_pos.mpr positive
  have lower : -(long : ℚ) ≤ 2 * (row * long - column * short) := by exact_mod_cast near.lower
  have upper : 2 * ((row : ℚ) * long - column * short) ≤ long := by exact_mod_cast near.upper
  have whole : (row : ℚ) - column * short / long = (row * long - column * short) / long := by
    field_simp
  rw [whole, abs_le, le_div_iff₀ size, div_le_iff₀ size]
  constructor <;> linarith

end NearestRow

/-- The nearest rows of the columns from the start of a segment on. -/
def rowAt (long short : Int) : Nat → Int
  | 0 => 0
  | column + 1 => NearestRow.next long short column (rowAt long short column)

/-- The row grows by at most one from column to column. -/
theorem rowAt_succ (long short : Int) (column : Nat) :
    rowAt long short (column + 1) = rowAt long short column ∨
      rowAt long short (column + 1) = rowAt long short column + 1 := by
  rw [rowAt, NearestRow.next]
  split
  · exact Or.inr rfl
  · exact Or.inl rfl

/-- The row never passes the column. -/
theorem rowAt_bounds (long short : Int) (column : Nat) :
    0 ≤ rowAt long short column ∧ rowAt long short column ≤ column := by
  induction column with
  | zero => exact ⟨Int.le_refl 0, Int.le_refl 0⟩
  | succ column ih =>
      have step := rowAt_succ long short column
      omega

section Rows

variable {long short : Int} (rises : 0 ≤ short) (flat : short ≤ long)
include rises flat

/-- The row of every column is the nearest one. -/
theorem rowAt_near (column : Nat) : NearestRow long short column (rowAt long short column) := by
  induction column with
  | zero => exact NearestRow.start short (rises.trans flat)
  | succ column ih =>
      rw [Nat.cast_succ]
      exact ih.advance rises flat

/-- The segment ends in its last row. -/
theorem rowAt_last {columns : Nat} (whole : (columns : Int) = long) : rowAt long short columns = short := by
  cases columns with
  | zero =>
      have zero : short = 0 := by omega
      exact zero.symm
  | succ columns =>
      have near := rowAt_near rises flat (columns + 1)
      rw [whole] at near
      exact near.last (by omega)

end Rows

end ArchaOS.Library
