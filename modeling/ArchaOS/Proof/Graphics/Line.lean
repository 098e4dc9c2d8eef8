import ArchaOS.Construction.LineDrawing
import ArchaOS.Library.DigitalSegment

namespace ArchaOS.Graphics

open Library

/-- What a line from `(x0, y0)` to `(x1, y1)` looks like as a list of pixels. -/
structure IsLine (x0 y0 x1 y1 : Int) (points : List (Int × Int)) : Prop where
  count : points.length = max (x1 - x0).natAbs (y1 - y0).natAbs + 1
  first : points.head? = some (x0, y0)
  last : points.getLast? = some (x1, y1)
  alongX : ∀ k (inside : k + 1 < points.length),
    points[k + 1].1 = points[k].1 + (x1 - x0).sign ∨
      (points[k + 1].1 = points[k].1 ∧ (x1 - x0).natAbs < (y1 - y0).natAbs)
  alongY : ∀ k (inside : k + 1 < points.length),
    points[k + 1].2 = points[k].2 + (y1 - y0).sign ∨
      (points[k + 1].2 = points[k].2 ∧ (y1 - y0).natAbs < (x1 - x0).natAbs)
  nearX : (y1 - y0).natAbs ≤ (x1 - x0).natAbs → ∀ point ∈ points,
    |(point.2 : ℚ) - (y0 + (point.1 - x0) * (y1 - y0) / (x1 - x0))| ≤ 1 / 2
  nearY : (x1 - x0).natAbs ≤ (y1 - y0).natAbs → ∀ point ∈ points,
    |(point.1 : ℚ) - (x0 + (point.2 - y0) * (x1 - x0) / (y1 - y0))| ≤ 1 / 2

/-- A value of an `int` is kept. -/
theorem int_ok {value : Int} (lower : -2 ^ 31 ≤ value) (upper : value < 2 ^ 31) :
    int value = .ok value := if_pos ⟨lower, upper⟩

/-- The sign that the source computes as a step. -/
def direction (from_ to_ : Int) : Int := if from_ < to_ then 1 else -1

section Counts

variable (width height : Nat)

/-- The steps along each axis after some turns of the loop. -/
def counts (turn : Nat) : Int × Int :=
  if height ≤ width then (turn, rowAt width height turn) else (rowAt height width turn, turn)

/-- The error term after some steps along each axis. -/
def errorAt (along : Int × Int) : Int := (along.2 + 1) * width - (along.1 + 1) * height

/-- No step is taken before the first turn. -/
theorem counts_zero : counts width height 0 = (0, 0) := by
  unfold counts
  split <;> rfl

/-- On a flat line every turn steps along x. -/
theorem counts_flat {turn : Nat} (flat : height ≤ width) :
    counts width height turn = ((turn : Int), rowAt width height turn) := if_pos flat

/-- On a steep line every turn steps along y. -/
theorem counts_steep {turn : Nat} (steep : width < height) :
    counts width height turn = (rowAt height width turn, (turn : Int)) := if_neg (by omega)

/-- The steps along the shorter axis are the nearest ones. -/
theorem counts_near (turn : Nat) :
    (height ≤ width → NearestRow width height (counts width height turn).1
      (counts width height turn).2) ∧
    (width ≤ height → NearestRow height width (counts width height turn).2
      (counts width height turn).1) := by
  by_cases flat : height ≤ width
  · have near : NearestRow width height turn (rowAt width height turn) :=
      rowAt_near (by omega) (by omega) turn
    rw [counts_flat width height flat]
    constructor
    · intro _
      exact near
    · intro steep
      have same : height = width := Nat.le_antisymm flat steep
      subst same
      have lower := near.lower
      have upper := near.upper
      constructor
      · dsimp only
        omega
      · dsimp only
        omega
  · have near : NearestRow height width turn (rowAt height width turn) :=
      rowAt_near (by omega) (by omega) turn
    rw [counts_steep width height (by omega)]
    constructor
    · intro other
      exact absurd other flat
    · intro _
      exact near

/-- The error is the sum of its parts. -/
theorem errorAt_eq (along : Int × Int) :
    errorAt width height along = along.2 * width - along.1 * height + width - height := by
  unfold errorAt
  ring

/-- The tests of the error term choose the steps. -/
theorem counts_succ (turn : Nat) :
    counts width height (turn + 1) =
      (if 2 * errorAt width height (counts width height turn) ≥ -height then
          (counts width height turn).1 + 1 else (counts width height turn).1,
        if 2 * errorAt width height (counts width height turn) ≤ width then
          (counts width height turn).2 + 1 else (counts width height turn).2) := by
  have near := counts_near width height turn
  have error := errorAt_eq width height (counts width height turn)
  by_cases flat : height ≤ width
  · have lower := (near.1 flat).lower
    rw [if_pos (by omega), counts_flat width height flat, counts_flat width height flat]
    apply Prod.ext
    · exact Nat.cast_succ turn
    · rfl
  · have upper := (near.2 (by omega)).lower
    have steep : width < height := by omega
    have same : (2 * ((rowAt height width turn + 1) * height - (turn + 1) * width) ≤ height) ↔
        2 * errorAt width height (rowAt height width turn, (turn : Int)) ≥ -height := by
      unfold errorAt
      constructor <;> intro test <;> dsimp only at * <;> omega
    rw [if_pos (show 2 * errorAt width height (counts width height turn) ≤ width by omega),
      counts_steep width height steep, counts_steep width height steep, rowAt, NearestRow.next]
    simp only [same]
    rfl

/-- The last turn has taken all steps. -/
theorem counts_last : counts width height (max width height) = ((width : Int), (height : Int)) := by
  by_cases flat : height ≤ width
  · rw [Nat.max_eq_left flat, counts_flat width height flat, rowAt_last (by omega) (by omega) rfl]
  · rw [Nat.max_eq_right (by omega), counts_steep width height (by omega),
      rowAt_last (by omega) (by omega) rfl]

/-- A step that is not taken is one along the shorter axis. -/
theorem counts_step {turn : Nat} (inside : turn < max width height) :
    ((counts width height (turn + 1)).1 = (counts width height turn).1 + 1 ∨
      ((counts width height (turn + 1)).1 = (counts width height turn).1 ∧ width < height)) ∧
    ((counts width height (turn + 1)).2 = (counts width height turn).2 + 1 ∨
      ((counts width height (turn + 1)).2 = (counts width height turn).2 ∧ height < width)) := by
  by_cases flat : height ≤ width
  · rw [counts_flat width height flat, counts_flat width height flat]
    constructor
    · exact Or.inl (Nat.cast_succ turn)
    · cases rowAt_succ width height turn with
      | inr up => exact Or.inl up
      | inl level =>
          apply Or.inr
          constructor
          · exact level
          · by_contra diagonal
            have same : height = width := by omega
            subst same
            have before : NearestRow height height turn (rowAt height height turn) :=
              rowAt_near (by omega) le_rfl turn
            have behind : NearestRow height height (turn + 1 : Nat) (rowAt height height (turn + 1)) :=
              rowAt_near (by omega) le_rfl (turn + 1)
            have first := before.diagonal (by omega)
            have second := behind.diagonal (by omega)
            omega
  · have steep : width < height := by omega
    rw [counts_steep width height steep, counts_steep width height steep]
    constructor
    · exact (rowAt_succ height width turn).symm.imp id fun level => ⟨level, steep⟩
    · exact Or.inl (Nat.cast_succ turn)

/-- The bounds that keep the loop from an overflow -/
theorem counts_bounds (turn : Nat) :
    0 ≤ (counts width height turn).1 ∧ (counts width height turn).1 ≤ turn ∧
      0 ≤ (counts width height turn).2 ∧ (counts width height turn).2 ≤ turn ∧
      -(3 * max width height : Nat) ≤ 2 * errorAt width height (counts width height turn) ∧
      2 * errorAt width height (counts width height turn) ≤ (3 * max width height : Nat) := by
  have near := counts_near width height turn
  have error := errorAt_eq width height (counts width height turn)
  have rows := rowAt_bounds width height turn
  have columns := rowAt_bounds height width turn
  by_cases flat : height ≤ width
  · have lower := (near.1 flat).lower
    have upper := (near.1 flat).upper
    rw [counts_flat width height flat] at *
    omega
  · have lower := (near.2 (by omega)).lower
    have upper := (near.2 (by omega)).upper
    rw [counts_steep width height (by omega)] at *
    omega

end Counts

section Run

/-- `abs` of a value other than the least is its absolute value. -/
theorem abs_eq {x : Int} (lower : -2 ^ 31 < x) (upper : x < 2 ^ 31) : abs x = .ok (x.natAbs : Int) := by
  unfold abs
  split
  · rw [int_ok (by omega) (by omega)]
    congr 1
    omega
  · congr 1
    omega

/-- The variables of the loop for a line. -/
def Line.between (x0 y0 x1 y1 : Int) : Line where
  x1 := x1
  y1 := y1
  deltaX := (x1 - x0).natAbs
  stepX := direction x0 x1
  deltaY := -(y1 - y0).natAbs
  stepY := direction y0 y1

/-- The steps along each axis of a line -/
def along (x0 y0 x1 y1 : Int) (turn : Nat) : Int × Int :=
  counts (x1 - x0).natAbs (y1 - y0).natAbs turn

/-- The pixel that the loop has reached. -/
def pointAt (x0 y0 x1 y1 : Int) (turn : Nat) : Int × Int :=
  (x0 + direction x0 x1 * (along x0 y0 x1 y1 turn).1, y0 + direction y0 y1 * (along x0 y0 x1 y1 turn).2)

def positionAt (x0 y0 x1 y1 : Int) (turn : Nat) : Position where
  x0 := (pointAt x0 y0 x1 y1 turn).1
  y0 := (pointAt x0 y0 x1 y1 turn).2
  error := errorAt (x1 - x0).natAbs (y1 - y0).natAbs (along x0 y0 x1 y1 turn)

/-- The coordinates for which no operation overflows. -/
def InRange (value : Int) : Prop := -2 ^ 28 ≤ value ∧ value ≤ 2 ^ 28

/-- A direction is one or minus one. -/
theorem direction_cases (first second : Int) : direction first second = 1 ∨ direction first second = -1 := by
  unfold direction
  split
  · exact Or.inl rfl
  · exact Or.inr rfl

/-- Going the distance in the direction of a coordinate reaches it. -/
theorem direction_natAbs (first second : Int) :
    direction first second * (second - first).natAbs = second - first := by
  unfold direction
  split <;> omega

/-- The set-up computes the distances and the first position. -/
theorem setUp_eq {sx sy dx dy : BitVec 32} (inX : InRange sx.toInt) (inY : InRange sy.toInt)
    (toX : InRange dx.toInt) (toY : InRange dy.toInt) :
    setUp sx sy dx dy = .ok (Line.between sx.toInt sy.toInt dx.toInt dy.toInt,
      positionAt sx.toInt sy.toInt dx.toInt dy.toInt 0) := by
  unfold InRange at inX inY toX toY
  unfold setUp
  generalize sx.toInt = x0, sy.toInt = y0, dx.toInt = x1, dy.toInt = y1 at *
  have across : int (x1 - x0) = .ok (x1 - x0) := int_ok (by omega) (by omega)
  have up : int (y1 - y0) = .ok (y1 - y0) := int_ok (by omega) (by omega)
  have width : abs (x1 - x0) = .ok ((x1 - x0).natAbs : Int) := abs_eq (by omega) (by omega)
  have height : abs (y1 - y0) = .ok ((y1 - y0).natAbs : Int) := abs_eq (by omega) (by omega)
  have negative : int (-((y1 - y0).natAbs : Int)) = .ok (-((y1 - y0).natAbs : Int)) :=
    int_ok (by omega) (by omega)
  have error : int (((x1 - x0).natAbs : Int) + -((y1 - y0).natAbs : Int)) =
      .ok (((x1 - x0).natAbs : Int) + -((y1 - y0).natAbs : Int)) := int_ok (by omega) (by omega)
  have origin : positionAt x0 y0 x1 y1 0 =
      ⟨x0, y0, ((x1 - x0).natAbs : Int) + -((y1 - y0).natAbs : Int)⟩ := by
    simp only [positionAt, pointAt, along, counts_zero, errorAt]
    congr 1
    · ring
    · ring
    · ring
  rw [origin]
  simp only [across, up, width, height, negative, error, bind, Except.bind]
  rfl

variable {x0 y0 x1 y1 : Int} (inX : InRange x0) (inY : InRange y0) (toX : InRange x1)
  (toY : InRange y1)

/-- One step along the first axis, if the test of the error term asks for it. -/
theorem stepAlongX_eq (line : Line) (position : Position) (error2 : Int)
    (error : int (position.error + line.deltaY) = .ok (position.error + line.deltaY))
    (step : int (position.x0 + line.stepX) = .ok (position.x0 + line.stepX)) :
    line.stepAlongX error2 position = .ok
      { position with
        error := if error2 ≥ line.deltaY then position.error + line.deltaY else position.error
        x0 := if error2 ≥ line.deltaY then position.x0 + line.stepX else position.x0 } := by
  unfold Line.stepAlongX
  split
  · rw [error, step]
    rfl
  · rfl

/-- The second branch of a turn steps along y when the error allows it. -/
theorem stepAlongY_eq (line : Line) (position : Position) (error2 : Int)
    (error : int (position.error + line.deltaX) = .ok (position.error + line.deltaX))
    (step : int (position.y0 + line.stepY) = .ok (position.y0 + line.stepY)) :
    line.stepAlongY error2 position = .ok
      { position with
        error := if error2 ≤ line.deltaX then position.error + line.deltaX else position.error
        y0 := if error2 ≤ line.deltaX then position.y0 + line.stepY else position.y0 } := by
  unfold Line.stepAlongY
  split
  · rw [error, step]
    rfl
  · rfl

/-- The next coordinate is an `int`. -/
theorem reach_ok {from_ to_ count : Int} (within : InRange from_)
    (small : 0 ≤ count ∧ count ≤ 2 ^ 29) :
    int (from_ + direction from_ to_ * count + direction from_ to_) =
      .ok (from_ + direction from_ to_ * count + direction from_ to_) := by
  unfold InRange at within
  cases direction_cases from_ to_ with
  | inl up =>
      rw [up]
      exact int_ok (by omega) (by omega)
  | inr down =>
      rw [down]
      exact int_ok (by omega) (by omega)

/-- A coordinate after a step that a test has chosen. -/
theorem chosen_step {test : Prop} [Decidable test] (from_ step count : Int) :
    (if test then from_ + step * count + step else from_ + step * count) =
      from_ + step * (if test then count + 1 else count) := by
  split
  · ring
  · rfl

/-- The branches of a turn add up to the next error. -/
theorem chosen_error {first second : Prop} [Decidable first] [Decidable second] (width height : Nat)
    (count : Int × Int) :
    (if second then
        (if first then errorAt width height count + -(height : Int) else errorAt width height count) +
          (width : Int)
      else if first then errorAt width height count + -(height : Int)
      else errorAt width height count) =
      errorAt width height
        (if first then count.1 + 1 else count.1, if second then count.2 + 1 else count.2) := by
  unfold errorAt
  split <;> split <;> ring

/-- The line starts at its first end. -/
theorem pointAt_first : pointAt x0 y0 x1 y1 0 = (x0, y0) := by
  rw [pointAt, along, counts_zero, mul_zero, mul_zero, add_zero, add_zero]

/-- The line ends at its last end. -/
theorem pointAt_last :
    pointAt x0 y0 x1 y1 (max (x1 - x0).natAbs (y1 - y0).natAbs) = (x1, y1) := by
  rw [pointAt, along, counts_last, direction_natAbs, direction_natAbs]
  apply Prod.ext
  · exact add_sub_cancel x0 x1
  · exact add_sub_cancel y0 y1

/-- The loop does not end before the last step along the longer axis. -/
theorem pointAt_before {turn : Nat} (inside : turn < max (x1 - x0).natAbs (y1 - y0).natAbs) :
    ¬ ((pointAt x0 y0 x1 y1 turn).1 = x1 ∧ (pointAt x0 y0 x1 y1 turn).2 = y1) := by
  have stepX := direction_cases x0 x1
  have stepY := direction_cases y0 y1
  have width := direction_natAbs x0 x1
  have height := direction_natAbs y0 y1
  rintro ⟨atX, atY⟩
  rw [pointAt, along] at atX atY
  by_cases flat : (y1 - y0).natAbs ≤ (x1 - x0).natAbs
  · rw [counts_flat _ _ flat] at atX
    dsimp only at atX
    cases stepX with
    | inl up =>
        rw [up] at atX width
        omega
    | inr down =>
        rw [down] at atX width
        omega
  · rw [counts_steep _ _ (by omega)] at atY
    dsimp only at atY
    cases stepY with
    | inl up =>
        rw [up] at atY height
        omega
    | inr down =>
        rw [down] at atY height
        omega

include inX inY toX toY

/-- One turn of the loop -/
theorem advance_at {turn : Nat} (inside : turn < max (x1 - x0).natAbs (y1 - y0).natAbs) :
    (Line.between x0 y0 x1 y1).advance (positionAt x0 y0 x1 y1 turn) =
      .ok (positionAt x0 y0 x1 y1 (turn + 1)) := by
  have wide : max (x1 - x0).natAbs (y1 - y0).natAbs ≤ 2 ^ 29 := by
    unfold InRange at inX inY toX toY
    omega
  obtain ⟨left, right, low, high, lower, upper⟩ :=
    counts_bounds (x1 - x0).natAbs (y1 - y0).natAbs turn
  have next := counts_succ (x1 - x0).natAbs (y1 - y0).natAbs turn
  rw [positionAt, positionAt, pointAt, pointAt, along, along, next, ← chosen_step, ← chosen_step,
    ← chosen_error]
  generalize counts (x1 - x0).natAbs (y1 - y0).natAbs turn = count at *
  generalize known : errorAt (x1 - x0).natAbs (y1 - y0).natAbs count = error at *
  have double : int (2 * error) = .ok (2 * error) := int_ok (by omega) (by omega)
  have down : int (error + -((y1 - y0).natAbs : Int)) = .ok (error + -((y1 - y0).natAbs : Int)) :=
    int_ok (by omega) (by omega)
  have up : int ((if 2 * error ≥ -((y1 - y0).natAbs : Int) then error + -((y1 - y0).natAbs : Int)
        else error) + ((x1 - x0).natAbs : Int)) =
      .ok ((if 2 * error ≥ -((y1 - y0).natAbs : Int) then error + -((y1 - y0).natAbs : Int)
        else error) + ((x1 - x0).natAbs : Int)) := by
    split
    · exact int_ok (by omega) (by omega)
    · exact int_ok (by omega) (by omega)
  have first := stepAlongX_eq (Line.between x0 y0 x1 y1)
    ⟨x0 + direction x0 x1 * count.1, y0 + direction y0 y1 * count.2, error⟩ (2 * error)
    down (reach_ok inX (by omega))
  have second := stepAlongY_eq (Line.between x0 y0 x1 y1)
    ⟨if 2 * error ≥ -((y1 - y0).natAbs : Int) then
        x0 + direction x0 x1 * count.1 + direction x0 x1 else x0 + direction x0 x1 * count.1,
      y0 + direction y0 y1 * count.2,
      if 2 * error ≥ -((y1 - y0).natAbs : Int) then error + -((y1 - y0).natAbs : Int) else error⟩
    (2 * error) up (reach_ok inY (by omega))
  rw [Line.advance]
  dsimp only
  rw [double]
  exact (congrArg (· >>= (Line.between x0 y0 x1 y1).stepAlongY (2 * error)) first).trans second

/-- The loop plots the points that are left. -/
theorem trace_at {State : Type} (plot : BitVec 32 → BitVec 32 → State → State) {rest turn fuel : Nat}
    (whole : turn + rest = max (x1 - x0).natAbs (y1 - y0).natAbs) (enough : rest < fuel)
    (state : State) :
    (Line.between x0 y0 x1 y1).trace plot fuel (positionAt x0 y0 x1 y1 turn) state =
      .ok (((List.range' turn (rest + 1)).map (pointAt x0 y0 x1 y1)).foldl
        (fun state point => plot (BitVec.ofInt 32 point.1) (BitVec.ofInt 32 point.2) state) state) := by
  induction rest generalizing turn fuel state with
  | zero =>
      cases fuel with
      | zero => exact absurd enough (Nat.lt_irrefl 0)
      | succ fuel =>
          have last : pointAt x0 y0 x1 y1 turn = (x1, y1) := by
            rw [show turn = max (x1 - x0).natAbs (y1 - y0).natAbs by omega]
            exact pointAt_last
          have ended : (positionAt x0 y0 x1 y1 turn).x0 = (Line.between x0 y0 x1 y1).x1 ∧
              (positionAt x0 y0 x1 y1 turn).y0 = (Line.between x0 y0 x1 y1).y1 := by
            rw [positionAt, last]
            exact ⟨rfl, rfl⟩
          rw [Line.trace]
          exact if_pos ended
  | succ rest ih =>
      cases fuel with
      | zero => exact absurd enough (Nat.not_lt_zero _)
      | succ fuel =>
          have inside : turn < max (x1 - x0).natAbs (y1 - y0).natAbs := by omega
          rw [Line.trace]
          apply (if_neg (pointAt_before inside)).trans
          rw [advance_at inX inY toX toY inside]
          exact ih (by omega) (by omega) _

end Run

section Shape

/-- Between different values the direction is the sign of the difference. -/
theorem direction_sign {first second : Int} (apart : first ≠ second) :
    direction first second = (second - first).sign := by
  unfold direction
  split
  · rw [Int.sign_eq_one_of_pos (by omega)]
  · rw [Int.sign_eq_neg_one_of_neg (by omega)]

/-- The nearest row is within half a pixel of the ideal line. -/
theorem half_pixel {from_ to_ start stop steps row : Int} (apart : from_ ≠ to_)
    (near : NearestRow (to_ - from_).natAbs (stop - start).natAbs steps row) :
    |((start + direction start stop * row : Int) : ℚ) - (start +
      ((from_ + direction from_ to_ * steps : Int) - from_) * (stop - start) / (to_ - from_))| ≤
      1 / 2 := by
  have positive : (0 : Int) < (to_ - from_).natAbs := by omega
  have distance := near.distance positive
  have across : (to_ : ℚ) - from_ = direction from_ to_ * ((to_ - from_).natAbs : Int) := by
    exact_mod_cast (direction_natAbs from_ to_).symm
  have up : (stop : ℚ) - start = direction start stop * ((stop - start).natAbs : Int) := by
    exact_mod_cast (direction_natAbs start stop).symm
  generalize (to_ - from_).natAbs = long at *
  generalize (stop - start).natAbs = short at *
  have turned : (direction from_ to_ : ℚ) ≠ 0 := by
    cases direction_cases from_ to_ with
    | inl up => simp [up]
    | inr down => simp [down]
  have ideal : ((from_ + direction from_ to_ * steps : Int) - from_ : ℚ) * (stop - start) /
      (to_ - from_) = direction start stop * (steps * (short : Int) / (long : Int)) := by
    rw [across, up, Int.cast_add, Int.cast_mul, add_sub_cancel_left, mul_assoc,
      mul_div_mul_left _ _ turned]
    ring
  have apart : ((start + direction start stop * row : Int) : ℚ) -
      (start + direction start stop * (steps * (short : Int) / (long : Int))) =
        direction start stop * (row - steps * (short : Int) / (long : Int)) := by
    push_cast
    ring
  rw [ideal, apart, abs_mul]
  cases direction_cases start stop with
  | inl up => simpa [up] using distance
  | inr down => simpa [down] using distance

variable {x0 y0 x1 y1 : Int}

/-- A step that changes nothing is along an axis without an extent. -/
theorem along_still (turn : Nat) :
    (x0 = x1 → (along x0 y0 x1 y1 turn).1 = 0 ∨ y0 = y1) ∧
      (y0 = y1 → (along x0 y0 x1 y1 turn).2 = 0 ∨ x0 = x1) := by
  have near := counts_near (x1 - x0).natAbs (y1 - y0).natAbs turn
  constructor
  · rintro rfl
    rw [sub_self, Int.natAbs_zero] at near
    by_cases flat : y0 = y1
    · exact Or.inr flat
    · apply Or.inl
      rw [along, sub_self, Int.natAbs_zero]
      exact (near.2 (Nat.zero_le _)).level (by omega)
  · rintro rfl
    rw [sub_self, Int.natAbs_zero] at near
    by_cases flat : x0 = x1
    · exact Or.inr flat
    · apply Or.inl
      rw [along, sub_self, Int.natAbs_zero]
      exact (near.1 (Nat.zero_le _)).level (by omega)

/-- Two points that follow one another. -/
theorem pointAt_succ {turn : Nat} (inside : turn < max (x1 - x0).natAbs (y1 - y0).natAbs) :
    ((pointAt x0 y0 x1 y1 (turn + 1)).1 = (pointAt x0 y0 x1 y1 turn).1 + (x1 - x0).sign ∨
      ((pointAt x0 y0 x1 y1 (turn + 1)).1 = (pointAt x0 y0 x1 y1 turn).1 ∧
        (x1 - x0).natAbs < (y1 - y0).natAbs)) ∧
    ((pointAt x0 y0 x1 y1 (turn + 1)).2 = (pointAt x0 y0 x1 y1 turn).2 + (y1 - y0).sign ∨
      ((pointAt x0 y0 x1 y1 (turn + 1)).2 = (pointAt x0 y0 x1 y1 turn).2 ∧
        (y1 - y0).natAbs < (x1 - x0).natAbs)) := by
  obtain ⟨stepX, stepY⟩ := counts_step (x1 - x0).natAbs (y1 - y0).natAbs inside
  have before := @along_still x0 y0 x1 y1 turn
  have behind := @along_still x0 y0 x1 y1 (turn + 1)
  unfold along at before behind
  rw [pointAt, pointAt, along, along]
  constructor
  · cases stepX with
    | inl taken =>
        apply Or.inl
        have apart : x0 ≠ x1 := by
          rintro rfl
          have first := before.1 rfl
          have second := behind.1 rfl
          omega
        dsimp only
        rw [taken, ← direction_sign apart]
        ring
    | inr left =>
        apply Or.inr
        dsimp only
        rw [left.1]
        exact ⟨rfl, left.2⟩
  · cases stepY with
    | inl taken =>
        apply Or.inl
        have apart : y0 ≠ y1 := by
          rintro rfl
          have first := before.2 rfl
          have second := behind.2 rfl
          omega
        dsimp only
        rw [taken, ← direction_sign apart]
        ring
    | inr left =>
        apply Or.inr
        dsimp only
        rw [left.1]
        exact ⟨rfl, left.2⟩

/-- The points that the loop plots. -/
def linePoints (x0 y0 x1 y1 : Int) : List (Int × Int) :=
  (List.range (max (x1 - x0).natAbs (y1 - y0).natAbs + 1)).map (pointAt x0 y0 x1 y1)

/-- The points of the line are those of the turns. -/
theorem linePoints_get {k : Nat} (inside : k < (linePoints x0 y0 x1 y1).length) :
    (linePoints x0 y0 x1 y1)[k] = pointAt x0 y0 x1 y1 k := by
  simp [linePoints]

/-- The line has one point more than turns. -/
theorem linePoints_length :
    (linePoints x0 y0 x1 y1).length = max (x1 - x0).natAbs (y1 - y0).natAbs + 1 := by
  rw [linePoints, List.length_map, List.length_range]

/-- Each point is the one of a turn, and the first one if the longer axis has no extent. -/
theorem linePoints_mem {point : Int × Int} (member : point ∈ linePoints x0 y0 x1 y1) :
    ∃ turn ≤ max (x1 - x0).natAbs (y1 - y0).natAbs, point = pointAt x0 y0 x1 y1 turn := by
  obtain ⟨turn, inside, rfl⟩ := List.mem_map.mp member
  exact ⟨turn, Nat.le_of_lt_succ (List.mem_range.mp inside), rfl⟩

/-- The points of the turns are a line. -/
theorem linePoints_isLine (x0 y0 x1 y1 : Int) : IsLine x0 y0 x1 y1 (linePoints x0 y0 x1 y1) where
  count := linePoints_length
  first := by
    rw [linePoints, List.range_succ_eq_map, List.map_cons, pointAt_first]
    rfl
  last := by
    rw [linePoints, List.range_succ, List.map_append, List.map_singleton, pointAt_last]
    exact List.getLast?_concat
  alongX k inside := by
    rw [linePoints_length] at inside
    rw [linePoints_get, linePoints_get]
    exact (pointAt_succ (by omega)).1
  alongY k inside := by
    rw [linePoints_length] at inside
    rw [linePoints_get, linePoints_get]
    exact (pointAt_succ (by omega)).2
  nearX flat point member := by
    obtain ⟨turn, inside, rfl⟩ := linePoints_mem member
    by_cases apart : x0 = x1
    · have only : turn = 0 := by omega
      rw [only, pointAt_first]
      simp
    · exact half_pixel apart ((counts_near _ _ turn).1 flat)
  nearY steep point member := by
    obtain ⟨turn, inside, rfl⟩ := linePoints_mem member
    by_cases apart : y0 = y1
    · have only : turn = 0 := by omega
      rw [only, pointAt_first]
      simp
    · exact half_pixel apart ((counts_near _ _ turn).2 steep)

end Shape

/-- The body of the two functions plots the points of a line, without an overflow. -/
theorem traceLine_eq {State : Type} (plot : BitVec 32 → BitVec 32 → State → State)
    {sx sy dx dy : BitVec 32} (inX : InRange sx.toInt) (inY : InRange sy.toInt)
    (toX : InRange dx.toInt) (toY : InRange dy.toInt) {fuel : Nat}
    (enough : max (dx.toInt - sx.toInt).natAbs (dy.toInt - sy.toInt).natAbs < fuel) (state : State) :
    traceLine plot sx sy dx dy fuel state =
      .ok ((linePoints sx.toInt sy.toInt dx.toInt dy.toInt).foldl
        (fun state point => plot (BitVec.ofInt 32 point.1) (BitVec.ofInt 32 point.2) state) state) := by
  rw [traceLine, setUp_eq inX inY toX toY, linePoints, List.range_eq_range']
  exact trace_at inX inY toX toY plot (Nat.zero_add _) enough state

/-- `draw_line` and `draw_line_q` plot a digital line: they end after as many pixels as the longer axis
has, no operation overflows, and each pixel is within half a pixel of the ideal line. -/
theorem drawLine_isLine {sx sy dx dy : BitVec 32} (inX : InRange sx.toInt) (inY : InRange sy.toInt)
    (toX : InRange dx.toInt) (toY : InRange dy.toInt) :
    ∃ points : List (Int × Int), IsLine sx.toInt sy.toInt dx.toInt dy.toInt points ∧
      ∀ fuel ≥ points.length,
        (∀ calls : List (BitVec 32 × BitVec 32),
          traceLine (fun x y calls => calls ++ [(x, y)]) sx sy dx dy fuel calls =
            .ok (calls ++ points.map fun point => (BitVec.ofInt 32 point.1, BitVec.ofInt 32 point.2))) ∧
        ∀ (framebuffer buffer : Option PixelBuffer) (color : BitVec 32) (memory : Memory),
          drawLine framebuffer sx sy dx dy color fuel memory =
              .ok (points.foldl (fun memory point => putPixel framebuffer (BitVec.ofInt 32 point.1)
                (BitVec.ofInt 32 point.2) color memory) memory) ∧
            drawLineQ framebuffer buffer sx sy dx dy color fuel memory =
              .ok (points.foldl (fun memory point => putPixelQ framebuffer buffer
                (BitVec.ofInt 32 point.1) (BitVec.ofInt 32 point.2) color memory) memory) := by
  have line := linePoints_isLine sx.toInt sy.toInt dx.toInt dy.toInt
  exists linePoints sx.toInt sy.toInt dx.toInt dy.toInt
  constructor
  · exact line
  · intro fuel enough
    rw [line.count] at enough
    constructor
    · intro calls
      rw [traceLine_eq _ inX inY toX toY enough, List.foldl_append_eq_append, ← List.flatMap_def,
        List.map_eq_flatMap]
    · intro framebuffer buffer color memory
      exact ⟨traceLine_eq _ inX inY toX toY enough memory,
        traceLine_eq _ inX inY toX toY enough memory⟩

/-- A line of three pixels with a tie in the middle. -/
theorem drawLine_isLine_tie : ∃ points : List (Int × Int), IsLine 0 0 2 1 points ∧
    traceLine (fun x y calls => calls ++ [(x, y)]) 0 0 2 1 3 [] =
      .ok (points.map fun point => (BitVec.ofInt 32 point.1, BitVec.ofInt 32 point.2)) := by
  have range : InRange (0 : BitVec 32).toInt ∧ InRange (1 : BitVec 32).toInt ∧
      InRange (2 : BitVec 32).toInt := by
    unfold InRange
    decide
  obtain ⟨points, line, drawn⟩ := drawLine_isLine range.1 range.1 range.2.2 range.2.1
  have count : points.length = 3 := line.count
  exact ⟨points, line, (drawn 3 (by omega)).1 []⟩

end ArchaOS.Graphics
