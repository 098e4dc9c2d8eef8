import ArchaOS.Construction.Sleep

namespace ArchaOS.Sleep

open Library Graphics

/-- What the loop compares with the requested time: the elapsed one modulo `2 ^ 32`, or its distance
to `2 ^ 32`. -/
def measured (elapsed : Nat) : Nat := min (elapsed % 2 ^ 32) (2 ^ 32 - elapsed % 2 ^ 32)

/-- The sign of the least `int` cannot be dropped. -/
def Overflows (elapsed : Nat) : Prop := elapsed % 2 ^ 32 = 2 ^ 31

instance (elapsed : Nat) : Decidable (Overflows elapsed) := inferInstanceAs (Decidable (_ = _))

/-- The difference of two times is cut to 32 bits, and its sign is dropped. -/
theorem abs_toInt (start elapsed : Nat) :
    Graphics.abs (toInt (sub64 start (start + elapsed))) =
      if Overflows elapsed then .error .overflow else .ok (measured elapsed) := by
  have low : sub64 start (start + elapsed) % 2 ^ 32 = (2 ^ 32 - elapsed % 2 ^ 32) % 2 ^ 32 := by
    unfold sub64
    omega
  have argument : toInt (sub64 start (start + elapsed)) =
      if elapsed % 2 ^ 32 ≤ 2 ^ 31 then -((elapsed % 2 ^ 32 : Nat) : Int)
      else ((2 ^ 32 - elapsed % 2 ^ 32 : Nat) : Int) := by
    rw [toInt, BitVec.toInt_eq_toNat_cond, BitVec.toNat_ofNat, low]
    split <;> split <;> omega
  rw [argument]
  rcases lt_trichotomy (elapsed % 2 ^ 32) (2 ^ 31) with small | edge | large
  · have same : measured elapsed = elapsed % 2 ^ 32 := by
      unfold measured
      omega
    have fine : ¬ Overflows elapsed := small.ne
    rw [if_pos small.le, if_neg fine, same]
    by_cases zero : elapsed % 2 ^ 32 = 0
    · rw [zero]
      rfl
    · have negative : -((elapsed % 2 ^ 32 : Nat) : Int) < 0 := by omega
      have range : -2 ^ 31 ≤ ((elapsed % 2 ^ 32 : Nat) : Int) ∧ ((elapsed % 2 ^ 32 : Nat) : Int) < 2 ^ 31 := by
        omega
      rw [Graphics.abs, if_pos negative, neg_neg, int, if_pos range]
  · have least : Overflows elapsed := edge
    rw [if_pos least, if_pos edge.le, edge]
    rfl
  · have same : measured elapsed = 2 ^ 32 - elapsed % 2 ^ 32 := by
      unfold measured
      omega
    have positive : ¬ ((2 ^ 32 - elapsed % 2 ^ 32 : Nat) : Int) < 0 := by omega
    have fine : ¬ Overflows elapsed := large.ne'
    rw [if_neg large.not_ge, if_neg fine, same, Graphics.abs, if_neg positive]

/-- The measured time is not negative. -/
theorem toUint64_measured (elapsed : Nat) : toUint64 (measured elapsed) = measured elapsed := by
  have small : measured elapsed < 2 ^ 64 := by
    unfold measured
    omega
  rw [toUint64, BitVec.ofInt_natCast, BitVec.toNat_ofNat, Nat.mod_eq_of_lt small]

/-- The tick counts that the loop observes do not fall behind each other or the first one, and a
count times 1000 fits into 64 bits. -/
structure Observed (startTicks : Nat) (ticks : Nat → Nat) : Prop where
  start : startTicks ≤ ticks 0
  ordered : Monotone ticks
  fits : ∀ turn, ticks turn * 1000 < 2 ^ 64

/-- The time that has passed when a turn looks at the clock. -/
def elapsed (startTicks : Nat) (ticks : Nat → Nat) (turn : Nat) : Nat :=
  getMilliseconds (ticks turn) - getMilliseconds startTicks

/-- The first turn that sees more than the requested time. -/
def EndsAt (timeMs startTicks : Nat) (ticks : Nat → Nat) (turn : Nat) : Prop :=
  timeMs < elapsed startTicks ticks turn ∧ ∀ earlier < turn, elapsed startTicks ticks earlier ≤ timeMs

/-- The loop ends at the first turn that sees more than the requested time, and until then it runs. -/
structure SleepsExactly (timeMs startTicks : Nat) (ticks : Nat → Nat) : Prop where
  ends : ∀ turn, EndsAt timeMs startTicks ticks turn →
    ∀ fuel > turn, kernelSleepMs timeMs startTicks ticks fuel = .ok turn
  waits : ∀ fuel, (∀ turn < fuel, elapsed startTicks ticks turn ≤ timeMs) →
    kernelSleepMs timeMs startTicks ticks fuel = .error .endless

section Loop

variable {timeMs startTicks : Nat} {ticks : Nat → Nat} (observed : Observed startTicks ticks)
include observed

/-- A tick counts for ten milliseconds. -/
theorem elapsed_eq (turn : Nat) : startTicks ≤ ticks turn ∧
    getMilliseconds startTicks = 10 * startTicks ∧ getMilliseconds (ticks turn) = 10 * ticks turn := by
  have least := observed.start.trans (observed.ordered (Nat.zero_le turn))
  have bound := observed.fits turn
  have startBound : startTicks * 1000 < 2 ^ 64 := (Nat.mul_le_mul_right 1000 least).trans_lt bound
  unfold getMilliseconds
  rw [mul64_eq startBound, mul64_eq bound]
  exact ⟨least, by omega, by omega⟩

/-- The elapsed time does not go back. -/
theorem elapsed_mono : Monotone (elapsed startTicks ticks) := by
  intro first second later
  have ordered := observed.ordered later
  obtain ⟨_, _, before⟩ := elapsed_eq observed first
  obtain ⟨_, _, after⟩ := elapsed_eq observed second
  unfold elapsed
  omega

/-- One turn of the loop. -/
theorem sleepLoop_succ (fuel turn : Nat) :
    sleepLoop timeMs (getMilliseconds startTicks) ticks (fuel + 1) turn =
      if Overflows (elapsed startTicks ticks turn) then .error .overflow
      else if measured (elapsed startTicks ticks turn) ≤ timeMs then
        sleepLoop timeMs (getMilliseconds startTicks) ticks fuel (turn + 1)
      else .ok turn := by
  obtain ⟨least, began, present⟩ := elapsed_eq observed turn
  have now : getMilliseconds (ticks turn) = getMilliseconds startTicks + elapsed startTicks ticks turn := by
    unfold elapsed
    omega
  rw [sleepLoop, now, abs_toInt]
  split
  · rfl
  · change (if toUint64 (measured (elapsed startTicks ticks turn)) ≤ timeMs then _ else _) = _
    rw [toUint64_measured]
    rfl

omit observed in
/-- The measured time is at most the time. -/
theorem measured_le (time : Nat) : measured time ≤ time := by
  unfold measured
  omega

/-- Turns that see no more than the requested time are passed over, unless `abs` overflows. -/
theorem sleepLoop_skip (count fuel : Nat)
    (fine : ∀ turn < count, ¬ Overflows (elapsed startTicks ticks turn))
    (inside : ∀ turn < count, elapsed startTicks ticks turn ≤ timeMs) :
    kernelSleepMs timeMs startTicks ticks (count + fuel) =
      sleepLoop timeMs (getMilliseconds startTicks) ticks fuel count := by
  induction count generalizing fuel with
  | zero => rw [Nat.zero_add, kernelSleepMs]
  | succ count ih =>
      have last := Nat.lt_succ_self count
      have less := (measured_le _).trans (inside count last)
      have before := ih (fuel + 1) (fun turn earlier => fine turn (Nat.lt_succ_of_lt earlier))
        fun turn earlier => inside turn (Nat.lt_succ_of_lt earlier)
      rw [Nat.add_right_comm, Nat.add_assoc, before, sleepLoop_succ observed, if_neg (fine count last),
        if_pos less]

/-- A sleep that is exact meets no overflow before its end. -/
theorem SleepsExactly.fine (sleeps : SleepsExactly timeMs startTicks ticks) (turn : Nat)
    (inside : elapsed startTicks ticks turn ≤ timeMs) : ¬ Overflows (elapsed startTicks ticks turn) := by
  induction turn using Nat.strong_induction_on with
  | h turn ih =>
      intro least
      have earlier : ∀ before < turn + 1, elapsed startTicks ticks before ≤ timeMs := fun before less =>
        (elapsed_mono observed (Nat.le_of_lt_succ less)).trans inside
      have before : ∀ before < turn, elapsed startTicks ticks before ≤ timeMs := fun before less =>
        earlier before (Nat.lt_succ_of_lt less)
      have passed := sleepLoop_skip observed turn 1 (fun other less => ih other less (before other less)) before
      have waits := sleeps.waits (turn + 1) earlier
      rw [passed, sleepLoop_succ observed, if_pos least] at waits
      cases waits

end Loop

/-- A time is seen to be enough when its remainder is above the requested one from both sides. -/
theorem lt_measured_iff (timeMs time : Nat) :
    timeMs < measured time ↔ timeMs < time % 2 ^ 32 ∧ time % 2 ^ 32 + timeMs < 2 ^ 32 := by
  unfold measured
  omega

/-- `kernel_sleep_ms` is exact when no time up to the requested one is `2 ^ 31` modulo `2 ^ 32`, and the
first time above the requested one is above it modulo `2 ^ 32` and further than it below `2 ^ 32`. -/
theorem sleepsExactly_iff {timeMs startTicks : Nat} {ticks : Nat → Nat}
    (observed : Observed startTicks ticks) :
    SleepsExactly timeMs startTicks ticks ↔
      (∀ turn, elapsed startTicks ticks turn ≤ timeMs → elapsed startTicks ticks turn % 2 ^ 32 ≠ 2 ^ 31) ∧
      ∀ turn, EndsAt timeMs startTicks ticks turn →
        elapsed startTicks ticks turn % 2 ^ 32 ≠ 2 ^ 31 ∧
        timeMs < elapsed startTicks ticks turn % 2 ^ 32 ∧
        elapsed startTicks ticks turn % 2 ^ 32 + timeMs < 2 ^ 32 := by
  constructor
  · intro sleeps
    have fine := sleeps.fine observed
    refine ⟨fine, fun turn last => ?_⟩
    have passed := sleepLoop_skip observed turn 1 (fun before less => fine before (last.2 before less)) last.2
    have ends := sleeps.ends turn last (turn + 1) (Nat.lt_succ_self turn)
    rw [passed, sleepLoop_succ observed] at ends
    split at ends
    · cases ends
    · rename_i noOverflow
      split at ends
      · cases ends
      · rename_i enough
        exact ⟨noOverflow, (lt_measured_iff _ _).mp (Nat.lt_of_not_le enough)⟩
  · intro ⟨fine, enough⟩
    constructor
    · intro turn last fuel more
      obtain ⟨rest, rfl⟩ := Nat.exists_eq_add_of_lt more
      obtain ⟨different, above⟩ := enough turn last
      have noOverflow : ¬ Overflows (elapsed startTicks ticks turn) := different
      have passed := sleepLoop_skip observed turn (rest + 1)
        (fun before less => fine before (last.2 before less)) last.2
      rw [Nat.add_assoc, passed, sleepLoop_succ observed, if_neg noOverflow,
        if_neg ((lt_measured_iff _ _).mpr above).not_ge]
    · intro fuel inside
      exact sleepLoop_skip observed fuel 0 (fun before less => fine before (inside before less)) inside

/-- A sleep of ten milliseconds by a clock that stops after one second. -/
theorem sleepsExactly_iff_second : SleepsExactly 10 0 fun turn => min turn 100 := by
  have observed : Observed 0 fun turn => min turn 100 := by
    refine ⟨Nat.zero_le _, fun first second later => ?_, fun turn => ?_⟩
    · exact min_le_min_right 100 later
    · omega
  have few (turn : Nat) : elapsed 0 (fun turn => min turn 100) turn ≤ 1000 := by
    have small : min turn 100 * 1000 < 2 ^ 64 := by omega
    change mul64 (min turn 100) 1000 / 100 - _ ≤ 1000
    rw [mul64_eq small]
    omega
  refine (sleepsExactly_iff observed).mpr ⟨fun turn _ => ?_, fun turn last => ?_⟩
  · have bound := few turn
    omega
  · have bound := few turn
    have above := last.1
    omega

/-- A sleep of `2 ^ 31` milliseconds does not end when the clock shows three billion. -/
theorem sleepsExactly_fails : ¬ ∀ timeMs startTicks ticks,
    Observed startTicks ticks → SleepsExactly timeMs startTicks ticks := by
  intro sleeps
  have observed : Observed 0 fun _ => 300000000 :=
    ⟨by decide, monotone_const, fun _ => by decide⟩
  have last : EndsAt (2 ^ 31) 0 (fun _ => 300000000) 0 := ⟨by decide, fun _ less => by cases less⟩
  have ends := (sleeps (2 ^ 31) 0 _ observed).ends 0 last 1 Nat.one_pos
  have running : kernelSleepMs (2 ^ 31) 0 (fun _ => 300000000) 1 = .error .endless := by
    rfl
  rw [running] at ends
  cases ends

end ArchaOS.Sleep
