import ArchaOS.Construction.LineDrawing

/-
This file models kernel_sleep_ms of kernel/lib/time.h over the tick counts that
kernel/arch/x86_64/timer/clock.c keeps.
-/

namespace ArchaOS.Sleep

open Library Graphics

/-- `get_milliseconds`, for the answer of `get_ticks`. -/
def getMilliseconds (ticks : Nat) : Nat := mul64 ticks 1000 / 100

/-- A `uint64_t` that is passed as an `int`. -/
def toInt (value : Nat) : Int := (BitVec.ofNat 32 value).toInt

/-- An `int` that is compared with a `uint64_t`. -/
def toUint64 (value : Int) : Nat := (BitVec.ofInt 64 value).toNat

/-- `while (abs(start_time - get_milliseconds()) <= time_ms)`, for a bounded number of turns; `ticks`
holds the count that each turn observes, and the result is the turn that ends the loop. -/
def sleepLoop (timeMs startTime : Nat) (ticks : Nat → Nat) : Nat → Nat → Outcome Nat
  | 0, _ => .error .endless
  | fuel + 1, turn => do
      let difference ← Graphics.abs (toInt (sub64 startTime (getMilliseconds (ticks turn))))
      if toUint64 difference ≤ timeMs then sleepLoop timeMs startTime ticks fuel (turn + 1)
      else return turn

def kernelSleepMs (timeMs startTicks : Nat) (ticks : Nat → Nat) (fuel : Nat) : Outcome Nat :=
  sleepLoop timeMs (getMilliseconds startTicks) ticks fuel 0

end ArchaOS.Sleep
