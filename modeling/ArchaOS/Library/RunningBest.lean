import Mathlib.Order.RelClasses
import Mathlib.Order.Bounds.Basic

namespace ArchaOS.Library

variable {A : Type}

/-- A loop variable that starts with `start` and takes over each better value. -/
structure RunningBest (better : A → A → Prop) (values : List A) (start best : A) : Prop where
  unbeaten : ∀ value ∈ values, ¬ better value best
  reached : best = start ∨ best ∈ values

namespace RunningBest

variable {better : A → A → Prop} {values : List A} {start best : A}

/-- The best of no item is the start. -/
theorem empty (better : A → A → Prop) (start : A) : RunningBest better [] start start :=
  ⟨fun _ member => absurd member List.not_mem_nil, Or.inl rfl⟩

/-- One more value -/
theorem append [DecidableRel better] [IsStrictOrder A better]
    (running : RunningBest better values start best) (value : A) :
    RunningBest better (values ++ [value]) start (if better value best then value else best) := by
  split
  · rename_i wins
    constructor
    · intro other member beats
      cases List.mem_append.mp member with
      | inl earlier => exact running.unbeaten other earlier (IsTrans.trans _ _ _ beats wins)
      | inr last =>
          rw [List.mem_singleton.mp last] at beats
          exact irrefl value beats
    · exact Or.inr (List.mem_append_right _ (List.mem_singleton_self value))
  · rename_i loses
    constructor
    · intro other member
      cases List.mem_append.mp member with
      | inl earlier => exact running.unbeaten other earlier
      | inr last =>
          rw [List.mem_singleton.mp last]
          exact loses
    · exact running.reached.imp id (List.mem_append_left _)

/-- Where no value is worse than the start, the best one is among the values. -/
theorem member (running : RunningBest better values start best) (some : values ≠ [])
    (fine : ∀ value ∈ values, ¬ better start value)
    (total : ∀ first second, ¬ better first second → ¬ better second first → first = second) :
    best ∈ values := by
  cases running.reached with
  | inr member => exact member
  | inl same =>
      obtain ⟨value, member⟩ := List.exists_mem_of_ne_nil values some
      have equal : best = value :=
        total best value (same ▸ fine value member) (running.unbeaten value member)
      rw [equal]
      exact member

end RunningBest

/-- A running minimum from above is the least value. -/
theorem RunningBest.isLeast {values : List Nat} {start best : Nat}
    (running : RunningBest (· < ·) values start best) (some : values ≠ [])
    (below : ∀ value ∈ values, value ≤ start) : IsLeast {value | value ∈ values} best := by
  constructor
  · apply running.member some (fun value member => Nat.not_lt.mpr (below value member))
    intro first second left right
    exact Nat.le_antisymm (Nat.not_lt.mp right) (Nat.not_lt.mp left)
  · intro value member
    exact Nat.not_lt.mp (running.unbeaten value member)

/-- A running maximum from below is the greatest value. -/
theorem RunningBest.isGreatest {values : List Nat} {start best : Nat}
    (running : RunningBest (· > ·) values start best) (some : values ≠ [])
    (above : ∀ value ∈ values, start ≤ value) : IsGreatest {value | value ∈ values} best := by
  constructor
  · apply running.member some (fun value member => Nat.not_lt.mpr (above value member))
    intro first second left right
    exact Nat.le_antisymm (Nat.not_lt.mp left) (Nat.not_lt.mp right)
  · intro value member
    exact Nat.not_lt.mp (running.unbeaten value member)

end ArchaOS.Library
