import Mathlib.Data.List.Basic
import Mathlib.Tactic

namespace ArchaOS.Library

variable {A : Type}

/-- A counted search succeeds at the first index that answers. -/
theorem findSome_range_some {limit : Nat} {f : Nat → Option A} {found : A}
    (result : (List.range limit).findSome? f = some found) :
    ∃ index, index < limit ∧ f index = some found ∧ ∀ earlier, earlier < index → f earlier = none := by
  induction limit with
  | zero => simp at result
  | succ limit ih =>
      rw [List.range_succ, List.findSome?_append] at result
      cases before : (List.range limit).findSome? f with
      | some first =>
          rw [before, Option.some_or, Option.some.injEq] at result
          obtain ⟨index, low, answer, silent⟩ := ih (result ▸ before)
          exact ⟨index, Nat.lt_succ_of_lt low, answer, silent⟩
      | none =>
          rw [before, Option.none_or] at result
          rw [List.findSome?_eq_none_iff] at before
          refine ⟨limit, Nat.lt_succ_self limit, ?_, fun earlier low => before earlier (by simpa using low)⟩
          simpa using result

/-- A search that finds nothing fails at every index. -/
theorem findSome_range_none {limit : Nat} {f : Nat → Option A}
    (result : (List.range limit).findSome? f = none) :
    ∀ index, index < limit → f index = none := by
  rw [List.findSome?_eq_none_iff] at result
  exact fun index low => result index (by simpa using low)

end ArchaOS.Library
