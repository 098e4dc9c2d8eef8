import Mathlib.Logic.Function.Basic
import Mathlib.Data.List.Basic

namespace ArchaOS.Library

variable {Key Value Item : Type} {point : Key} {value : Value}

/-- A turn of a loop over a function gives one point a value under a condition and leaves the point
alone otherwise. -/
structure SetsWhen (point : Key) (value : Value) (condition : Prop)
    (turn : (Key → Value) → Key → Value) : Prop where
  sets : condition → ∀ f, turn f point = value
  keeps : ¬ condition → ∀ f, turn f point = f point

/-- A write to one key that gives the point its value if the key is the point. -/
theorem setsWhen_update [DecidableEq Key] {key : Key} {new : Value} (same : key = point → new = value) :
    SetsWhen point value (key = point) fun f => Function.update f key new := by
  constructor
  · intro here f
    rw [here, Function.update_self, same here]
  · intro elsewhere f
    exact Function.update_of_ne (Ne.symm elsewhere) new f

/-- A turn sets its point under any equivalent condition. -/
theorem SetsWhen.congr {condition other : Prop} {turn : (Key → Value) → Key → Value}
    (turned : SetsWhen point value condition turn) (same : other ↔ condition) :
    SetsWhen point value other turn := by
  rw [same]
  exact turned

/-- A guarded turn sets its point when the guard and the condition hold. -/
theorem SetsWhen.ite {condition guard : Prop} [Decidable guard]
    {turn : (Key → Value) → Key → Value} (body : guard → SetsWhen point value condition turn) :
    SetsWhen point value (guard ∧ condition) fun f => if guard then turn f else f := by
  constructor
  · intro both f
    rw [if_pos both.1]
    exact (body both.1).sets both.2 f
  · intro missed f
    split
    · rename_i guarded
      exact (body guarded).keeps (fun holds => missed ⟨guarded, holds⟩) f
    · rfl

/-- A loop sets the point when one of its turns does, as all of them agree on the value. -/
theorem SetsWhen.loop {condition : Item → Prop} {turn : Item → (Key → Value) → Key → Value}
    {items : List Item} (each : ∀ item ∈ items, SetsWhen point value (condition item) (turn item)) :
    SetsWhen point value (∃ item ∈ items, condition item)
      fun f => items.foldl (fun f item => turn item f) f := by
  induction items with
  | nil => exact ⟨fun ⟨_, impossible, _⟩ => absurd impossible List.not_mem_nil, fun _ _ => rfl⟩
  | cons item rest ih =>
      rw [List.forall_mem_cons] at each
      have tail := ih each.2
      constructor
      · rintro ⟨setter, member, holds⟩ f
        rw [List.foldl_cons]
        by_cases later : ∃ item ∈ rest, condition item
        · exact tail.sets later _
        · rcases List.mem_cons.mp member with rfl | member
          · exact (tail.keeps later _).trans (each.1.sets holds f)
          · exact absurd ⟨setter, member, holds⟩ later
      · intro none f
        have first : ¬ condition item := fun holds => none ⟨item, List.mem_cons_self, holds⟩
        have later : ¬ ∃ item ∈ rest, condition item := fun ⟨other, member, holds⟩ =>
          none ⟨other, List.mem_cons_of_mem _ member, holds⟩
        exact (tail.keeps later _).trans (each.1.keeps first f)

/-- A counted loop. -/
theorem SetsWhen.count {condition : Nat → Prop} {turn : Nat → (Key → Value) → Key → Value} {count : Nat}
    (each : ∀ i < count, SetsWhen point value (condition i) (turn i)) :
    SetsWhen point value (∃ i < count, condition i)
      fun f => (List.range count).foldl (fun f i => turn i f) f := by
  have looped : SetsWhen point value (∃ i ∈ List.range count, condition i)
      fun f => (List.range count).foldl (fun f i => turn i f) f :=
    SetsWhen.loop fun i member => each i (List.mem_range.mp member)
  simpa only [List.mem_range] using looped

end ArchaOS.Library
