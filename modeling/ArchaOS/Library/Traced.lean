import Mathlib.Tactic

namespace ArchaOS.Library

/-- A computation that records events in the order in which they happen. -/
structure Traced (Event Value : Type) where
  events : List Event
  value : Value
  deriving DecidableEq

namespace Traced

variable {Event Value Result : Type}

instance : Monad (Traced Event) where
  pure value := ⟨[], value⟩
  bind first next := ⟨first.events ++ (next first.value).events, (next first.value).value⟩

@[simp] theorem events_pure (value : Value) : (pure value : Traced Event Value).events = [] := rfl

@[simp] theorem value_pure (value : Value) : (pure value : Traced Event Value).value = value := rfl

@[simp] theorem events_bind (first : Traced Event Value) (next : Value → Traced Event Result) :
    (first >>= next).events = first.events ++ (next first.value).events := rfl

@[simp] theorem value_bind (first : Traced Event Value) (next : Value → Traced Event Result) :
    (first >>= next).value = (next first.value).value := rfl

@[simp] theorem events_map (f : Value → Result) (computation : Traced Event Value) :
    (f <$> computation).events = computation.events := List.append_nil _

@[simp] theorem value_map (f : Value → Result) (computation : Traced Event Value) :
    (f <$> computation).value = f computation.value := rfl

/-- Every event of the computation has a property. -/
def All (holds : Event → Prop) (computation : Traced Event Value) : Prop :=
  ∀ event ∈ computation.events, holds event

@[simp] theorem all_pure (holds : Event → Prop) (value : Value) :
    All holds (pure value : Traced Event Value) := by
  simp [All]

@[simp] theorem all_bind (holds : Event → Prop) (first : Traced Event Value)
    (next : Value → Traced Event Result) :
    All holds (first >>= next) ↔ All holds first ∧ All holds (next first.value) := by
  simp only [All, events_bind, List.mem_append]
  constructor
  · intro all
    exact ⟨fun event member => all event (Or.inl member), fun event member => all event (Or.inr member)⟩
  · rintro ⟨before, after⟩ event (member | member)
    · exact before event member
    · exact after event member

@[simp] theorem all_map (holds : Event → Prop) (f : Value → Result)
    (computation : Traced Event Value) : All holds (f <$> computation) ↔ All holds computation := by
  simp only [All, events_map]

/-- What holds of every event and of the value of two computations holds of their sequence. -/
theorem steps_bind {holds : Value → Prop} {first : Traced Value Value} {next : Value → Traced Value Value}
    (before : All holds first ∧ holds first.value)
    (after : ∀ value, holds value → All holds (next value) ∧ holds (next value).value) :
    All holds (first >>= next) ∧ holds (first >>= next).value := by
  obtain ⟨events, last⟩ := after first.value before.2
  exact ⟨(all_bind holds first next).mpr ⟨before.1, events⟩, last⟩

/-- A loop ends with the value that its turns give. -/
theorem value_foldlM {Item : Type} (turn : Value → Item → Traced Event Value) (items : List Item)
    (value : Value) :
    (items.foldlM turn value).value = items.foldl (fun value item => (turn value item).value) value := by
  induction items generalizing value with
  | nil => rfl
  | cons item items ih =>
      rw [List.foldlM_cons, value_bind, ih, List.foldl_cons]

/-- A property of the events of every turn is one of the whole loop. -/
theorem all_foldlM {Item : Type} {holds : Event → Prop} {turn : Value → Item → Traced Event Value}
    {items : List Item} (each : ∀ item ∈ items, ∀ value, All holds (turn value item)) (value : Value) :
    All holds (items.foldlM turn value) := by
  induction items generalizing value with
  | nil => exact all_pure holds value
  | cons item items ih =>
      rw [List.forall_mem_cons] at each
      rw [List.foldlM_cons, all_bind]
      exact ⟨each.1 value, ih each.2 _⟩

end Traced

end ArchaOS.Library
