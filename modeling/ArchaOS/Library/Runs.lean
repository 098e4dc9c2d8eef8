import Mathlib.Data.List.Basic

namespace ArchaOS.Library

variable {State Event : Type}

/-- The list holds every state that a run visits, its first state included. -/
def visited (step : State → Event → State) : State → List Event → List State
  | state, [] => [state]
  | state, event :: rest => state :: visited step (step state event) rest

/-- Every event of the run meets a condition in the state that it arrives in. -/
def Guarded (step : State → Event → State) (allowed : State → Event → Prop) :
    State → List Event → Prop
  | _, [] => True
  | state, event :: rest => allowed state event ∧ Guarded step allowed (step state event) rest

@[simp] theorem visited_nil (step : State → Event → State) (state : State) :
    visited step state [] = [state] := rfl

@[simp] theorem visited_cons (step : State → Event → State) (state : State) (event : Event)
    (rest : List Event) :
    visited step state (event :: rest) = state :: visited step (step state event) rest := rfl

@[simp] theorem guarded_nil (step : State → Event → State) (allowed : State → Event → Prop)
    (state : State) : Guarded step allowed state [] := trivial

@[simp] theorem guarded_cons (step : State → Event → State) (allowed : State → Event → Prop)
    (state : State) (event : Event) (rest : List Event) :
    Guarded step allowed state (event :: rest) ↔
      allowed state event ∧ Guarded step allowed (step state event) rest := Iff.rfl

/-- A run of two parts is allowed exactly when the first is, and the second after it. -/
theorem guarded_append {step : State → Event → State} {allowed : State → Event → Prop}
    {state : State} {first second : List Event} :
    Guarded step allowed state (first ++ second) ↔
      Guarded step allowed state first ∧ Guarded step allowed (first.foldl step state) second := by
  induction first generalizing state with
  | nil => simp
  | cons event rest ih => simp only [List.cons_append, guarded_cons, List.foldl_cons, ih, and_assoc]

/-- A run can be checked event by event. -/
def guardedDecidable (step : State → Event → State) (allowed : State → Event → Prop)
    [∀ state event, Decidable (allowed state event)] :
    (state : State) → (events : List Event) → Decidable (Guarded step allowed state events)
  | _, [] => .isTrue trivial
  | state, event :: rest =>
      haveI := guardedDecidable step allowed (step state event) rest
      inferInstanceAs (Decidable (_ ∧ _))

instance (step : State → Event → State) (allowed : State → Event → Prop)
    [∀ state event, Decidable (allowed state event)] (state : State) (events : List Event) :
    Decidable (Guarded step allowed state events) := guardedDecidable step allowed state events

/-- A run visits its first state. -/
theorem visited_head (step : State → Event → State) (state : State) (events : List Event) :
    state ∈ visited step state events := by
  cases events <;> simp

/-- A run visits its last state. -/
theorem visited_last (step : State → Event → State) (state : State) (events : List Event) :
    events.foldl step state ∈ visited step state events := by
  induction events generalizing state with
  | nil => simp
  | cons event rest ih =>
      rw [List.foldl_cons, visited_cons]
      exact List.mem_cons_of_mem _ (ih (step state event))

/-- A property that every allowed event keeps holds in every visited state. -/
theorem visited_invariant {step : State → Event → State} {allowed : State → Event → Prop}
    {invariant : State → Prop}
    (keeps : ∀ state event, invariant state → allowed state event → invariant (step state event))
    {state : State} {events : List Event} (start : invariant state)
    (guarded : Guarded step allowed state events) :
    ∀ reached ∈ visited step state events, invariant reached := by
  induction events generalizing state with
  | nil =>
      intro reached member
      rw [visited_nil, List.mem_singleton] at member
      exact member ▸ start
  | cons event rest ih =>
      intro reached member
      rcases List.mem_cons.mp member with same | later
      · exact same ▸ start
      · exact ih (keeps state event start guarded.1) guarded.2 reached later

/-- An invariant carries one event condition over to another along the whole run. -/
theorem guarded_mono {step : State → Event → State} {weak strong : State → Event → Prop}
    {invariant : State → Prop}
    (keeps : ∀ state event, invariant state → weak state event → invariant (step state event))
    (implies : ∀ state event, invariant state → weak state event → strong state event)
    {state : State} {events : List Event} (start : invariant state)
    (guarded : Guarded step weak state events) : Guarded step strong state events := by
  induction events generalizing state with
  | nil => trivial
  | cons event rest ih =>
      exact ⟨implies state event start guarded.1, ih (keeps state event start guarded.1) guarded.2⟩

/-- Conditions that agree under an invariant agree along the whole run. -/
theorem guarded_iff {step : State → Event → State} {left right : State → Event → Prop}
    {invariant : State → Prop}
    (keeps : ∀ state event, invariant state → invariant (step state event))
    (agree : ∀ state event, invariant state → (left state event ↔ right state event))
    {state : State} {events : List Event} (start : invariant state) :
    Guarded step left state events ↔ Guarded step right state events := by
  constructor
  · exact guarded_mono (fun state event inside _ => keeps state event inside)
      (fun state event inside => (agree state event inside).mp) start
  · exact guarded_mono (fun state event inside _ => keeps state event inside)
      (fun state event inside => (agree state event inside).mpr) start

/-- Two systems that stay related while one condition holds meet their conditions on the same runs. -/
theorem guarded_simulation {Other : Type} {step : State → Event → State}
    {next : Other → Event → Other} {left : State → Event → Prop} {right : Other → Event → Prop}
    (related : State → Other → Prop)
    (agree : ∀ state other event, related state other → (left state event ↔ right other event))
    (keeps : ∀ state other event, related state other → left state event →
      related (step state event) (next other event))
    {state : State} {other : Other} {events : List Event} (start : related state other) :
    Guarded step left state events ↔ Guarded next right other events := by
  induction events generalizing state other with
  | nil => exact Iff.rfl
  | cons event rest ih =>
      rw [guarded_cons, guarded_cons, ← agree state other event start]
      exact and_congr_right fun holds => ih (keeps state other event start holds)

/-- Step functions that agree under an invariant make the same run. -/
theorem visited_same {step next : State → Event → State} {allowed : State → Event → Prop}
    {invariant : State → Prop}
    (keeps : ∀ state event, invariant state → allowed state event → invariant (step state event))
    (agree : ∀ state event, invariant state → allowed state event →
      next state event = step state event)
    {state : State} {events : List Event} (start : invariant state)
    (guarded : Guarded step allowed state events) :
    visited next state events = visited step state events ∧
      events.foldl next state = events.foldl step state ∧
      ∀ condition, Guarded next condition state events ↔ Guarded step condition state events := by
  induction events generalizing state with
  | nil => exact ⟨rfl, rfl, fun _ => Iff.rfl⟩
  | cons event rest ih =>
      obtain ⟨visits, ends, conditions⟩ := ih (keeps state event start guarded.1) guarded.2
      have same := agree state event start guarded.1
      rw [visited_cons, visited_cons, List.foldl_cons, List.foldl_cons, same]
      refine ⟨congrArg _ visits, ends, fun condition => ?_⟩
      rw [guarded_cons, guarded_cons, same, conditions]

/-- A condition on the events alone can be checked without the states. -/
theorem guarded_of_forall {step : State → Event → State} {allowed : Event → Prop}
    {events : List Event} (holds : ∀ event ∈ events, allowed event) (state : State) :
    Guarded step (fun _ event => allowed event) state events := by
  induction events generalizing state with
  | nil => trivial
  | cons event rest ih =>
      exact ⟨holds event List.mem_cons_self,
        ih (fun later member => holds later (List.mem_cons_of_mem _ member)) _⟩

/-- A property that every event keeps holds in every visited state. -/
theorem visited_always {step : State → Event → State} {invariant : State → Prop}
    (keeps : ∀ state event, invariant state → invariant (step state event)) {state : State}
    (start : invariant state) (events : List Event) :
    ∀ reached ∈ visited step state events, invariant reached := by
  have free : Guarded step (fun _ _ => True) state events :=
    guarded_of_forall (fun _ _ => trivial) state
  exact visited_invariant (fun state event inside _ => keeps state event inside) start free

/-- A run meets two conditions exactly when it meets each. -/
theorem guarded_and {step : State → Event → State} {first second : State → Event → Prop}
    {state : State} {events : List Event} :
    Guarded step (fun s e => first s e ∧ second s e) state events ↔
      Guarded step first state events ∧ Guarded step second state events := by
  induction events generalizing state with
  | nil => simp
  | cons event rest ih =>
      simp only [guarded_cons, ih]
      tauto

/-- When the allowed events keep a strong invariant and every other event breaks a weak one, a run
stays inside the weak invariant exactly if all its events are allowed. -/
theorem visited_iff_guarded {step : State → Event → State} {legal allowed : State → Event → Prop}
    {strong weak : State → Prop} (weaken : ∀ state, strong state → weak state)
    (keeps : ∀ state event, strong state → legal state event → allowed state event →
      strong (step state event))
    (breaks : ∀ state event, strong state → legal state event → ¬ allowed state event →
      ¬ weak (step state event))
    {state : State} {events : List Event} (start : strong state)
    (guarded : Guarded step legal state events) :
    (∀ reached ∈ visited step state events, weak reached) ↔ Guarded step allowed state events := by
  induction events generalizing state with
  | nil => simpa using weaken state start
  | cons event rest ih =>
      by_cases permitted : allowed state event
      · have next := ih (keeps state event start guarded.1 permitted) guarded.2
        simp only [visited_cons, List.mem_cons, forall_eq_or_imp, weaken state start, true_and, next,
          guarded_cons, permitted]
      · have broken := breaks state event start guarded.1 permitted
        constructor
        · intro inside
          exact absurd (inside _ (List.mem_cons_of_mem _ (visited_head step _ rest))) broken
        · intro impossible
          exact absurd impossible.1 permitted

end ArchaOS.Library
