import ArchaOS.Library.Runs

namespace ArchaOS.Library

variable {State Step Event Value : Type}

/-- The program takes a step, or an event arrives from outside. -/
inductive Move (Step Event : Type) where
  | own (step : Step)
  | outside (event : Event)

/-- The steps of the program alone. -/
def Move.steps : List (Move Step Event) → List Step
  | [] => []
  | .own step :: rest => step :: steps rest
  | .outside _ :: rest => steps rest

/-- The events alone. -/
def Move.events : List (Move Step Event) → List Event
  | [] => []
  | .own _ :: rest => events rest
  | .outside event :: rest => event :: events rest

section Interleaving

variable (perform : State → Step → State) (arrive : State → Event → State)

def Move.run (state : State) : Move Step Event → State
  | .own step => perform state step
  | .outside event => arrive state event

/-- A condition on the events alone, in the states in which they arrive. -/
def Move.Allows (allowed : State → Event → Prop) (state : State) : Move Step Event → Prop
  | .own _ => True
  | .outside event => allowed state event

variable {perform arrive} {quiet : State → Step → Prop} {allowed : State → Event → Prop}
  {alike : State → State → Prop} (same : Equivalence alike)
  (unseen : ∀ {state event}, allowed state event → alike (arrive state event) state)
include same unseen

/-- Events that only change what the program does not see leave no trace in its run, in whatever order
they arrive; the steps are judged in the run of the program alone. -/
theorem interleaved_alike
    (unaware : ∀ {state other step}, quiet other step → alike state other →
      alike (perform state step) (perform other step))
    {moves : List (Move Step Event)} {start other : State} (begins : alike start other)
    (steps : Guarded perform quiet other (Move.steps moves))
    (events : Guarded (Move.run perform arrive) (Move.Allows allowed) start moves) :
    alike (moves.foldl (Move.run perform arrive) start) ((Move.steps moves).foldl perform other) := by
  induction moves generalizing start other with
  | nil => exact begins
  | cons move rest ih =>
      cases move with
      | own step => exact ih (unaware steps.1 begins) steps.2 events.2
      | outside event => exact ih (same.trans (unseen events.1) begins) steps events.2

/-- What the steps leave alone changes by the events alone. -/
theorem interleaved_observed (observe : State → Value) (tally : Value → Event → Value)
    (unaware : ∀ {state other step}, quiet other step → alike state other →
      alike (perform state step) (perform other step))
    (keeps : ∀ {state other step}, quiet other step → alike state other →
      observe (perform state step) = observe state)
    (counts : ∀ {state event}, allowed state event →
      observe (arrive state event) = tally (observe state) event)
    {moves : List (Move Step Event)} {start other : State} (begins : alike start other)
    (steps : Guarded perform quiet other (Move.steps moves))
    (events : Guarded (Move.run perform arrive) (Move.Allows allowed) start moves) :
    observe (moves.foldl (Move.run perform arrive) start) =
      (Move.events moves).foldl tally (observe start) := by
  induction moves generalizing start other with
  | nil => rfl
  | cons move rest ih =>
      cases move with
      | own step =>
          rw [← keeps steps.1 begins]
          exact ih (unaware steps.1 begins) steps.2 events.2
      | outside event =>
          refine (ih (same.trans (unseen events.1) begins) steps events.2).trans ?_
          have first : observe (arrive start event) = _ := counts events.1
          change (Move.events rest).foldl tally (observe (arrive start event)) = _
          rw [first]
          rfl

end Interleaving

end ArchaOS.Library
