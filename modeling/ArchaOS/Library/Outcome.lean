import Mathlib.Data.List.Basic

namespace ArchaOS.Library

variable {Failure A B : Type}

theorem ok_bind (value : A) (next : A → Except Failure B) : (.ok value >>= next) = next value := rfl

/-- A sequence returns exactly when its first part returns and the rest returns after it. -/
theorem bind_eq_ok {first : Except Failure A} {next : A → Except Failure B} {result : B} :
    (first >>= next) = .ok result ↔ ∃ value, first = .ok value ∧ next value = .ok result := by
  cases first with
  | error failure =>
      constructor
      · intro impossible
        cases impossible
      · rintro ⟨_, impossible, _⟩
        cases impossible
  | ok value =>
      constructor
      · exact fun returned => ⟨value, rfl, returned⟩
      · rintro ⟨_, same, returned⟩
        cases same
        exact returned

/-- A result is mapped exactly when there is one. -/
theorem map_eq_ok {f : A → B} {first : Except Failure A} {result : B} :
    f <$> first = .ok result ↔ ∃ value, first = .ok value ∧ f value = result := by
  cases first with
  | error failure =>
      constructor
      · intro impossible
        cases impossible
      · rintro ⟨value, impossible, _⟩
        cases impossible
  | ok value =>
      constructor
      · intro same
        exact ⟨value, rfl, Except.ok.inj same⟩
      · rintro ⟨_, same, rfl⟩
        cases same
        rfl

/-- Renaming a failure changes no result. -/
theorem mapError_eq_ok {Other : Type} {rename : Failure → Other} {first : Except Failure A}
    {result : A} : first.mapError rename = .ok result ↔ first = .ok result := by
  cases first with
  | error failure =>
      constructor <;> intro impossible <;> cases impossible
  | ok value =>
      constructor <;> intro same <;> exact congrArg Except.ok (Except.ok.inj same)

/-- Two sequences are equal when they continue equally after every returning first part. -/
theorem bind_congr_ok {first : Except Failure A} {next other : A → Except Failure B}
    (same : ∀ value, first = .ok value → next value = other value) :
    (first >>= next) = (first >>= other) := by
  cases first with
  | error failure => rfl
  | ok value => exact same value rfl

/-- A property that every returning turn keeps holds after a returning loop. -/
theorem foldlM_keeps {turn : A → B → Except Failure A} {holds : A → Prop} {items : List B}
    (keeps : ∀ state item next, item ∈ items → holds state → turn state item = .ok next → holds next)
    {start last : A} (initial : holds start) (returned : items.foldlM turn start = .ok last) :
    holds last := by
  induction items generalizing start with
  | nil =>
      obtain rfl : start = last := Except.ok.inj returned
      exact initial
  | cons item rest ih =>
      rw [List.foldlM_cons, bind_eq_ok] at returned
      obtain ⟨middle, turned, returned⟩ := returned
      refine ih (fun state other next member => keeps state other next (List.mem_cons_of_mem _ member))
        (keeps start item middle (by simp) initial turned) returned

/-- A loop whose returning turns another loop repeats is repeated by it. -/
theorem foldlM_transfer {turn other : A → B → Except Failure A} {holds : A → Prop}
    (repeats : ∀ state item next, holds state → turn state item = .ok next →
      other state item = .ok next ∧ holds next) {items : List B}
    {start last : A} (initial : holds start) (returned : items.foldlM turn start = .ok last) :
    items.foldlM other start = .ok last ∧ holds last := by
  induction items generalizing start with
  | nil =>
      obtain rfl : start = last := Except.ok.inj returned
      exact ⟨returned, initial⟩
  | cons item rest ih =>
      rw [List.foldlM_cons, bind_eq_ok] at returned
      obtain ⟨middle, turned, returned⟩ := returned
      obtain ⟨repeated, kept⟩ := repeats start item middle initial turned
      obtain ⟨later, done⟩ := ih kept returned
      refine ⟨?_, done⟩
      rw [List.foldlM_cons, bind_eq_ok]
      exact ⟨middle, repeated, later⟩

section Related

variable {Other C : Type}

/-- Two computations fail alike or return related values. -/
def Alike (related : A → B → Prop) : Except Failure A → Except Failure B → Prop
  | .ok left, .ok right => related left right
  | .error left, .error right => left = right
  | _, _ => False

/-- Related sequences have related first parts and related rests. -/
theorem Alike.bind {related : A → B → Prop} {later : Other → C → Prop} {left : Except Failure A}
    {right : Except Failure B} {nextLeft : A → Except Failure Other} {nextRight : B → Except Failure C}
    (alike : Alike related left right)
    (next : ∀ one two, related one two → Alike later (nextLeft one) (nextRight two)) :
    Alike later (left >>= nextLeft) (right >>= nextRight) := by
  cases left with
  | error failure =>
      cases right with
      | error other => exact alike
      | ok value => exact alike.elim
  | ok one =>
      cases right with
      | error other => exact alike.elim
      | ok two => exact next one two alike

/-- Loops whose turns are alike are alike. -/
theorem foldlM_alike {Item : Type} {related : A → B → Prop} {turn : A → Item → Except Failure A}
    {other : B → Item → Except Failure B}
    (turns : ∀ one two item, related one two → Alike related (turn one item) (other two item))
    (items : List Item) {one : A} {two : B} (start : related one two) :
    Alike related (items.foldlM turn one) (items.foldlM other two) := by
  induction items generalizing one two with
  | nil => exact start
  | cons item rest ih =>
      rw [List.foldlM_cons, List.foldlM_cons]
      exact (turns one two item start).bind fun _ _ next => ih next

end Related

end ArchaOS.Library
