import ArchaOS.Proof.Syscalls.Calls

namespace ArchaOS.Syscalls

/-- The abstract table maps each syscall number to the function registered under it. -/
abbrev Registry := Nat → Option Nat

/-- An assignment takes a free number and a removal releases it. -/
def Call.register (registry : Registry) (call : Call) : Registry :=
  match call.assigns, call.removes with
  | some handler, _ =>
      if handler.id < syscallCount ∧ handler.function ≠ 0 ∧ registry handler.id = none then
        Function.update registry handler.id (some handler.function)
      else registry
  | none, some id => if id < syscallCount then Function.update registry id none else registry
  | none, none => registry

def Call.Flagged (call : Call) : Prop :=
  ∀ handler, call.assigns = some handler → hasFlag handler.flags flagExists = true

/-- Some call of the run passes this number together with a function. -/
def Offered (calls : List Call) (id : Nat) : Prop :=
  ∃ call ∈ calls, ∃ handler, call.assigns = some handler ∧ handler.id = id ∧
    handler.id < syscallCount ∧ handler.function ≠ 0

/-- The law asks a dispatch to reach the registered function and nothing else. -/
def DispatchLaw (registry : Registry) (syscalls : Table) (f : SyscallFrame) : Prop :=
  syscallDispatch f syscalls =
    match registry f.id with
    | some function => .called function f.arg1 f.arg2 f.arg3 f.arg4 f.arg5 f.arg6
    | none => .returned .invalid

/-- A slot keeps its number after its first assignment and its flag while it is registered. -/
structure SlotView (slot : SyscallHandler) (id : Nat) (registered : Option Nat)
    (seen : Prop) : Prop where
  present : ∀ function, registered = some function →
    seen ∧ hasFlag slot.flags flagExists = true ∧ slot.function = function
  absent : registered = none → hasFlag slot.flags flagExists = false
  named : seen → slot.id = id
  unnamed : ¬ seen → slot.id = 0

def Represents (syscalls : Table) (registry : Registry) (seen : Nat → Prop) : Prop :=
  ∀ id, id < syscallCount → SlotView (syscalls id) id (registry id) (seen id)

/-- The cleared table represents no service. -/
theorem represents_zero : Represents zeroTable (fun _ => none) (fun _ => False) := by
  intro id _
  exact ⟨by simp, by simp [zeroTable], by simp, by simp [zeroTable]⟩

/-- The history of one call extends the set of numbers that have been offered. -/
theorem offered_cons (call : Call) (rest : List Call) (id : Nat) :
    Offered (call :: rest) id ↔ Offered [call] id ∨ Offered rest id := by
  simp [Offered, or_and_right, exists_or]

section OneCall

variable {syscalls : Table} {registry : Registry} {seen : Nat → Prop} {call : Call}
  (represented : Represents syscalls registry seen)
include represented

/-- A slot has its flag exactly while the registry has a function for its number. -/
theorem Represents.flag_iff {id : Nat} (low : id < syscallCount) :
    hasFlag (syscalls id).flags flagExists = true ↔ registry id ≠ none := by
  have view := represented id low
  constructor
  · intro taken none
    simp [view.absent none] at taken
  · intro registered
    obtain ⟨function, some⟩ := Option.ne_none_iff_exists'.mp registered
    exact (view.present function some).2.1

/-- A flagged assignment keeps the table and the registry in step. -/
theorem represents_assign {handler : SyscallHandler}
    (flagged : hasFlag handler.flags flagExists = true) (assigns : call.assigns = some handler)
    (effect : ∀ syscalls, call.apply syscalls = Syscalls.assignSyscallHandler handler syscalls) :
    Represents (call.table syscalls) (call.register registry) fun id => seen id ∨ Offered [call] id := by
  intro id inside
  have view := represented id inside
  have offered (other : Nat) : Offered [call] other ↔ handler.id = other ∧
      handler.id < syscallCount ∧ handler.function ≠ 0 := by
    simp [Offered, assigns]
  rcases assignSyscallHandler_cases handler syscalls with
    ⟨refused, result⟩ | ⟨⟨low, nonnull, taken⟩, result⟩ | ⟨⟨low, nonnull, free⟩, result⟩
  · have closed : ¬ (handler.id < syscallCount ∧ handler.function ≠ 0) := by
      rcases refused with high | null
      · exact fun both => absurd both.1 (not_lt.mpr high)
      · exact fun both => both.2 null
    have same : call.register registry = registry := by
      simp only [Call.register, assigns]
      exact if_neg fun all => closed ⟨all.1, all.2.1⟩
    have quiet : ¬ Offered [call] id := fun some => closed ((offered id).mp some).2
    simpa only [Call.table, effect, result, same, quiet, or_false] using view
  · have registered := (represented.flag_iff low).mp taken
    have same : call.register registry = registry := by
      simp only [Call.register, assigns]
      exact if_neg fun all => registered all.2.2
    obtain ⟨function, some⟩ := Option.ne_none_iff_exists'.mp registered
    have seenOwner := ((represented handler.id low).present function some).1
    have known : (seen id ∨ Offered [call] id) ↔ seen id := by
      rw [offered]
      constructor
      · rintro (old | ⟨rfl, _⟩)
        · exact old
        · exact seenOwner
      · exact Or.inl
    simpa only [Call.table, effect, result, same, known] using view
  · have unregistered : registry handler.id = none := by
      by_contra registered
      rw [(represented.flag_iff low).mpr registered] at free
      cases free
    have next : call.register registry =
        Function.update registry handler.id (some handler.function) := by
      simp only [Call.register, assigns]
      exact if_pos ⟨low, nonnull, unregistered⟩
    simp only [Call.table, effect, result, next]
    by_cases same : id = handler.id
    · subst same
      have seenNow : seen handler.id ∨ Offered [call] handler.id :=
        Or.inr ((offered handler.id).mpr ⟨rfl, low, nonnull⟩)
      refine ⟨?_, ?_, ?_, ?_⟩
      · intro function some
        rw [Function.update_self, Option.some.injEq] at some
        rw [Function.update_self]
        exact ⟨seenNow, flagged, some⟩
      · simp
      · simp
      · exact fun unseen => absurd seenNow unseen
    · have known : (seen id ∨ Offered [call] id) ↔ seen id := by
        rw [offered]
        simp [Ne.symm same]
      simpa only [Function.update_of_ne same, known] using view

/-- A removal keeps the table and the registry in step. -/
theorem represents_remove {target : Nat} (assigns : call.assigns = none)
    (removes : call.removes = some target)
    (effect : ∀ syscalls, call.apply syscalls = Syscalls.removeSyscall target syscalls) :
    Represents (call.table syscalls) (call.register registry) fun id => seen id ∨ Offered [call] id := by
  intro id inside
  have view := represented id inside
  have quiet : ¬ Offered [call] id := by
    simp [Offered, assigns]
  rcases removeSyscall_cases target syscalls with ⟨high, result⟩ | ⟨low, result⟩
  · have same : call.register registry = registry := by
      simp only [Call.register, assigns, removes]
      exact if_neg (not_lt.mpr high)
    simpa only [Call.table, effect, result, same, quiet, or_false] using view
  · have next : call.register registry = Function.update registry target none := by
      simp only [Call.register, assigns, removes]
      exact if_pos low
    simp only [Call.table, effect, result, next, quiet, or_false]
    by_cases same : id = target
    · subst same
      simp only [Function.update_self]
      exact ⟨by simp, by simp, view.named, view.unnamed⟩
    · simpa only [Function.update_of_ne same] using view

end OneCall

/-- One flagged call keeps the table and the registry in step. -/
theorem represents_step (syscalls : Table) (registry : Registry) (seen : Nat → Prop) (call : Call)
    (flagged : call.Flagged) (represented : Represents syscalls registry seen) :
    Represents (call.table syscalls) (call.register registry)
      (fun id => seen id ∨ Offered [call] id) := by
  rcases call.cases with ⟨handler, assigns, _, effect⟩ | ⟨target, assigns, removes, effect⟩
  · exact represents_assign represented (flagged handler assigns) assigns effect
  · exact represents_remove represented assigns removes effect

/-- A whole run keeps the table and the registry in step. -/
theorem represents_run (calls : List Call) (syscalls : Table) (registry : Registry)
    (seen : Nat → Prop) (flagged : ∀ call ∈ calls, call.Flagged)
    (represented : Represents syscalls registry seen) :
    Represents (calls.foldl Call.table syscalls) (calls.foldl Call.register registry)
      (fun id => seen id ∨ Offered calls id) := by
  induction calls generalizing syscalls registry seen with
  | nil => simpa [Offered] using represented
  | cons call rest ih =>
      have first := represents_step syscalls registry seen call (flagged call (by simp)) represented
      have later := ih _ _ _ (fun other member => flagged other (by simp [member])) first
      have same : (fun id => (seen id ∨ Offered [call] id) ∨ Offered rest id) =
          fun id => seen id ∨ Offered (call :: rest) id := by
        funext id
        rw [offered_cons call rest, or_assoc]
      rw [same] at later
      exact later

/-- The inverted flag test makes a dispatch reject exactly the registered slots and the slots
that were never assigned. -/
theorem syscallDispatch_eq (syscalls : Table) (f : SyscallFrame) (inside : f.id < syscallCount) :
    syscallDispatch f syscalls =
      if (syscalls f.id).id = 0 ∨ hasFlag (syscalls f.id).flags flagExists = true then
        .returned .invalid
      else .called (syscalls f.id).function f.arg1 f.arg2 f.arg3 f.arg4 f.arg5 f.arg6 := by
  have within : ¬ f.id > syscallCount := by omega
  simp [syscallDispatch, within]

/-- After a run of flagged calls, a dispatch obeys the law exactly for a number that was never
offered and for a released number zero. -/
theorem dispatchLaw_iff (calls : List Call) (f : SyscallFrame)
    (flagged : ∀ call ∈ calls, call.Flagged) (inside : f.id < syscallCount) :
    DispatchLaw (calls.foldl Call.register fun _ => none) (calls.foldl Call.table zeroTable) f ↔
      ¬ Offered calls f.id ∨
        f.id = 0 ∧ calls.foldl Call.register (fun _ => none) f.id = none := by
  have view := represents_run calls zeroTable (fun _ => none) (fun _ => False) flagged
    represents_zero f.id inside
  simp only [false_or] at view
  rw [DispatchLaw, syscallDispatch_eq _ f inside]
  cases registered : calls.foldl Call.register (fun _ => none) f.id with
  | some function =>
      have facts := view.present function registered
      rw [if_pos (Or.inr facts.2.1)]
      simp [facts.1]
  | none =>
      have cleared := view.absent registered
      by_cases offered : Offered calls f.id
      · have number := view.named offered
        simp [cleared, number, offered]
      · simp [view.unnamed offered, offered]

/-- A frame for a slot that nobody assigned. -/
theorem dispatchLaw_iff_unassigned :
    (∀ call ∈ [Call.assignSyscall 7 4096 1], call.Flagged) ∧
      (DispatchLaw ([Call.assignSyscall 7 4096 1].foldl Call.register fun _ => none)
          ([Call.assignSyscall 7 4096 1].foldl Call.table zeroTable) ⟨5, 1, 2, 3, 4, 5, 6⟩ ↔
        ¬ Offered [Call.assignSyscall 7 4096 1] 5 ∨
          (5 : Nat) = 0 ∧
            [Call.assignSyscall 7 4096 1].foldl Call.register (fun _ => none) 5 = none) := by
  have flagged : ∀ call ∈ [Call.assignSyscall 7 4096 1], call.Flagged := by
    simp [Call.Flagged, Call.assigns, hasFlag, flagExists]
  exact ⟨flagged, dispatchLaw_iff _ ⟨5, 1, 2, 3, 4, 5, 6⟩ flagged (by decide)⟩

/-- A registered handler is unreachable and a removed handler is still called. -/
theorem dispatchLaw_fails :
    ¬ ∀ (calls : List Call) (f : SyscallFrame), (∀ call ∈ calls, call.Flagged) →
      f.id < syscallCount →
      DispatchLaw (calls.foldl Call.register fun _ => none) (calls.foldl Call.table zeroTable) f := by
  intro law
  have flagged : ∀ call ∈ [Call.assignSyscall 5 4096 1], call.Flagged := by
    simp [Call.Flagged, Call.assigns, hasFlag, flagExists]
  have reached := law [Call.assignSyscall 5 4096 1] ⟨5, 1, 2, 3, 4, 5, 6⟩ flagged (by decide)
  exact absurd reached (by unfold DispatchLaw; decide)

end ArchaOS.Syscalls
