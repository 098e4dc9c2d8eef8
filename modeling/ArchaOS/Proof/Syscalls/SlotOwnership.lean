import ArchaOS.Library.Runs
import ArchaOS.Proof.Syscalls.Calls

namespace ArchaOS.Syscalls

open Library

/-- The operations of the ownership law include the configuration routine. -/
inductive Operation where
  | direct (call : Call)
  | syscallConfigMode (arg1 arg2 arg3 arg4 arg5 arg6 : Nat)

def Operation.table (services : Services) (syscalls : Table) : Operation → Table
  | .direct call => call.table syscalls
  | .syscallConfigMode _ _ _ _ _ _ => Syscalls.syscallConfigMode services syscalls

/-- The table calls that an operation makes, in their order. -/
def Operation.calls (services : Services) : Operation → List Call
  | .direct call => [call]
  | .syscallConfigMode _ _ _ _ _ _ =>
      [.removeSyscall 2046, .removeSyscall 2047, .removeSyscall 2048,
        .assignSyscall 2046 services.assignSyscallUsermode (flagExists ||| flagKernelOnly),
        .assignSyscall 2047 services.removeSyscallUsermode (flagExists ||| flagKernelOnly),
        .assignSyscall 2048 services.returnSyscallUsermode (flagExists ||| flagKernelOnly)]

/-- An operation changes the table by nothing but its calls. -/
theorem Operation.table_eq (services : Services) (syscalls : Table) (operation : Operation) :
    operation.table services syscalls = (operation.calls services).foldl Call.table syscalls := by
  cases operation <;> rfl

/-- The calls of a whole run leave the table that its operations leave. -/
theorem Operation.run_table (services : Services) (operations : List Operation)
    (syscalls : Table) :
    operations.foldl (Operation.table services) syscalls =
      (operations.flatMap (Operation.calls services)).foldl Call.table syscalls := by
  induction operations generalizing syscalls with
  | nil => rfl
  | cons operation rest ih =>
      rw [List.foldl_cons, List.flatMap_cons, List.foldl_append, ih, Operation.table_eq]

/-- The history records which numbers have an owner. -/
structure Owned where
  table : Table
  owned : Nat → Bool

def Owned.initial : Owned := ⟨zeroTable, fun _ => false⟩

/-- A successful assignment takes the number and a removal of the number releases it. -/
def Owned.step (state : Owned) (call : Call) : Owned where
  table := call.table state.table
  owned :=
    match call.assigns, call.removes with
    | some handler, _ =>
        if (call.apply state.table).1 = .success then Function.update state.owned handler.id true
        else state.owned
    | none, some id => Function.update state.owned id false
    | none, none => state.owned

/-- A later assignment reports a taken slot and leaves it, and no call changes a slot that is
write protected. -/
def SlotLaw (state : Owned) (call : Call) : Prop :=
  (∀ handler, call.assigns = some handler → state.owned handler.id = true →
    (call.apply state.table).1 = .taken ∧
      call.table state.table handler.id = state.table handler.id) ∧
  ∀ id, hasFlag (state.table id).flags flagWriteProtected = true →
    call.table state.table id = state.table id

/-- An assignment to an owned slot passes a function and finds the flag that marks the slot, and
a removal finds no write protection. -/
def SlotCondition (state : Owned) (call : Call) : Prop :=
  (∀ handler, call.assigns = some handler → state.owned handler.id = true →
    handler.function ≠ 0 ∧ hasFlag (state.table handler.id).flags flagExists = true) ∧
  ∀ id, call.removes = some id → id < syscallCount →
    hasFlag (state.table id).flags flagWriteProtected = false

/-- Every slot with a flag has an owner and every owned number is in range. -/
def Tracked (state : Owned) : Prop :=
  ∀ id, ((state.table id).flags ≠ 0 → state.owned id = true) ∧
    (state.owned id = true → id < syscallCount)

/-- At first no slot has an owner. -/
theorem tracked_initial : Tracked Owned.initial := by
  intro id
  simp [Owned.initial, zeroTable]

/-- Every call keeps the record of owners exact. -/
theorem tracked_step (state : Owned) (call : Call) (tracked : Tracked state) :
    Tracked (state.step call) := by
  intro id
  have known := tracked id
  rcases call.cases with ⟨handler, assigns, removes, effect⟩ | ⟨target, assigns, removes, effect⟩
  · rcases assignSyscallHandler_cases handler state.table with
      ⟨_, result⟩ | ⟨_, result⟩ | ⟨⟨low, _, _⟩, result⟩
    · simpa [Owned.step, Call.table, assigns, effect, result] using known
    · simpa [Owned.step, Call.table, assigns, effect, result] using known
    · by_cases same : id = handler.id
      · subst same
        simp [Owned.step, assigns, effect, result, low]
      · simpa [Owned.step, Call.table, assigns, effect, result, Function.update_of_ne same]
          using known
  · rcases removeSyscall_cases target state.table with ⟨high, result⟩ | ⟨low, result⟩
    · by_cases same : id = target
      · subst same
        have unowned : state.owned id ≠ true := fun owned => absurd (known.2 owned) (not_lt.mpr high)
        have clear : (state.table id).flags = 0 := by
          by_contra flagged
          exact unowned (known.1 flagged)
        simp [Owned.step, Call.table, assigns, removes, effect, result, clear]
      · simpa [Owned.step, Call.table, assigns, removes, effect, result,
          Function.update_of_ne same] using known
    · by_cases same : id = target
      · subst same
        simp [Owned.step, Call.table, assigns, removes, effect, result]
      · simpa [Owned.step, Call.table, assigns, removes, effect, result,
          Function.update_of_ne same] using known

/-- A write-protected slot has an owner. -/
theorem Tracked.protected_owned {state : Owned} (tracked : Tracked state) {id : Nat}
    (guarded : hasFlag (state.table id).flags flagWriteProtected = true) :
    state.owned id = true := by
  apply (tracked id).1
  intro zero
  simp [zero] at guarded

/-- An assignment obeys the law exactly under its part of the condition. -/
theorem slotLaw_assign_iff {state : Owned} (tracked : Tracked state) {call : Call}
    {handler : SyscallHandler} (assigns : call.assigns = some handler)
    (removes : call.removes = none)
    (effect : ∀ syscalls, call.apply syscalls = assignSyscallHandler handler syscalls) :
    SlotLaw state call ↔ SlotCondition state call := by
  rcases assignSyscallHandler_cases handler state.table with
    ⟨refused, result⟩ | ⟨⟨low, nonnull, taken⟩, result⟩ | ⟨⟨low, nonnull, free⟩, result⟩
  · have null : state.owned handler.id = true → handler.function = 0 := by
      intro owned
      rcases refused with high | null
      · exact absurd ((tracked handler.id).2 owned) (not_lt.mpr high)
      · exact null
    simp only [SlotLaw, SlotCondition, Call.table, assigns, removes, effect, result]
    constructor
    · intro law
      refine ⟨?_, by simp⟩
      rintro other ⟨⟩ owned
      have impossible := (law.1 handler rfl owned).1
      cases impossible
    · intro condition
      refine ⟨?_, fun _ _ => trivial⟩
      rintro other ⟨⟩ owned
      exact absurd (null owned) (condition.1 handler rfl owned).1
  · simp only [SlotLaw, SlotCondition, Call.table, assigns, removes, effect, result]
    constructor
    · intro _
      refine ⟨?_, by simp⟩
      rintro other ⟨⟩ _
      exact ⟨nonnull, taken⟩
    · intro _
      refine ⟨?_, fun _ _ => trivial⟩
      rintro other ⟨⟩ _
      exact ⟨trivial, trivial⟩
  · simp only [SlotLaw, SlotCondition, Call.table, assigns, removes, effect, result]
    constructor
    · intro law
      refine ⟨?_, by simp⟩
      rintro other ⟨⟩ owned
      have impossible := (law.1 handler rfl owned).1
      cases impossible
    · intro condition
      have unowned : state.owned handler.id ≠ true := by
        intro owned
        have marked := (condition.1 handler rfl owned).2
        simp [free] at marked
      refine ⟨?_, ?_⟩
      · rintro other ⟨⟩ owned
        exact absurd owned unowned
      · intro id guarded
        have different : id ≠ handler.id := by
          rintro rfl
          exact unowned (tracked.protected_owned guarded)
        rw [Function.update_of_ne different]

/-- A removal obeys the law exactly when its slot is not write protected. -/
theorem slotLaw_remove_iff {state : Owned} {call : Call} {target : Nat}
    (assigns : call.assigns = none) (removes : call.removes = some target)
    (effect : ∀ syscalls, call.apply syscalls = removeSyscall target syscalls) :
    SlotLaw state call ↔ SlotCondition state call := by
  rcases removeSyscall_cases target state.table with ⟨high, result⟩ | ⟨low, result⟩
  · simp only [SlotLaw, SlotCondition, Call.table, assigns, removes, effect, result]
    constructor
    · intro _
      refine ⟨by simp, ?_⟩
      rintro id ⟨⟩ low
      exact absurd low (not_lt.mpr high)
    · intro _
      exact ⟨by simp, fun _ _ => trivial⟩
  · simp only [SlotLaw, SlotCondition, Call.table, assigns, removes, effect, result]
    constructor
    · intro law
      refine ⟨by simp, ?_⟩
      rintro id ⟨⟩ _
      by_contra guarded
      rw [Bool.not_eq_false] at guarded
      have kept := law.2 target guarded
      rw [Function.update_self] at kept
      rw [← kept] at guarded
      simp at guarded
    · intro condition
      refine ⟨by simp, ?_⟩
      intro id guarded
      have different : id ≠ target := by
        rintro rfl
        have open_ := condition.2 id rfl low
        simp [open_] at guarded
      rw [Function.update_of_ne different]

/-- In a tracked state a call obeys the law exactly under the condition. -/
theorem slotLaw_iff (state : Owned) (call : Call) (tracked : Tracked state) :
    SlotLaw state call ↔ SlotCondition state call := by
  rcases call.cases with ⟨handler, assigns, removes, effect⟩ | ⟨target, assigns, removes, effect⟩
  · exact slotLaw_assign_iff tracked assigns removes effect
  · exact slotLaw_remove_iff assigns removes effect

/-- The calls of a run leave the table that its operations leave, and every one of them obeys the
ownership law exactly when every one meets the condition. -/
theorem slotLaw_run_iff (services : Services) (operations : List Operation) :
    operations.foldl (Operation.table services) zeroTable =
        (operations.flatMap (Operation.calls services)).foldl Call.table zeroTable ∧
      (Guarded Owned.step SlotLaw Owned.initial
          (operations.flatMap (Operation.calls services)) ↔
        Guarded Owned.step SlotCondition Owned.initial
          (operations.flatMap (Operation.calls services))) :=
  ⟨Operation.run_table services operations zeroTable,
    guarded_iff tracked_step slotLaw_iff tracked_initial⟩

/-- A slot assigned without the existence flag is taken over by the next assignment. -/
theorem slotLaw_run_fails :
    ¬ ∀ (services : Services) (operations : List Operation),
      Guarded Owned.step SlotLaw Owned.initial
        (operations.flatMap (Operation.calls services)) := by
  intro law
  have run := law ⟨1, 2, 3, by decide, by decide, by decide⟩
    [.direct (.assignSyscall 5 4096 0), .direct (.assignSyscall 5 8192 0)]
  simp only [List.flatMap_cons, List.flatMap_nil, Operation.calls, List.cons_append,
    List.nil_append, guarded_cons] at run
  have second := (run.2.1.1 ⟨5, 0, 8192⟩ rfl (by decide)).1
  exact absurd second (by decide)

end ArchaOS.Syscalls
