import ArchaOS.Construction.SyscallAccesses
import ArchaOS.Proof.Syscalls.Calls

namespace ArchaOS.Syscalls

open Library

/-- The entry points that reach the table. A function that `syscall_dispatch` calls makes its own calls
after it. -/
inductive Entry where
  | assignSyscall (id function flags : Nat)
  | assignSyscallHandler (handler : SyscallHandler)
  | removeSyscall (id : Nat)
  | removeSyscallHandler (handler : SyscallHandler)
  | syscallConfigMode
  | returnSyscallUsermode (arg1 : Nat)
  | syscallDispatch (f : SyscallFrame)
  deriving DecidableEq, Repr

/-- One call and the table that it leaves. -/
def Entry.call (services : Services) (syscalls : Table) : Entry → Access Table
  | .assignSyscall id function flags => Prod.snd <$> assignSyscallTraced id function flags syscalls
  | .assignSyscallHandler handler => Prod.snd <$> assignSyscallHandlerTraced handler syscalls
  | .removeSyscall id => Prod.snd <$> removeSyscallTraced id syscalls
  | .removeSyscallHandler handler => Prod.snd <$> removeSyscallHandlerTraced handler syscalls
  | .syscallConfigMode => syscallConfigModeTraced services syscalls
  | .returnSyscallUsermode arg1 => (fun _ => syscalls) <$> Syscalls.returnSyscallUsermode arg1 syscalls
  | .syscallDispatch f => (fun _ => syscalls) <$> syscallDispatchTraced f syscalls

/-- The calls of a run, one after the other. -/
def Entry.run (services : Services) (entries : List Entry) (syscalls : Table) : Access Table :=
  entries.foldlM (Entry.call services) syscalls

/-- The number behind the last slot passes the test of the two readers. -/
def Entry.AtEdge : Entry → Prop
  | .returnSyscallUsermode arg1 => arg1 = syscallCount
  | .syscallDispatch f => f.id = syscallCount
  | _ => False

section Forgetting

variable (syscalls : Table)

/-- Without its accesses the traced call is `assign_syscall_handler`. -/
theorem assignSyscallHandlerTraced_value (handler : SyscallHandler) :
    (assignSyscallHandlerTraced handler syscalls).value = assignSyscallHandler handler syscalls := by
  unfold assignSyscallHandlerTraced assignSyscallHandler
  split
  · rfl
  · simp only [Traced.value_bind, readSlot]
    split <;> rfl

/-- Without its accesses the traced call is `remove_syscall_handler`. -/
theorem removeSyscallHandlerTraced_value (handler : SyscallHandler) :
    (removeSyscallHandlerTraced handler syscalls).value = removeSyscallHandler handler syscalls := by
  unfold removeSyscallHandlerTraced removeSyscallHandler
  split <;> rfl

/-- Without its accesses the traced call is `assign_syscall`. -/
theorem assignSyscallTraced_value (id function flags : Nat) :
    (assignSyscallTraced id function flags syscalls).value =
      assignSyscall id function flags syscalls := by
  unfold assignSyscallTraced assignSyscall
  split
  · rfl
  · simp only [Traced.value_bind, readSlot]
    split <;> rfl

/-- Without its accesses the traced call is `remove_syscall`. -/
theorem removeSyscallTraced_value (id : Nat) :
    (removeSyscallTraced id syscalls).value = removeSyscall id syscalls := by
  unfold removeSyscallTraced removeSyscall
  split <;> rfl

/-- Without its accesses the traced call is `syscall_config_mode`. -/
theorem syscallConfigModeTraced_value (services : Services) :
    (syscallConfigModeTraced services syscalls).value = syscallConfigMode services syscalls := by
  simp only [syscallConfigModeTraced, Traced.value_bind, Traced.value_pure, removeSyscallTraced_value,
    assignSyscallTraced_value]
  rfl

/-- Without its accesses the traced call is `syscall_dispatch`. -/
theorem syscallDispatchTraced_value (f : SyscallFrame) :
    (syscallDispatchTraced f syscalls).value = syscallDispatch f syscalls := by
  unfold syscallDispatchTraced syscallDispatch
  by_cases high : f.id > syscallCount
  · rw [if_pos high, if_pos (Or.inl high)]
    rfl
  rw [if_neg high]
  simp only [Traced.value_bind, readSlot]
  by_cases unnamed : (syscalls f.id).id = 0
  · rw [if_pos unnamed, if_pos (Or.inr (Or.inl unnamed))]
    rfl
  rw [if_neg unnamed]
  simp only [Traced.value_bind]
  by_cases marked : hasFlag (syscalls f.id).flags flagExists = true
  · rw [if_pos marked, if_pos (Or.inr (Or.inr marked))]
    rfl
  · rw [if_neg marked, if_neg (by simp [high, unnamed, marked])]
    rfl

/-- The table that a call leaves, without its accesses. -/
def Entry.table (services : Services) (syscalls : Table) : Entry → Table
  | .assignSyscall id function flags => (Syscalls.assignSyscall id function flags syscalls).2
  | .assignSyscallHandler handler => (Syscalls.assignSyscallHandler handler syscalls).2
  | .removeSyscall id => (Syscalls.removeSyscall id syscalls).2
  | .removeSyscallHandler handler => (Syscalls.removeSyscallHandler handler syscalls).2
  | .syscallConfigMode => Syscalls.syscallConfigMode services syscalls
  | .returnSyscallUsermode _ => syscalls
  | .syscallDispatch _ => syscalls

/-- Without its accesses a traced entry is the entry. -/
theorem Entry.call_value (services : Services) (entry : Entry) :
    (entry.call services syscalls).value = entry.table services syscalls := by
  cases entry with
  | assignSyscall id function flags => simp [call, table, assignSyscallTraced_value]
  | assignSyscallHandler handler => simp [call, table, assignSyscallHandlerTraced_value]
  | removeSyscall id => simp [call, table, removeSyscallTraced_value]
  | removeSyscallHandler handler => simp [call, table, removeSyscallHandlerTraced_value]
  | syscallConfigMode => exact syscallConfigModeTraced_value syscalls services
  | returnSyscallUsermode arg1 => rfl
  | syscallDispatch f => rfl

/-- The accesses of a run do not change what it computes. -/
theorem Entry.run_value (services : Services) (entries : List Entry) :
    (Entry.run services entries syscalls).value = entries.foldl (Entry.table services) syscalls := by
  induction entries generalizing syscalls with
  | nil => rfl
  | cons entry rest ih =>
      have later := ih (entry.call services syscalls).value
      rw [Entry.run] at later
      rw [Entry.run, List.foldlM_cons, Traced.value_bind, later, Entry.call_value, List.foldl_cons]

end Forgetting

section InRange

variable (syscalls : Table)

@[simp] theorem readSlot_all (index : Nat) (holds : Nat → Prop) :
    Traced.All holds (readSlot syscalls index) ↔ holds index := by
  simp [Traced.All, readSlot]

@[simp] theorem writeSlot_all (index : Nat) (change : SyscallHandler → SyscallHandler)
    (holds : Nat → Prop) : Traced.All holds (writeSlot syscalls index change) ↔ holds index := by
  simp [Traced.All, writeSlot]

/-- `assign_syscall_handler` stays inside the table. -/
theorem assignSyscallHandlerTraced_inRange (handler : SyscallHandler) :
    Traced.All (· < syscallCount) (assignSyscallHandlerTraced handler syscalls) := by
  unfold assignSyscallHandlerTraced
  split
  · exact Traced.all_pure _ _
  · rename_i accepted
    have low : handler.id < syscallCount := not_le.mp fun high => accepted (Or.inl high)
    rw [Traced.all_bind, readSlot_all]
    refine ⟨low, ?_⟩
    split <;> simp [low]

/-- `remove_syscall_handler` stays inside the table. -/
theorem removeSyscallHandlerTraced_inRange (handler : SyscallHandler) :
    Traced.All (· < syscallCount) (removeSyscallHandlerTraced handler syscalls) := by
  unfold removeSyscallHandlerTraced
  split
  · exact Traced.all_pure _ _
  · rename_i accepted
    simp [not_le.mp accepted]

/-- `assign_syscall` stays inside the table. -/
theorem assignSyscallTraced_inRange (id function flags : Nat) :
    Traced.All (· < syscallCount) (assignSyscallTraced id function flags syscalls) := by
  unfold assignSyscallTraced
  split
  · exact Traced.all_pure _ _
  · rename_i accepted
    have low : id < syscallCount := not_le.mp fun high => accepted (Or.inl high)
    rw [Traced.all_bind, readSlot_all]
    refine ⟨low, ?_⟩
    split <;> simp [low]

/-- `remove_syscall` stays inside the table. -/
theorem removeSyscallTraced_inRange (id : Nat) :
    Traced.All (· < syscallCount) (removeSyscallTraced id syscalls) := by
  unfold removeSyscallTraced
  split
  · exact Traced.all_pure _ _
  · rename_i accepted
    simp [not_le.mp accepted]

/-- `syscall_config_mode` stays inside the table. -/
theorem syscallConfigModeTraced_inRange (services : Services) :
    Traced.All (· < syscallCount) (syscallConfigModeTraced services syscalls) := by
  simp only [syscallConfigModeTraced, Traced.all_bind, Traced.all_pure, removeSyscallTraced_inRange,
    assignSyscallTraced_inRange, and_true]

/-- The readers refuse only the numbers beyond the one behind the last slot. -/
theorem returnSyscallUsermode_inRange_iff (arg1 : Nat) :
    Traced.All (· < syscallCount) (returnSyscallUsermode arg1 syscalls) ↔ arg1 ≠ syscallCount := by
  unfold returnSyscallUsermode
  dsimp only
  split
  · rename_i high
    have last : 2048 - 1 < syscallCount := by decide
    simp [last, ne_of_gt high]
  · rename_i low
    rw [readSlot_all]
    omega

/-- `syscall_dispatch` leaves the table exactly for one ID. -/
theorem syscallDispatchTraced_inRange_iff (f : SyscallFrame) :
    Traced.All (· < syscallCount) (syscallDispatchTraced f syscalls) ↔ f.id ≠ syscallCount := by
  unfold syscallDispatchTraced
  split
  · rename_i high
    simp [ne_of_gt high]
  · rename_i low
    rw [Traced.all_bind, readSlot_all]
    constructor
    · exact fun inside => ne_of_lt inside.1
    · intro different
      have inside : f.id < syscallCount := lt_of_le_of_ne (not_lt.mp low) different
      refine ⟨inside, ?_⟩
      split
      · exact Traced.all_pure _ _
      · rw [Traced.all_bind, readSlot_all]
        refine ⟨inside, ?_⟩
        split <;> simp [inside]

end InRange

/-- One call stays inside the table exactly when it is not at the edge. -/
theorem Entry.call_inRange_iff (services : Services) (syscalls : Table) (entry : Entry) :
    Traced.All (· < syscallCount) (entry.call services syscalls) ↔ ¬ entry.AtEdge := by
  cases entry with
  | assignSyscall id function flags =>
      simp [Entry.call, Entry.AtEdge, assignSyscallTraced_inRange]
  | assignSyscallHandler handler =>
      simp [Entry.call, Entry.AtEdge, assignSyscallHandlerTraced_inRange]
  | removeSyscall id => simp [Entry.call, Entry.AtEdge, removeSyscallTraced_inRange]
  | removeSyscallHandler handler =>
      simp [Entry.call, Entry.AtEdge, removeSyscallHandlerTraced_inRange]
  | syscallConfigMode => simp [Entry.call, Entry.AtEdge, syscallConfigModeTraced_inRange]
  | returnSyscallUsermode arg1 =>
      rw [Entry.call, Traced.all_map, returnSyscallUsermode_inRange_iff, Entry.AtEdge]
  | syscallDispatch f =>
      rw [Entry.call, Traced.all_map, syscallDispatchTraced_inRange_iff, Entry.AtEdge]

/-- A run stays inside the table exactly when none of its calls is at the edge. -/
theorem Entry.run_inRange_iff (services : Services) (entries : List Entry) (syscalls : Table) :
    (∀ index ∈ (Entry.run services entries syscalls).events, index < syscallCount) ↔
      ∀ entry ∈ entries, ¬ entry.AtEdge := by
  change Traced.All (· < syscallCount) (Entry.run services entries syscalls) ↔ _
  induction entries generalizing syscalls with
  | nil => simp [Entry.run]
  | cons entry rest ih =>
      have later := ih (entry.call services syscalls).value
      rw [Entry.run] at later
      rw [Entry.run, List.foldlM_cons, Traced.all_bind, Entry.call_inRange_iff, later,
        List.forall_mem_cons]

/-- A dispatch of number 2048 reads behind the table. -/
theorem Entry.run_inRange_fails :
    ¬ ∀ (services : Services) (entries : List Entry) (syscalls : Table),
      ∀ index ∈ (Entry.run services entries syscalls).events, index < syscallCount := by
  intro inside
  have edge := inside ⟨1, 2, 3, by decide, by decide, by decide⟩
    [.syscallDispatch ⟨2048, 0, 0, 0, 0, 0, 0⟩] zeroTable 2048 (by decide)
  exact absurd edge (by decide)

end ArchaOS.Syscalls
