import ArchaOS.Construction.Syscalls
import Mathlib.Tactic

namespace ArchaOS.Syscalls

/-- The four functions that kernel code calls on the syscall table. -/
inductive Call where
  | assignSyscall (id function flags : Nat)
  | assignSyscallHandler (handler : SyscallHandler)
  | removeSyscall (id : Nat)
  | removeSyscallHandler (handler : SyscallHandler)
  deriving DecidableEq, Repr

/-- The effect of a call is its status and the table that it leaves. -/
def Call.apply : Call → Table → SyscallReturn × Table
  | .assignSyscall id function flags => Syscalls.assignSyscall id function flags
  | .assignSyscallHandler handler => Syscalls.assignSyscallHandler handler
  | .removeSyscall id => Syscalls.removeSyscall id
  | .removeSyscallHandler handler => Syscalls.removeSyscallHandler handler

def Call.table (syscalls : Table) (call : Call) : Table := (call.apply syscalls).2

/-- The handler that a call offers to the table. -/
def Call.assigns : Call → Option SyscallHandler
  | .assignSyscall id function flags => some ⟨id, flags, function⟩
  | .assignSyscallHandler handler => some handler
  | _ => none

/-- The slot that a call removes. -/
def Call.removes : Call → Option Nat
  | .removeSyscall id => some id
  | .removeSyscallHandler handler => some handler.id
  | _ => none

/-- The three field writes of `assign_syscall` store the same handler as one struct copy. -/
theorem assignSyscall_eq (id function flags : Nat) (syscalls : Table) :
    assignSyscall id function flags syscalls =
      assignSyscallHandler ⟨id, flags, function⟩ syscalls := by
  simp [assignSyscall, assignSyscallHandler]

/-- Every call either offers a handler or removes a slot. -/
theorem Call.cases (call : Call) :
    (∃ handler, call.assigns = some handler ∧ call.removes = none ∧
      ∀ syscalls, call.apply syscalls = Syscalls.assignSyscallHandler handler syscalls) ∨
    (∃ id, call.assigns = none ∧ call.removes = some id ∧
      ∀ syscalls, call.apply syscalls = Syscalls.removeSyscall id syscalls) := by
  cases call with
  | assignSyscall id function flags =>
      exact Or.inl ⟨_, rfl, rfl, assignSyscall_eq id function flags⟩
  | assignSyscallHandler handler => exact Or.inl ⟨handler, rfl, rfl, fun _ => rfl⟩
  | removeSyscall id => exact Or.inr ⟨id, rfl, rfl, fun _ => rfl⟩
  | removeSyscallHandler handler => exact Or.inr ⟨handler.id, rfl, rfl, fun _ => rfl⟩

/-- An assignment writes its slot exactly when it reports success. -/
theorem assignSyscallHandler_cases (handler : SyscallHandler) (syscalls : Table) :
    (handler.id ≥ syscallCount ∨ handler.function = 0) ∧
        assignSyscallHandler handler syscalls = (.invalid, syscalls) ∨
      (handler.id < syscallCount ∧ handler.function ≠ 0 ∧
        hasFlag (syscalls handler.id).flags flagExists = true) ∧
        assignSyscallHandler handler syscalls = (.taken, syscalls) ∨
      (handler.id < syscallCount ∧ handler.function ≠ 0 ∧
        hasFlag (syscalls handler.id).flags flagExists = false) ∧
        assignSyscallHandler handler syscalls =
          (.success, Function.update syscalls handler.id handler) := by
  unfold assignSyscallHandler
  by_cases refused : handler.id ≥ syscallCount ∨ handler.function = 0
  · exact Or.inl ⟨refused, if_pos refused⟩
  · have accepted : handler.id < syscallCount ∧ handler.function ≠ 0 := by
      rw [not_or, not_le] at refused
      exact refused
    rw [if_neg refused]
    cases present : hasFlag (syscalls handler.id).flags flagExists with
    | true => exact Or.inr (Or.inl ⟨⟨accepted.1, accepted.2, rfl⟩, rfl⟩)
    | false => exact Or.inr (Or.inr ⟨⟨accepted.1, accepted.2, rfl⟩, rfl⟩)

/-- A removal clears only the flags of its slot. -/
theorem removeSyscall_cases (id : Nat) (syscalls : Table) :
    id ≥ syscallCount ∧ removeSyscall id syscalls = (.invalid, syscalls) ∨
      id < syscallCount ∧ removeSyscall id syscalls =
        (.success, Function.update syscalls id { syscalls id with flags := 0 }) := by
  unfold removeSyscall
  by_cases outside : id ≥ syscallCount
  · exact Or.inl ⟨outside, if_pos outside⟩
  · exact Or.inr ⟨not_le.mp outside, if_neg outside⟩

@[simp] theorem hasFlag_zero (flag : Nat) : hasFlag 0 flag = false := by
  simp [hasFlag]

end ArchaOS.Syscalls
