import Mathlib.Logic.Function.Basic

/-
This file models the syscall table of kernel/arch/x86_64/syscalls/syscalls.c.
-/

namespace ArchaOS.Syscalls

def syscallCount : Nat := 2048

/-- `enum syscall_return` -/
inductive SyscallReturn where
  | success
  | error
  | valid
  | invalid
  | taken
  | notPrivileged
  deriving DecidableEq, Repr

/-- `SYSCALL_FLAG_EXISTS` -/
def flagExists : Nat := 1 <<< 0

/-- `SYSCALL_FLAG_KERNEL_ONLY` -/
def flagKernelOnly : Nat := 1 <<< 1

/-- `SYSCALL_FLAG_WRITE_PROTECTED` -/
def flagWriteProtected : Nat := 1 <<< 3

/-- The mask test `flags & flag` of the source. -/
def hasFlag (flags flag : Nat) : Bool := flags &&& flag != 0

/-- `SYSCALL_HANDLER`; a function is a code address and zero is the null pointer. -/
structure SyscallHandler where
  id : Nat
  flags : Nat
  function : Nat
  deriving DecidableEq, Repr

/-- The array `syscalls`, read at any index that the code computes. -/
abbrev Table := Nat → SyscallHandler

/-- The static table starts with every byte zero. -/
def zeroTable : Table := fun _ => ⟨0, 0, 0⟩

def assignSyscallHandler (handler : SyscallHandler) (syscalls : Table) : SyscallReturn × Table :=
  if handler.id ≥ syscallCount ∨ handler.function = 0 then (.invalid, syscalls)
  else if hasFlag (syscalls handler.id).flags flagExists then (.taken, syscalls)
  else (.success, Function.update syscalls handler.id handler)

def removeSyscallHandler (handler : SyscallHandler) (syscalls : Table) : SyscallReturn × Table :=
  if handler.id ≥ syscallCount then (.invalid, syscalls)
  else (.success, Function.update syscalls handler.id { syscalls handler.id with flags := 0 })

def assignSyscall (id function flags : Nat) (syscalls : Table) : SyscallReturn × Table :=
  if id ≥ syscallCount ∨ function = 0 then (.invalid, syscalls)
  else if hasFlag (syscalls id).flags flagExists then (.taken, syscalls)
  else
    let syscalls := Function.update syscalls id { syscalls id with id := id }
    let syscalls := Function.update syscalls id { syscalls id with function := function }
    let syscalls := Function.update syscalls id { syscalls id with flags := flags }
    (.success, syscalls)

def removeSyscall (id : Nat) (syscalls : Table) : SyscallReturn × Table :=
  if id ≥ syscallCount then (.invalid, syscalls)
  else (.success, Function.update syscalls id { syscalls id with flags := 0 })

/-- The code addresses of the three services that the configuration mode installs. -/
structure Services where
  assignSyscallUsermode : Nat
  removeSyscallUsermode : Nat
  returnSyscallUsermode : Nat
  assignPresent : assignSyscallUsermode ≠ 0
  removePresent : removeSyscallUsermode ≠ 0
  returnPresent : returnSyscallUsermode ≠ 0

/-- `syscall_config_mode`; its six arguments are ignored. -/
def syscallConfigMode (services : Services) (syscalls : Table) : Table :=
  let syscalls := (removeSyscall 2046 syscalls).2
  let syscalls := (removeSyscall 2047 syscalls).2
  let syscalls := (removeSyscall 2048 syscalls).2
  let flags := flagExists ||| flagKernelOnly
  let syscalls := (assignSyscall 2046 services.assignSyscallUsermode flags syscalls).2
  let syscalls := (assignSyscall 2047 services.removeSyscallUsermode flags syscalls).2
  (assignSyscall 2048 services.returnSyscallUsermode flags syscalls).2

/-- `struct syscall_frame` -/
structure SyscallFrame where
  id : Nat
  arg1 : Nat
  arg2 : Nat
  arg3 : Nat
  arg4 : Nat
  arg5 : Nat
  arg6 : Nat
  deriving DecidableEq, Repr

/-- A dispatch returns a status of its own or the value of the function that it calls. -/
inductive Dispatched where
  | returned (status : SyscallReturn)
  | called (function arg1 arg2 arg3 arg4 arg5 arg6 : Nat)
  deriving DecidableEq, Repr

def syscallDispatch (f : SyscallFrame) (syscalls : Table) : Dispatched :=
  if f.id > syscallCount ∨ (syscalls f.id).id = 0 ∨ hasFlag (syscalls f.id).flags flagExists then
    .returned .invalid
  else
    .called (syscalls f.id).function f.arg1 f.arg2 f.arg3 f.arg4 f.arg5 f.arg6

end ArchaOS.Syscalls
