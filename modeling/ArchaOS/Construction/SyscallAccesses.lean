import ArchaOS.Construction.Syscalls
import ArchaOS.Library.Traced

/-
This file models the functions of kernel/arch/x86_64/syscalls/syscalls.c with the indices at which
they read and write the array `syscalls`.
-/

namespace ArchaOS.Syscalls

open Library

/-- A computation with the indices that it uses. -/
abbrev Access := Traced Nat

/-- One read of `syscalls[index]` -/
def readSlot (syscalls : Table) (index : Nat) : Access SyscallHandler := ⟨[index], syscalls index⟩

/-- One write to `syscalls[index]` or to one of its fields -/
def writeSlot (syscalls : Table) (index : Nat) (change : SyscallHandler → SyscallHandler) :
    Access Table :=
  ⟨[index], Function.update syscalls index (change (syscalls index))⟩

/-- `assign_syscall_handler` with its accesses -/
def assignSyscallHandlerTraced (handler : SyscallHandler) (syscalls : Table) :
    Access (SyscallReturn × Table) :=
  if handler.id ≥ syscallCount ∨ handler.function = 0 then pure (.invalid, syscalls)
  else do
    let slot ← readSlot syscalls handler.id
    if hasFlag slot.flags flagExists then pure (.taken, syscalls)
    else do
      let syscalls ← writeSlot syscalls handler.id fun _ => handler
      pure (.success, syscalls)

/-- `remove_syscall_handler` with its accesses -/
def removeSyscallHandlerTraced (handler : SyscallHandler) (syscalls : Table) :
    Access (SyscallReturn × Table) :=
  if handler.id ≥ syscallCount then pure (.invalid, syscalls)
  else do
    let syscalls ← writeSlot syscalls handler.id fun slot => { slot with flags := 0 }
    pure (.success, syscalls)

/-- `assign_syscall` with its accesses -/
def assignSyscallTraced (id function flags : Nat) (syscalls : Table) :
    Access (SyscallReturn × Table) :=
  if id ≥ syscallCount ∨ function = 0 then pure (.invalid, syscalls)
  else do
    let slot ← readSlot syscalls id
    if hasFlag slot.flags flagExists then pure (.taken, syscalls)
    else do
      let syscalls ← writeSlot syscalls id fun slot => { slot with id := id }
      let syscalls ← writeSlot syscalls id fun slot => { slot with function := function }
      let syscalls ← writeSlot syscalls id fun slot => { slot with flags := flags }
      pure (.success, syscalls)

/-- `remove_syscall` with its accesses -/
def removeSyscallTraced (id : Nat) (syscalls : Table) : Access (SyscallReturn × Table) :=
  if id ≥ syscallCount then pure (.invalid, syscalls)
  else do
    let syscalls ← writeSlot syscalls id fun slot => { slot with flags := 0 }
    pure (.success, syscalls)

/-- `syscall_config_mode` with its accesses -/
def syscallConfigModeTraced (services : Services) (syscalls : Table) : Access Table := do
  let (_, syscalls) ← removeSyscallTraced 2046 syscalls
  let (_, syscalls) ← removeSyscallTraced 2047 syscalls
  let (_, syscalls) ← removeSyscallTraced 2048 syscalls
  let flags := flagExists ||| flagKernelOnly
  let (_, syscalls) ← assignSyscallTraced 2046 services.assignSyscallUsermode flags syscalls
  let (_, syscalls) ← assignSyscallTraced 2047 services.removeSyscallUsermode flags syscalls
  let (_, syscalls) ← assignSyscallTraced 2048 services.returnSyscallUsermode flags syscalls
  pure syscalls

/-- `return_syscall_usermode` with its accesses; the other five arguments are ignored. -/
def returnSyscallUsermode (arg1 : Nat) (syscalls : Table) : Access SyscallHandler :=
  let syscallId := arg1
  if syscallId > syscallCount then readSlot syscalls (2048 - 1)
  else readSlot syscalls syscallId

/-- `syscall_dispatch` with its accesses; each test of the condition reads only when it is reached. -/
def syscallDispatchTraced (f : SyscallFrame) (syscalls : Table) : Access Dispatched :=
  if f.id > syscallCount then pure (.returned .invalid)
  else do
    let slot ← readSlot syscalls f.id
    if slot.id = 0 then pure (.returned .invalid)
    else do
      let slot ← readSlot syscalls f.id
      if hasFlag slot.flags flagExists then pure (.returned .invalid)
      else do
        let slot ← readSlot syscalls f.id
        pure (.called slot.function f.arg1 f.arg2 f.arg3 f.arg4 f.arg5 f.arg6)

end ArchaOS.Syscalls
