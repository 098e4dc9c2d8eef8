import ArchaOS.Construction.KernelHeap
import ArchaOS.Construction.Syscalls

/-
This file models `init_syscalls` of kernel/arch/x86_64/syscalls/syscalls.c. The array stands in memory,
because `memset` clears it byte by byte.
-/

namespace ArchaOS.Syscalls

open Library

/-- `has_cpu_msr`, with the register `eax` that `cpuid` returns for leaf 0 -/
def hasCpuMsr (eax : Nat) : Bool := if eax < 1 then false else true

/-- `sizeof(SYSCALL_HANDLER)` -/
def handlerSize : Nat := 24

/-- The slots of an array at an address. -/
def tableAt (memory : Memory) (address : Nat) : Table := fun index =>
  let slot := address + index * handlerSize
  ⟨memory.read slot 8, memory.read (slot + 8) 8, memory.read (slot + 16) 8⟩

/-- `init_syscalls` with the address of `syscalls` and the address of `syscall_config_mode` -/
def initSyscalls (eax address configMode : Nat) (memory : Memory) : Bool × Table :=
  if ¬ hasCpuMsr eax then (false, tableAt memory address)
  else
    let memory := KernelHeap.memset memory address 0 syscallCount
    let syscalls := tableAt memory address
    (true, (assignSyscall 2049 configMode (flagExists ||| flagWriteProtected) syscalls).2)

end ArchaOS.Syscalls
