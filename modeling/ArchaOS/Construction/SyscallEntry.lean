import ArchaOS.Construction.Syscalls
import ArchaOS.Library.Processor

/-
This file models the syscall entry of kernel/arch/x86_64/syscalls/syscalls_s.s and the frame that
kernel/arch/x86_64/syscalls/syscalls.c expects from it.
-/

namespace ArchaOS.Syscalls

open Library Processor

/-- The frame that a pointer of type `struct syscall_frame *` names. -/
def SyscallFrame.at (memory : Memory) (f : Word) : SyscallFrame where
  id := (wordAt memory f).toNat
  arg1 := (wordAt memory (f + 8)).toNat
  arg2 := (wordAt memory (f + 16)).toNat
  arg3 := (wordAt memory (f + 24)).toNat
  arg4 := (wordAt memory (f + 32)).toNat
  arg5 := (wordAt memory (f + 40)).toNat
  arg6 := (wordAt memory (f + 48)).toNat

def saveRegisters : List Instruction :=
  [.push .rax, .push .rbx, .push .rcx, .push .rdx, .push .rsi, .push .rdi, .push .rbp, .push .r8,
    .push .r9, .push .r10, .push .r11, .push .r12, .push .r13, .push .r14, .push .r15]

def restoreRegisters : List Instruction :=
  [.pop .r15, .pop .r14, .pop .r13, .pop .r12, .pop .r11, .pop .r10, .pop .r9, .pop .r8, .pop .rbp,
    .pop .rdi, .pop .rsi, .pop .rdx, .pop .rcx, .pop .rbx, .pop .rax]

/-- The part of `syscall_entry` before the call. -/
def enterKernel : List Instruction := [.swapgs, .movToGs 8 .rsp, .movFromGs .rsp 0] ++ saveRegisters

/-- The part of `syscall_entry` after the call. -/
def leaveKernel : List Instruction := restoreRegisters ++ [.movFromGs .rsp 8, .swapgs, .sysretq]

/-- `syscall_entry`, with the compiled `syscall_dispatch` and the address behind the call. -/
def syscallEntry (returnAddress : Word) (dispatch : Cpu → Cpu) : List Instruction :=
  enterKernel ++ [.call returnAddress dispatch] ++ leaveKernel

end ArchaOS.Syscalls
