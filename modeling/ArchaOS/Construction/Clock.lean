import ArchaOS.Construction.SyscallEntry
import ArchaOS.Library.Interrupts

/-
This file models tick_interrupt of kernel/arch/x86_64/timer/clock_s.s and clock_interrupt of
kernel/arch/x86_64/timer/clock.c with apic_eoi of kernel/arch/x86_64/interrupts/apic.c. The macros
SAVE_REGISTERS and RESTORE_REGISTERS are those of the syscall entry.
-/

namespace ArchaOS.Clock

open Library Processor

/-- The addresses of the globals `total_ticks` and `apic_addr`. -/
structure Globals where
  totalTicks : Word
  apicAddr : Word
  deriving DecidableEq, Repr

/-- `APIC_EOI` -/
def apicEoiRegister : Word := 0xB0

def apicWriteReg (base register : Word) (value : BitVec 32) (memory : Memory) : Memory :=
  memory.write (base + register).toNat 4 value.toNat

def apicEoi (globals : Globals) (memory : Memory) : Memory :=
  apicWriteReg (wordAt memory globals.apicAddr) apicEoiRegister 0 memory

def clockInterrupt (globals : Globals) (memory : Memory) : Memory :=
  let memory := storeAt memory globals.totalTicks (wordAt memory globals.totalTicks + 1)
  apicEoi globals memory

/-- The part of `tick_interrupt` before the call; `status` gives the status flags of the `and`. -/
def enterClock (status : Word → Word) (cpu : Cpu) : Cpu :=
  let cpu := cld cpu
  let cpu := run Syscalls.saveRegisters cpu
  let cpu := run [.mov .rbx .rsp] cpu
  andImmediate .rsp (-16) status cpu

/-- `tick_interrupt`, with the compiled `clock_interrupt` and the address behind the call. -/
def tickInterrupt (status : Word → Word) (returnAddress : Word) (clock : Cpu → Cpu) (cpu : Cpu) : Cpu :=
  let cpu := enterClock status cpu
  let cpu := run [.call returnAddress clock, .mov .rsp .rbx] cpu
  let cpu := run Syscalls.restoreRegisters cpu
  run [.iretq] cpu

end ArchaOS.Clock
