import ArchaOS.Construction.Descriptors
import ArchaOS.Construction.LegacyPic
import ArchaOS.Library.Traced

/-
This file models how the kernel sets up its interrupts: init_primitivs and init_cpu of
kernel/arch/x86_64/init.c, kernel/arch/x86_64/interrupts/apic.c, pit_count of
kernel/arch/x86_64/timer/pit.c, and start_clock and stop_clock of kernel/arch/x86_64/timer/clock.c.
-/

namespace ArchaOS.InterruptSetup

open Library Descriptors LegacyPic

/-- The tables of the kernel, the interrupt controllers, the model-specific register
`IA32_APIC_BASE`, the globals `apic_addr` and `total_ticks`, the 32-bit words of memory-mapped
registers by their addresses, and whether the processor takes interrupts. -/
structure Machine where
  gdt : Gdt
  idt : IdtState
  pics : ControllerPair
  apicBase : BitVec 64
  apicAddr : BitVec 64
  registers : BitVec 64 → BitVec 32
  totalTicks : BitVec 64
  interrupts : Bool

/-- Where the linker has placed the table `idt` and the handlers. -/
structure Placement where
  idt : BitVec 64
  divideHandler : BitVec 64
  invalidOpcodeHandler : BitVec 64
  generalProtectionHandler : BitVec 64
  pageFaultHandler : BitVec 64
  doubleFaultHandler : BitVec 64
  spuriousIntHandler : BitVec 64
  tickInterrupt : BitVec 64
  deriving DecidableEq, Repr

def Machine.cli (machine : Machine) : Machine := { machine with interrupts := false }

def Machine.sti (machine : Machine) : Machine := { machine with interrupts := true }

def Machine.initGdt (machine : Machine) : Machine :=
  { machine with gdt := Descriptors.initGdt machine.gdt }

def Machine.setGate (vector : BitVec 8) (handler : BitVec 64) (machine : Machine) : Machine :=
  { machine with idt := idtSetGate vector handler machine.idt }

def Machine.loadIdt (placement : Placement) (machine : Machine) : Machine :=
  { machine with idt := Descriptors.loadIdt idtLimit placement.idt machine.idt }

/-- The gates of the faults, which both functions of init.c install. -/
def faultGates (placement : Placement) (machine : Machine) : Machine :=
  let machine := machine.setGate 0 placement.divideHandler
  let machine := machine.setGate 6 placement.invalidOpcodeHandler
  let machine := machine.setGate 13 placement.generalProtectionHandler
  let machine := machine.setGate 14 placement.pageFaultHandler
  machine.setGate 8 placement.doubleFaultHandler

def initPrimitivs (placement : Placement) (machine : Machine) : Machine :=
  let machine := machine.cli
  let machine := machine.initGdt
  let machine := faultGates placement machine
  let machine := machine.loadIdt placement
  machine.sti

/-- `APIC_SPURIOUS_INT_VECTOR`, `APIC_LVT_TIMER`, `APIC_TIMER_INITIAL_COUNT` and `APIC_TIMER_DIVIDE` -/
def apicSpuriousIntVector : BitVec 32 := 0xF0

def apicLvtTimer : BitVec 32 := 0x320

def apicTimerInitialCount : BitVec 32 := 0x380

def apicTimerDivide : BitVec 32 := 0x3E0

def apicReadReg (base : BitVec 64) (reg : BitVec 32) (machine : Machine) : BitVec 32 :=
  machine.registers (base + reg.setWidth 64)

def apicWriteReg (base : BitVec 64) (reg value : BitVec 32) (machine : Machine) : Machine :=
  { machine with registers := Function.update machine.registers (base + reg.setWidth 64) value }

def localApicInit (placement : Placement) (apicAddr : BitVec 64) (enabled : Bool) (machine : Machine) :
    Machine :=
  let machine :=
    if !enabled then { machine with apicBase := machine.apicBase ||| 1#64 <<< 11 } else machine
  let spurious := apicReadReg apicAddr apicSpuriousIntVector machine
  let spurious := spurious ||| 1#32 <<< 8
  let spurious := spurious &&& ~~~ (1#32 <<< 9)
  let spurious := (spurious &&& 0xFFFFFF00) ||| 0xff
  let machine := apicWriteReg apicAddr apicSpuriousIntVector spurious machine
  let machine := machine.setGate 0xff placement.spuriousIntHandler
  let lvt : BitVec 32 := 32
  let lvt := lvt ||| 1#32 <<< 16
  let lvt := lvt ||| 1#32 <<< 17
  let machine := apicWriteReg apicAddr apicLvtTimer lvt machine
  let machine := apicWriteReg apicAddr apicTimerDivide 0xB machine
  machine.setGate 32 placement.tickInterrupt

/-- `apic_init`; `local_apic_init_msr` does nothing. -/
def apicInit (placement : Placement) (machine : Machine) : Machine :=
  let a := machine.apicBase
  let enabled := (a >>> 11) &&& 1 != 0
  let x2apic := (a >>> 10) &&& 1 != 0
  let page := (a >>> 12) &&& 0xFFFFF
  let apicBase := page <<< 12
  let machine := { machine with apicAddr := apicBase }
  if !x2apic then localApicInit placement apicBase enabled machine else machine

def apicStart (machine : Machine) : Machine :=
  apicWriteReg machine.apicAddr apicTimerInitialCount 10000000 machine

/-- `pit_count`, with the arguments of `outb` in the order in which it gives them. -/
def pitCount (count : BitVec 64) (machine : Machine) : Machine :=
  let machine := machine.cli
  let pics := outb 0x40 ((count &&& 0xFF).setWidth 16) machine.pics
  let pics := outb 0x40 (((count &&& 0xFF00) >>> 8).setWidth 16) pics
  { machine with pics := pics }

/-- The feature bit of the local APIC in the answer of `cpuid`. -/
def supportApic (edx : BitVec 32) : Bool := edx &&& 1#32 <<< 9 != 0

/-- `init_cpu` up to the system calls; a shift that C leaves undefined gives no machine. -/
def initCpu (placement : Placement) (edx : BitVec 32) (machine : Machine) : Option Machine := do
  let machine := machine.cli
  let machine := machine.initGdt
  let machine := faultGates placement machine
  let pics ← picEnable 1 (picInit 0x20 0x28 machine.pics)
  let machine := pitCount 100 { machine with pics := pics }
  if supportApic edx then
    let machine := apicInit placement machine
    let machine := apicStart machine
    let machine := machine.loadIdt placement
    let machine := { machine with pics := picDisableTotal machine.pics, totalTicks := 0 }
    return machine.sti
  else
    let pics ← picEnable 0 (picInit 0x20 0x28 machine.pics)
    let machine := { machine with pics := pics }.loadIdt placement
    return machine.sti

/-- The write of a register; the event is the machine behind it. -/
def tracedWrite (reg value : BitVec 32) (machine : Machine) : Traced Machine Machine :=
  let machine := apicWriteReg machine.apicAddr reg value machine
  ⟨[machine], machine⟩

def apicTimerStart (machine : Machine) : Traced Machine Machine := do
  let lvt := apicReadReg machine.apicAddr apicLvtTimer machine
  let lvt := lvt ||| 1#32 <<< 16
  let lvt := lvt ||| 1#32 <<< 17
  let lvt := (lvt &&& ~~~ 0xFF#32) ||| 32
  let machine ← tracedWrite apicLvtTimer lvt machine
  let machine ← tracedWrite apicTimerDivide 0xB machine
  let machine ← tracedWrite apicTimerInitialCount 10000000 machine
  let lvt := lvt &&& ~~~ (1#32 <<< 16)
  tracedWrite apicLvtTimer lvt machine

def apicTimerStop (machine : Machine) : Traced Machine Machine :=
  let timer := apicReadReg machine.apicAddr apicLvtTimer machine
  let timer := timer ||| 1#32 <<< 16
  tracedWrite apicLvtTimer timer machine

/-- The calls of the clock. -/
inductive ClockCall where
  | startClock
  | stopClock
  deriving DecidableEq, Repr

def ClockCall.run (machine : Machine) : ClockCall → Traced Machine Machine
  | .startClock => apicTimerStart machine
  | .stopClock => apicTimerStop machine

/-- A sequence of calls; the events are the machines behind every write. -/
def runClock (calls : List ClockCall) (machine : Machine) : Traced Machine Machine :=
  calls.foldlM ClockCall.run machine

end ArchaOS.InterruptSetup
