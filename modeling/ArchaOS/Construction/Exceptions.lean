import ArchaOS.Construction.Clock
import ArchaOS.Construction.Rectangle
import ArchaOS.Construction.Stdio

/-
This file models kernel/arch/x86_64/interrupts/interrupts.s with the functions of
kernel/errs/exception.c and kernel_panic of kernel/errs/kernel_panic.c that its handlers call.
-/

namespace ArchaOS.Exceptions

open Library Processor

/-- How the processor enters a handler of the kernel from the kernel itself: it aligns the stack pointer
and pushes five words; the handler and its code segment come from the gate. -/
def kernelDelivery (handler selector : Word) (cpu : Cpu) : Delivery where
  frame := (cpu.register .rsp &&& -16) - bytes 5
  handler := handler
  selector := selector
  stackSegment := cpu.ss

def spuriousIntHandler : List Instruction := Syscalls.saveRegisters ++ Syscalls.restoreRegisters ++ [.iretq]

/-- The interrupts that arrive from outside of the program and have a handler. -/
inductive Interrupt where
  | tick
  | spurious
  deriving DecidableEq, Repr

/-- The gates of the two interrupts, and what the compiler has made of `clock_interrupt`. -/
structure Handlers where
  tickInterrupt : Word
  spuriousIntHandler : Word
  selector : Word
  status : Word → Word
  returnAddress : Word
  clock : Cpu → Cpu

/-- The processor takes an interrupt, and its handler runs. -/
def Handlers.serve (handlers : Handlers) (cpu : Cpu) : Interrupt → Cpu
  | .tick =>
      Clock.tickInterrupt handlers.status handlers.returnAddress handlers.clock
        (deliver (kernelDelivery handlers.tickInterrupt handlers.selector cpu) cpu)
  | .spurious =>
      run Exceptions.spuriousIntHandler
        (deliver (kernelDelivery handlers.spuriousIntHandler handlers.selector cpu) cpu)

/-- The faults that have a handler. -/
inductive Fault where
  | divideError
  | invalidOpcode
  | generalProtection
  | pageFault
  | doubleFault
  deriving DecidableEq, Repr

/-- The vectors for which the processor pushes an error code. -/
def Fault.hasErrorCode : Fault → Bool
  | .divideError => false
  | .invalidOpcode => false
  | .generalProtection => true
  | .pageFault => true
  | .doubleFault => true

/-- The message that the function of a fault gives to `kernel_panic`. -/
def Fault.message : Fault → String
  | .divideError => "DIVIDE BY ZERO"
  | .invalidOpcode => "INVALID OPCODE"
  | .generalProtection => "GENERAL PROTECTION"
  | .pageFault => "PAGE FAULT"
  | .doubleFault => "DOUBLE FAULT"

/-- The state in which the handler of a fault starts. -/
def deliverFault (fault : Fault) (errorCode : Word) (delivery : Delivery) (cpu : Cpu) : Cpu :=
  let cpu := deliver delivery cpu
  if fault.hasErrorCode then
    { cpu.set .rsp (cpu.register .rsp - 8) with
      memory := storeAt cpu.memory (cpu.register .rsp - 8) errorCode }
  else cpu

/-- The handler of a fault up to its call; `kernel_panic` does not return. -/
def enterFault (returnAddress : Word) (cpu : Cpu) : Cpu :=
  (run Syscalls.saveRegisters cpu).calling returnAddress

/-- The bytes of a text. -/
def textBytes (text : String) : List UInt8 := text.toList.map fun char => UInt8.ofNat char.toNat

/-- The processor waits with `hlt` while interrupts are disabled. -/
structure Halted where
  serial : List UInt8
  memory : Memory

def kernelPanic (framebuffer : Graphics.PixelBuffer) (msg : String) (memory : Memory) :
    Stdio.Outcome Halted := do
  let intro ← Stdio.serialPrint (textBytes "Paniced: \n\t" ++ [0])
  let serial ← Stdio.serialPrint (textBytes msg ++ [0])
  return ⟨intro ++ serial, Graphics.panicScreen framebuffer memory⟩

end ArchaOS.Exceptions
