import ArchaOS.Proof.Exceptions.Interleaved
import ArchaOS.Proof.Graphics.Rectangle
import ArchaOS.Proof.Stdio.Numbers

namespace ArchaOS.Exceptions

open Library Processor Clock
open Syscalls (savedRegisters)

/-- The error code, for the faults that have one. -/
def Fault.extra (fault : Fault) (errorCode : Word) : List Word :=
  if fault.hasErrorCode then [errorCode] else []

/-- What stands on the stack above the return address when a handler calls its function, from the lowest
word up. -/
def Fault.context (fault : Fault) (errorCode : Word) (cpu : Cpu) : List Word :=
  (frameWords cpu ++ fault.extra errorCode ++ savedRegisters.map cpu.register).reverse

/-- The stacked context has twenty words and the error code, where there is one. -/
theorem context_length (fault : Fault) (errorCode : Word) (cpu : Cpu) :
    (fault.context errorCode cpu).length = 20 + (fault.extra errorCode).length := by
  simp only [Fault.context, frameWords, List.length_reverse, List.length_append, List.length_map,
    List.length_cons, List.length_nil]
  have count : savedRegisters.length = 15 := rfl
  omega

/-- There is at most one error code. -/
theorem extra_length (fault : Fault) (errorCode : Word) : (fault.extra errorCode).length ≤ 1 := by
  unfold Fault.extra
  split <;> simp

/-- A fault pushes its frame and its error code. -/
theorem deliverFault_stacked (fault : Fault) (errorCode : Word) (delivery : Delivery) (cpu : Cpu) :
    (deliverFault fault errorCode delivery cpu).memory =
        stacked cpu.memory (delivery.frame + bytes 5) (frameWords cpu ++ fault.extra errorCode) ∧
      (deliverFault fault errorCode delivery cpu).register .rsp =
        delivery.frame - bytes (fault.extra errorCode).length ∧
      savedRegisters.map (deliverFault fault errorCode delivery cpu).register =
        savedRegisters.map cpu.register := by
  unfold deliverFault Fault.extra
  cases fault.hasErrorCode with
  | false => exact ⟨rfl, (sub_zero _).symm, rfl⟩
  | true =>
      refine ⟨?_, rfl, rfl⟩
      rw [if_pos rfl, stacked_append]
      change _ = stacked _ (delivery.frame + bytes 5 - bytes 5) _
      rw [add_sub_cancel_right]
      rfl

section Entry

variable (fault : Fault) (errorCode handler selector returnAddress : Word) (cpu : Cpu)

/-- The state in which the function of a fault starts. -/
def faultStart : Cpu :=
  enterFault returnAddress (deliverFault fault errorCode (kernelDelivery handler selector cpu) cpu)

/-- The handler starts below the context and its return address. -/
theorem faultStart_stack :
    (faultStart fault errorCode handler selector returnAddress cpu).register .rsp =
        frameOf cpu + bytes 5 - bytes ((fault.context errorCode cpu).reverse ++ [returnAddress]).length ∧
      (faultStart fault errorCode handler selector returnAddress cpu).memory =
        stacked cpu.memory (frameOf cpu + bytes 5)
          ((fault.context errorCode cpu).reverse ++ [returnAddress]) := by
  obtain ⟨memory, pointer, same⟩ := deliverFault_stacked fault errorCode
    (kernelDelivery handler selector cpu) cpu
  obtain ⟨saved, stack⟩ := saveRegisters_stacked cpu _ (frameOf cpu) _ memory pointer same
  have pushes : (fault.context errorCode cpu).reverse =
      frameWords cpu ++ fault.extra errorCode ++ savedRegisters.map cpu.register := List.reverse_reverse _
  have top : frameOf cpu - bytes (fault.extra errorCode).length - bytes savedRegisters.length =
      frameOf cpu + bytes 5 - bytes (fault.context errorCode cpu).reverse.length := by
    have parts : bytes (fault.context errorCode cpu).reverse.length =
        bytes 5 + bytes (fault.extra errorCode).length + bytes savedRegisters.length := by
      rw [← bytes_add, ← bytes_add, List.length_reverse, context_length]
      congr 1
      have count : savedRegisters.length = 15 := rfl
      omega
    rw [parts, sub_add_eq_sub_sub, sub_add_eq_sub_sub, add_sub_cancel_right]
  rw [top] at stack
  rw [← pushes] at saved
  constructor
  · rw [faultStart, enterFault, Cpu.calling, List.length_append, bytes_add, sub_add_eq_sub_sub, ← stack]
    simp only [Cpu.set, Function.update_self]
    rfl
  · rw [faultStart, enterFault, Cpu.calling, saved, stack, stacked_snoc]

/-- The function of a fault finds the registers of the program, the error code and the frame above its
return address, and nothing else has changed but what is free below the stack pointer. -/
theorem faultStart_holds (index : Nat) (inside : index < (fault.context errorCode cpu).length) :
    let start := faultStart fault errorCode handler selector returnAddress cpu
    wordAt start.memory (start.register .rsp + bytes (index + 1)) = (fault.context errorCode cpu)[index] := by
  obtain ⟨pointer, memory⟩ := faultStart_stack fault errorCode handler selector returnAddress cpu
  have short := extra_length fault errorCode
  have count := context_length fault errorCode cpu
  have room : 8 * ((fault.context errorCode cpu).reverse ++ [returnAddress]).length ≤ 2 ^ 64 := by
    rw [List.length_append, List.length_reverse, count, List.length_singleton]
    omega
  have upward : ((fault.context errorCode cpu).reverse ++ [returnAddress]).reverse =
      returnAddress :: fault.context errorCode cpu := by
    rw [List.reverse_append, List.reverse_reverse]
    rfl
  intro start
  change wordAt (faultStart fault errorCode handler selector returnAddress cpu).memory _ = _
  rw [memory, pointer]
  exact stacked_rising cpu.memory (frameOf cpu + bytes 5) upward room (Nat.succ_lt_succ inside)

/-- The stack is aligned for the call unless there is an error code. -/
theorem faultStart_aligned :
    ((faultStart fault errorCode handler selector returnAddress cpu).register .rsp + 8).toNat % 16 =
      if fault.hasErrorCode then 8 else 0 := by
  obtain ⟨pointer, _⟩ := faultStart_stack fault errorCode handler selector returnAddress cpu
  obtain ⟨aligned, _⟩ := aligned_sixteen (cpu.register .rsp)
  have count := context_length fault errorCode cpu
  rw [pointer, List.length_append, List.length_reverse, count, List.length_singleton, frameOf,
    sub_add_cancel]
  unfold Fault.extra bytes
  cases fault.hasErrorCode with
  | false =>
      rw [if_neg (by decide), if_neg (by decide), List.length_nil]
      bv_omega
  | true =>
      rw [if_pos rfl, if_pos rfl, List.length_singleton]
      bv_omega

/-- The fault changes no byte outside the stack below the program. -/
theorem faultStart_outside {byte : Nat} (outside : ¬ Below (cpu.register .rsp) 198 byte) :
    (faultStart fault errorCode handler selector returnAddress cpu).memory.byte byte =
      cpu.memory.byte byte := by
  obtain ⟨_, memory⟩ := faultStart_stack fault errorCode handler selector returnAddress cpu
  have short := extra_length fault errorCode
  have count := context_length fault errorCode cpu
  rw [memory]
  refine stacked_apart _ _ _ fun below => outside ((below_of_frame below).mono ?_)
  rw [List.length_append, List.length_reverse, count, List.length_singleton]
  omega

end Entry

/-- Processors that are alike stack the same context. -/
theorem Alike.context {setting : Setting} {cpu other : Cpu} (alike : Alike setting cpu other)
    (fault : Fault) (errorCode : Word) : fault.context errorCode cpu = fault.context errorCode other := by
  have registers : cpu.register = other.register := funext alike.registers
  rw [Fault.context, Fault.context, frameWords, frameWords, registers, alike.rip, alike.cs, alike.ss,
    alike.rflags]

/-- `kernel_panic` sends its message and halts; the box on the screen is never drawn. -/
theorem kernelPanic_eq (framebuffer : Graphics.PixelBuffer) (narrow : framebuffer.width < 2 ^ 32)
    (fault : Fault) (memory : Memory) :
    kernelPanic framebuffer fault.message memory =
      .ok ⟨textBytes ("Paniced: \n\t" ++ fault.message), memory⟩ := by
  have intro : (0 : UInt8) ∉ textBytes "Paniced: \n\t" := by decide
  have message : (0 : UInt8) ∉ textBytes fault.message := by cases fault <;> decide
  have joined : textBytes ("Paniced: \n\t" ++ fault.message) =
      textBytes "Paniced: \n\t" ++ textBytes fault.message := by
    simp [textBytes]
  rw [kernelPanic, Stdio.serialPrint_eq intro, Stdio.serialPrint_eq message,
    Graphics.panicScreen_invisible framebuffer narrow, joined]
  rfl

/-- What a fault leaves behind: the state of the program at the fault on the stack, as if no interrupt
had ever arrived, and the message on the serial line. -/
structure Reported (setting : Setting) (fault : Fault) (errorCode : Word) (plain start : Cpu) : Prop where
  context : ∀ index (inside : index < (fault.context errorCode plain).length),
    wordAt start.memory (start.register .rsp + bytes (index + 1)) = (fault.context errorCode plain)[index]
  memory : ∀ byte, setting.looksAt plain byte → start.memory.byte byte = plain.memory.byte byte
  aligned : (start.register .rsp + 8).toNat % 16 = if fault.hasErrorCode then 8 else 0
  halts : ∀ framebuffer : Graphics.PixelBuffer, framebuffer.width < 2 ^ 32 → ∀ memory,
    kernelPanic framebuffer fault.message memory =
      .ok ⟨textBytes ("Paniced: \n\t" ++ fault.message), memory⟩

/-- A fault behind any course of a program and of interrupts is reported as a fault of the program
alone. The call of its function is aligned only if the processor has pushed no error code. -/
theorem fault_reported (setting : Setting) (handlers : Handlers) (cpu : Cpu) (course : Course)
    (undisturbed : Undisturbed setting handlers cpu course) (fault : Fault)
    (errorCode handler selector returnAddress : Word) :
    Reported setting fault errorCode (plain cpu course)
      (faultStart fault errorCode handler selector returnAddress (follow handlers cpu course)) := by
  have alike := undisturbed.alike
  refine ⟨?_, ?_, faultStart_aligned _ _ _ _ _ _, fun framebuffer narrow memory =>
    kernelPanic_eq framebuffer narrow fault memory⟩
  · rw [← alike.context fault errorCode]
    exact faultStart_holds fault errorCode handler selector returnAddress _
  · intro byte looked
    have visible := setting.apart _ byte looked
    rw [← alike.memory byte looked]
    rw [← alike.registers .rsp] at visible
    refine faultStart_outside fault errorCode handler selector returnAddress _ fun below => ?_
    exact visible (Or.inl (below.mono (by omega)))

/-- A program that pushes and pops is interrupted and faults. -/
theorem fault_reported_pushPop :
    Undisturbed (lowTerritory.onStack 0x1100) plainHandlers interrupted pushPop ∧
      Reported (lowTerritory.onStack 0x1100) .pageFault 2 (plain interrupted pushPop)
        (faultStart .pageFault 2 0x602000 8 0x602040 (follow plainHandlers interrupted pushPop)) :=
  ⟨undisturbed_pushPop, fault_reported (lowTerritory.onStack 0x1100) plainHandlers interrupted pushPop
    undisturbed_pushPop .pageFault 2 0x602000 8 0x602040⟩

end ArchaOS.Exceptions
