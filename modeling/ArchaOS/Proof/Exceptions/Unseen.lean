import ArchaOS.Construction.Exceptions
import ArchaOS.Library.Interleaving
import ArchaOS.Proof.Clock.Transparency

namespace ArchaOS.Exceptions

open Library Processor Clock
open Syscalls (savedRegisters saveRegisters_eq restoreRegisters_eq)

/-- The program goes on where it was interrupted. -/
structure Resumed (cpu after : Cpu) : Prop where
  registers : ∀ register, after.register register = cpu.register register
  rip : after.rip = cpu.rip
  cs : after.cs = cpu.cs
  ss : after.ss = cpu.ss
  rflags : after.rflags = cpu.rflags

/-- The stack of a handler holds what the interrupt and the handler have pushed. -/
structure Framed (cpu : Cpu) (frame : Word) (memory : Memory) : Prop where
  saved : ∀ index (inside : index < savedRegisters.length),
    wordAt memory (frame - bytes (index + 1)) = cpu.register savedRegisters[index]
  rip : wordAt memory frame = cpu.rip
  cs : wordAt memory (frame + 8) = cpu.cs
  rflags : wordAt memory (frame + 16) = cpu.rflags
  rsp : wordAt memory (frame + 24) = cpu.register .rsp
  ss : wordAt memory (frame + 32) = cpu.ss

/-- A stack that holds the words of a context has its frame. -/
theorem framed_of_words {cpu : Cpu} {frame : Word} {memory : Memory}
    (words : ∀ index (inside : index < (stackWords cpu).length),
      wordAt memory (frame + bytes 5 - bytes (index + 1)) = (stackWords cpu)[index]) :
    Framed cpu frame memory := by
  have count : savedRegisters.length = 15 := rfl
  have high (index : Nat) (inside : index < 5) (address : Word)
      (same : frame + bytes 5 - bytes (index + 1) = address) :
      wordAt memory address = [cpu.ss, cpu.register .rsp, cpu.rflags, cpu.cs, cpu.rip][index] := by
    have within : index < (stackWords cpu).length := by
      simp only [stackWords, List.length_append, List.length_cons]
      omega
    rw [← same, words index within]
    exact List.getElem_append_left inside
  refine ⟨?_, high 4 (by decide) _ ?_, high 3 (by decide) _ ?_, high 2 (by decide) _ ?_,
    high 1 (by decide) _ ?_, high 0 (by decide) _ ?_⟩
  · intro index inside
    have within : index + 5 < (stackWords cpu).length := by
      simp only [stackWords, List.length_append, List.length_map, List.length_cons, List.length_nil]
      omega
    have address : frame + bytes 5 - bytes (index + 5 + 1) = frame - bytes (index + 1) := by
      rw [Nat.add_right_comm, bytes_add, add_sub_add_right_eq_sub]
    rw [← address, words (index + 5) within]
    exact List.getElem_map cpu.register
  all_goals
    unfold bytes
    bv_omega

/-- The end of a handler resumes the program. -/
theorem Framed.resumes {cpu inner : Cpu} {frame : Word} (framed : Framed cpu frame inner.memory)
    (pointer : inner.register .rsp = frame - bytes savedRegisters.length) :
    Resumed cpu (run (Syscalls.restoreRegisters ++ [.iretq]) inner) ∧
      (run (Syscalls.restoreRegisters ++ [.iretq]) inner).memory = inner.memory := by
  obtain ⟨restored, recovered, memory, _, _⟩ := run_restore savedRegisters inner (by decide) (by decide)
    frame cpu.register pointer framed.saved
  rw [run_append, restoreRegisters_eq]
  change Resumed cpu (exec (run (savedRegisters.reverse.map .pop) inner) .iretq) ∧ _
  refine ⟨⟨?_, ?_, ?_, ?_, ?_⟩, memory⟩
  · intro register
    by_cases isStack : register = .rsp
    · rw [isStack]
      simp only [exec, Cpu.set, recovered, memory, Function.update_self]
      exact framed.rsp
    · have member : register ∈ savedRegisters := by
        cases register <;> first | decide | exact absurd rfl isStack
      simp only [exec, Cpu.set]
      rw [Function.update_of_ne isStack]
      exact restored register member
  all_goals
    simp only [exec, recovered, memory]
  · exact framed.rip
  · exact framed.cs
  · exact framed.ss
  · exact framed.rflags

section Arrival

variable {globals : Globals} {depth : Nat} {cpu : Cpu} {status : Word → Word} {returnAddress : Word}
  {clock : Cpu → Cpu}

/-- `tick_interrupt` resumes the program and leaves what `clock_interrupt` leaves. -/
theorem tickInterrupt_resumes (delivery : Delivery) (apart : ClockApart globals delivery.frame depth cpu)
    (abi : FollowsAbi globals depth clock (clockStart status returnAddress (deliver delivery cpu))) :
    Resumed cpu (tickInterrupt status returnAddress clock (deliver delivery cpu)) ∧
      (tickInterrupt status returnAddress clock (deliver delivery cpu)).memory =
        (clock (clockStart status returnAddress (deliver delivery cpu))).memory := by
  have framed : Framed cpu delivery.frame
      (clock (clockStart status returnAddress (deliver delivery cpu))).memory :=
    framed_of_words fun _ inside => called_word apart abi inside
  obtain ⟨inner, called⟩ : ∃ inner, inner =
      (clock (clockStart status returnAddress (deliver delivery cpu))).set .rsp
        ((clock (clockStart status returnAddress (deliver delivery cpu))).register .rbx) := ⟨_, rfl⟩
  have whole : tickInterrupt status returnAddress clock (deliver delivery cpu) =
      run (Syscalls.restoreRegisters ++ [.iretq]) inner := by
    rw [called, run_append]
    rfl
  have pointer : inner.register .rsp = delivery.frame - bytes savedRegisters.length := by
    rw [called, set_register]
    exact called_stack abi
  have memory : inner.memory = (clock (clockStart status returnAddress (deliver delivery cpu))).memory := by
    rw [called]
    rfl
  rw [whole, ← memory]
  rw [← memory] at framed
  exact framed.resumes pointer

end Arrival

section Pushes

/-- What the processor pushes, the first word on top. -/
def frameWords (cpu : Cpu) : List Word := [cpu.ss, cpu.register .rsp, cpu.rflags, cpu.cs, cpu.rip]

/-- The words below the frame are pushed from there on. -/
theorem saveRegisters_stacked (cpu entry : Cpu) (frame : Word) (extra : List Word)
    (memory : entry.memory = stacked cpu.memory (frame + bytes 5) (frameWords cpu ++ extra))
    (pointer : entry.register .rsp = frame - bytes extra.length)
    (same : savedRegisters.map entry.register = savedRegisters.map cpu.register) :
    (run Syscalls.saveRegisters entry).memory =
        stacked cpu.memory (frame + bytes 5) (frameWords cpu ++ extra ++ savedRegisters.map cpu.register) ∧
      (run Syscalls.saveRegisters entry).register .rsp =
        frame - bytes extra.length - bytes savedRegisters.length := by
  have place : frame + bytes 5 - bytes (frameWords cpu ++ extra).length = frame - bytes extra.length := by
    rw [List.length_append, bytes_add]
    change frame + bytes 5 - (bytes 5 + bytes extra.length) = _
    rw [sub_add_eq_sub_sub, add_sub_cancel_right]
  have joined := stacked_append cpu.memory (frame + bytes 5) (frameWords cpu ++ extra)
    (savedRegisters.map cpu.register)
  rw [place] at joined
  rw [saveRegisters_eq, run_push savedRegisters entry (by decide), same, memory, pointer]
  constructor
  · exact joined.symm
  · simp only [Cpu.set, Function.update_self]

/-- Stacked words, read from the lowest one up. -/
theorem stacked_rising (memory : Memory) (top : Word) {values words : List Word}
    (upward : values.reverse = words) (room : 8 * values.length ≤ 2 ^ 64) {index : Nat}
    (inside : index < words.length) :
    wordAt (stacked memory top values) (top - bytes values.length + bytes index) = words[index] := by
  subst upward
  have small : index < values.length := by
    rw [← List.length_reverse]
    exact inside
  have parts : bytes values.length = bytes (values.length - 1 - index + 1) + bytes index := by
    rw [← bytes_add]
    congr 1
    omega
  rw [parts, sub_add_eq_sub_sub, sub_add_cancel, List.getElem_reverse]
  exact stacked_read memory top values room _ (by omega)

end Pushes

/-- `spurious_int_handler` resumes the program and leaves the words that were pushed. -/
theorem spuriousIntHandler_resumes (delivery : Delivery) (cpu : Cpu) :
    Resumed cpu (run spuriousIntHandler (deliver delivery cpu)) ∧
      (run spuriousIntHandler (deliver delivery cpu)).memory =
        stacked cpu.memory (delivery.frame + bytes 5) (stackWords cpu) := by
  obtain ⟨memory, pointer⟩ := saveRegisters_stacked cpu (deliver delivery cpu) delivery.frame [] rfl
    (sub_zero _).symm rfl
  have whole : run spuriousIntHandler (deliver delivery cpu) =
      run (Syscalls.restoreRegisters ++ [.iretq]) (run Syscalls.saveRegisters (deliver delivery cpu)) := by
    rw [spuriousIntHandler, List.append_assoc, run_append]
  have stack : (run Syscalls.saveRegisters (deliver delivery cpu)).memory =
      stacked cpu.memory (delivery.frame + bytes 5) (stackWords cpu) := memory
  have framed : Framed cpu delivery.frame
      (run Syscalls.saveRegisters (deliver delivery cpu)).memory := by
    rw [stack]
    exact framed_of_words fun index inside =>
      stacked_read cpu.memory _ _ (by simp [stackWords, savedRegisters]) index inside
  obtain ⟨resumed, kept⟩ := framed.resumes (pointer.trans (by rw [List.length_nil]; exact congrArg (· - _) (sub_zero _)))
  rw [whole]
  exact ⟨resumed, kept.trans stack⟩

end ArchaOS.Exceptions
