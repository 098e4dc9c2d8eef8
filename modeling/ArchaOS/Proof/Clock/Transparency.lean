import ArchaOS.Construction.Clock
import ArchaOS.Proof.Syscalls.EntryFrame

namespace ArchaOS.Clock

open Library Processor
open Syscalls (savedRegisters saveRegisters_eq restoreRegisters_eq)

/-- The state in which `clock_interrupt` starts. -/
def clockStart (status : Word → Word) (returnAddress : Word) (cpu : Cpu) : Cpu :=
  (enterClock status cpu).calling returnAddress

/-- The compiled `clock_interrupt` returns to its caller with the callee-saved registers, and it
changes what the function changes and its own frame. -/
structure FollowsAbi (globals : Globals) (depth : Nat) (clock : Cpu → Cpu) (start : Cpu) : Prop where
  stack : (clock start).register .rsp = start.register .rsp + 8
  saved : ∀ register ∈ [Register.rbx, .rbp, .r12, .r13, .r14, .r15],
    (clock start).register register = start.register register
  memory : ∀ byte, ¬ Below (start.register .rsp + 8) (depth + 8) byte →
    (clock start).memory.byte byte = (clockInterrupt globals start.memory).byte byte

/-- The address of the EOI register. -/
def eoiAddress (globals : Globals) (memory : Memory) : Word :=
  wordAt memory globals.apicAddr + apicEoiRegister

/-- A byte of `total_ticks` or of the EOI register. -/
def ClockByte (globals : Globals) (memory : Memory) (byte : Nat) : Prop :=
  (globals.totalTicks.toNat ≤ byte ∧ byte < globals.totalTicks.toNat + 8) ∨
    ((eoiAddress globals memory).toNat ≤ byte ∧ byte < (eoiAddress globals memory).toNat + 4)

/-- The stack of the interrupt, with its frame on top, does not reach around the address space and
holds no part of the clock, whose parts are apart from each other. -/
structure ClockApart (globals : Globals) (frame : Word) (depth : Nat) (cpu : Cpu) : Prop where
  room : depth + 183 ≤ 2 ^ 64
  clock : ∀ byte, ClockByte globals cpu.memory byte → ¬ Below (frame + bytes 5) (depth + 183) byte
  base : ∀ byte, globals.apicAddr.toNat ≤ byte → byte < globals.apicAddr.toNat + 8 →
    ¬ Below (frame + bytes 5) (depth + 183) byte
  distinct : globals.totalTicks.toNat + 8 ≤ globals.apicAddr.toNat ∨
    globals.apicAddr.toNat + 8 ≤ globals.totalTicks.toNat
  eoi : globals.totalTicks.toNat + 8 ≤ (eoiAddress globals cpu.memory).toNat ∨
    (eoiAddress globals cpu.memory).toNat + 4 ≤ globals.totalTicks.toNat

/-- The interrupted program does not see the interrupt. -/
structure Transparent (globals : Globals) (delivery : Delivery) (depth : Nat) (cpu after : Cpu) :
    Prop where
  registers : ∀ register, after.register register = cpu.register register
  rip : after.rip = cpu.rip
  cs : after.cs = cpu.cs
  ss : after.ss = cpu.ss
  rflags : after.rflags = cpu.rflags
  memory : ∀ byte, ¬ Below delivery.frame (depth + 143) byte → ¬ ClockByte globals cpu.memory byte →
    after.memory.byte byte = (deliver delivery cpu).memory.byte byte
  ticks : wordAt after.memory globals.totalTicks = wordAt cpu.memory globals.totalTicks + 1

/-- The words that stand above the aligned stack pointer, the topmost first. -/
def stackWords (cpu : Cpu) : List Word :=
  [cpu.ss, cpu.register .rsp, cpu.rflags, cpu.cs, cpu.rip] ++ savedRegisters.map cpu.register

/-- The stack pointer before the call. -/
def alignedStack (frame : Word) : Word := (frame - bytes 15) &&& -16

/-- `tick_interrupt` makes the call below the saved registers. -/
theorem enterClock_eq (status : Word → Word) (delivery : Delivery) (cpu : Cpu) :
    (enterClock status (deliver delivery cpu)).memory =
        stacked cpu.memory (delivery.frame + bytes 5) (stackWords cpu) ∧
      (enterClock status (deliver delivery cpu)).register .rbx = delivery.frame - bytes 15 ∧
      (enterClock status (deliver delivery cpu)).register .rsp = alignedStack delivery.frame := by
  have frame : (cld (deliver delivery cpu)).register .rsp = delivery.frame := rfl
  have values : savedRegisters.map (cld (deliver delivery cpu)).register =
      savedRegisters.map cpu.register := rfl
  have below : delivery.frame + bytes 5 - bytes 5 = delivery.frame := add_sub_cancel_right _ _
  have memory : stacked (cld (deliver delivery cpu)).memory delivery.frame
      (savedRegisters.map cpu.register) =
        stacked cpu.memory (delivery.frame + bytes 5) (stackWords cpu) := by
    rw [stackWords, stacked_append]
    change _ = stacked _ (delivery.frame + bytes 5 - bytes 5) _
    rw [below]
    rfl
  have saved := run_push savedRegisters (cld (deliver delivery cpu)) (by decide)
  rw [frame, values, memory] at saved
  simp only [enterClock, saveRegisters_eq, saved]
  exact ⟨rfl, rfl, rfl⟩

/-- The aligned stack pointer is a multiple of sixteen, and the saved registers and the frame are the
160 bytes above less than sixteen bytes that stay unused. -/
theorem alignedStack_spec (frame : Word) :
    (alignedStack frame).toNat % 16 = 0 ∧
      ∃ unused < 16, (frame + bytes 5 - alignedStack frame).toNat = 160 + unused ∧
        (frame - alignedStack frame).toNat = 120 + unused := by
  obtain ⟨aligned, near⟩ := aligned_sixteen (frame - bytes 15)
  refine ⟨aligned, _, near, ?_, ?_⟩
  · unfold alignedStack bytes
    unfold bytes at near
    bv_omega
  · unfold alignedStack bytes
    unfold bytes at near
    bv_omega

section Globals

variable {globals : Globals} {memory : Memory}
  (distinct : globals.totalTicks.toNat + 8 ≤ globals.apicAddr.toNat ∨
    globals.apicAddr.toNat + 8 ≤ globals.totalTicks.toNat)
include distinct

/-- Counting a tick leaves the address of the controller. -/
theorem apicAddr_kept (value : Word) :
    wordAt (storeAt memory globals.totalTicks value) globals.apicAddr = wordAt memory globals.apicAddr := by
  apply wordAt_congr
  intro byte low high
  exact Memory.write_outside (by omega)

/-- `clock_interrupt` changes no bytes but its own. -/
theorem clockInterrupt_outside {byte : Nat} (outside : ¬ ClockByte globals memory byte) :
    (clockInterrupt globals memory).byte byte = memory.byte byte := by
  unfold ClockByte eoiAddress at outside
  rw [clockInterrupt, apicEoi, apicWriteReg, apicAddr_kept distinct]
  rw [Memory.write_outside (by omega), storeAt, Memory.write_outside (by omega)]

/-- `clock_interrupt` counts the tick. -/
theorem clockInterrupt_ticks
    (eoi : globals.totalTicks.toNat + 8 ≤ (eoiAddress globals memory).toNat ∨
      (eoiAddress globals memory).toNat + 4 ≤ globals.totalTicks.toNat) :
    wordAt (clockInterrupt globals memory) globals.totalTicks = wordAt memory globals.totalTicks + 1 := by
  rw [← wordAt_storeAt memory globals.totalTicks (wordAt memory globals.totalTicks + 1)]
  apply wordAt_congr
  intro byte low high
  unfold eoiAddress at eoi
  rw [clockInterrupt, apicEoi, apicWriteReg, apicAddr_kept distinct]
  exact Memory.write_outside (by omega)

end Globals

section Interrupt

variable {globals : Globals} {delivery : Delivery} {depth : Nat} {cpu : Cpu}
  {status : Word → Word} {returnAddress : Word} {clock : Cpu → Cpu}

/-- What the call changes besides the clock lies below the aligned stack pointer. -/
theorem clockStart_memory (status : Word → Word) (returnAddress : Word) (delivery : Delivery) (cpu : Cpu)
    {byte : Nat} (apart : ¬ Below (alignedStack delivery.frame) 8 byte) :
    (clockStart status returnAddress (deliver delivery cpu)).memory.byte byte =
      (stacked cpu.memory (delivery.frame + bytes 5) (stackWords cpu)).byte byte := by
  obtain ⟨memory, _, stack⟩ := enterClock_eq status delivery cpu
  rw [clockStart, Cpu.calling]
  simp only [stack, memory]
  apply storeAt_apart
  rwa [sub_add_cancel]

/-- The call of the clock starts on an aligned stack. -/
theorem clockStart_stack (status : Word → Word) (returnAddress : Word) (delivery : Delivery) (cpu : Cpu) :
    (clockStart status returnAddress (deliver delivery cpu)).register .rsp + 8 =
      alignedStack delivery.frame := by
  obtain ⟨_, _, stack⟩ := enterClock_eq status delivery cpu
  rw [clockStart, Cpu.calling]
  simp only [Cpu.set, Function.update_self, stack, sub_add_cancel]

/-- Up to the call nothing changes but the stack of the interrupt. -/
theorem clockStart_outside (status : Word → Word) (returnAddress : Word) (delivery : Delivery)
    (cpu : Cpu) {byte : Nat} (outside : ¬ Below (delivery.frame + bytes 5) 183 byte) :
    (clockStart status returnAddress (deliver delivery cpu)).memory.byte byte = cpu.memory.byte byte := by
  obtain ⟨_, unused, near, top, _⟩ := alignedStack_spec delivery.frame
  have return' : ¬ Below (alignedStack delivery.frame) 8 byte := by
    intro below
    have lifted : Below (delivery.frame + bytes 5) _ byte := below.lift
    exact outside (lifted.mono (by omega))
  have words : ¬ Below (delivery.frame + bytes 5) (8 * (stackWords cpu).length) byte := by
    intro below
    exact outside (below.mono (by simp [stackWords, savedRegisters]))
  rw [clockStart_memory status returnAddress delivery cpu return', stacked_apart _ _ _ words]

variable (apart : ClockApart globals delivery.frame depth cpu)
  (abi : FollowsAbi globals depth clock (clockStart status returnAddress (deliver delivery cpu)))
include apart

/-- The stub leaves the address that the clock acknowledges. -/
theorem ClockApart.eoi_kept (status : Word → Word) (returnAddress : Word) :
    eoiAddress globals (clockStart status returnAddress (deliver delivery cpu)).memory =
      eoiAddress globals cpu.memory := by
  have base : wordAt (clockStart status returnAddress (deliver delivery cpu)).memory globals.apicAddr =
      wordAt cpu.memory globals.apicAddr := by
    apply wordAt_congr
    intro byte low high
    apply clockStart_outside
    exact fun below => apart.base byte low high (below.mono (by omega))
  rw [eoiAddress, eoiAddress, base]

include abi

/-- The call changes the clock and what lies below the aligned stack pointer. -/
theorem called_memory {byte : Nat} (unused : ¬ Below (alignedStack delivery.frame) (depth + 8) byte)
    (other : ¬ ClockByte globals cpu.memory byte) :
    (clock (clockStart status returnAddress (deliver delivery cpu))).memory.byte byte =
      (stacked cpu.memory (delivery.frame + bytes 5) (stackWords cpu)).byte byte := by
  have stack := clockStart_stack status returnAddress delivery cpu
  have kept := abi.memory byte (by rwa [stack])
  have outside : ¬ ClockByte globals (clockStart status returnAddress (deliver delivery cpu)).memory byte := by
    rw [ClockByte, apart.eoi_kept]
    exact other
  rw [kept, clockInterrupt_outside apart.distinct outside]
  exact clockStart_memory status returnAddress delivery cpu fun below => unused (below.mono (by omega))

/-- The stacked words survive the call. -/
theorem called_word {index : Nat} (inside : index < (stackWords cpu).length) :
    wordAt (clock (clockStart status returnAddress (deliver delivery cpu))).memory
      (delivery.frame + bytes 5 - bytes (index + 1)) = (stackWords cpu)[index] := by
  have count : (stackWords cpu).length = 20 := by simp [stackWords, savedRegisters]
  have room := apart.room
  obtain ⟨_, unused, near, top, _⟩ := alignedStack_spec delivery.frame
  rw [← stacked_read cpu.memory (delivery.frame + bytes 5) (stackWords cpu) (by omega) index inside]
  apply wordAt_congr
  intro byte low high
  have distance : (delivery.frame + bytes 5 -
      (delivery.frame + bytes 5 - bytes (index + 1) + 8)).toNat = 8 * index := by
    unfold bytes
    bv_omega
  have word : Below (delivery.frame + bytes 5) 160 byte := by
    have lifted : Below (delivery.frame + bytes 5) _ byte := (below_word low high).lift
    exact lifted.mono (by omega)
  apply called_memory apart abi
  · exact word.apart (by omega) (by omega)
  · exact fun own => apart.clock byte own (word.mono (by omega))

/-- Outside the clock nothing changes but what lies below the frame. -/
theorem called_outside {byte : Nat} (outside : ¬ Below delivery.frame (depth + 143) byte)
    (other : ¬ ClockByte globals cpu.memory byte) :
    (clock (clockStart status returnAddress (deliver delivery cpu))).memory.byte byte =
      (deliver delivery cpu).memory.byte byte := by
  obtain ⟨_, unused, near, _, below⟩ := alignedStack_spec delivery.frame
  have free : ¬ Below (alignedStack delivery.frame) (depth + 8) byte := by
    intro within
    have lifted : Below delivery.frame _ byte := within.lift
    exact outside (lifted.mono (by omega))
  have registers : ¬ Below (delivery.frame + bytes 5 - bytes 5)
      (8 * (savedRegisters.map cpu.register).length) byte := by
    rw [add_sub_cancel_right, List.length_map]
    have count : savedRegisters.length = 15 := rfl
    exact fun within => outside (within.mono (by omega))
  rw [called_memory apart abi free other, stackWords, stacked_append]
  exact stacked_apart _ _ _ registers

/-- The call counts the tick. -/
theorem called_ticks :
    wordAt (clock (clockStart status returnAddress (deliver delivery cpu))).memory globals.totalTicks =
      wordAt cpu.memory globals.totalTicks + 1 := by
  obtain ⟨_, unused, near, top, _⟩ := alignedStack_spec delivery.frame
  have stack := clockStart_stack status returnAddress delivery cpu
  have outside (byte : Nat) (low : globals.totalTicks.toNat ≤ byte)
      (high : byte < globals.totalTicks.toNat + 8) :
      ¬ Below (delivery.frame + bytes 5) (depth + 183) byte :=
    apart.clock byte (.inl ⟨low, high⟩)
  have before : wordAt (clockStart status returnAddress (deliver delivery cpu)).memory globals.totalTicks =
      wordAt cpu.memory globals.totalTicks := by
    apply wordAt_congr
    intro byte low high
    apply clockStart_outside
    exact fun below => outside byte low high (below.mono (by omega))
  have eoi := apart.eoi
  rw [← apart.eoi_kept status returnAddress] at eoi
  rw [← before, ← clockInterrupt_ticks apart.distinct eoi]
  apply wordAt_congr
  intro byte low high
  apply abi.memory
  rw [stack]
  intro below
  have lifted : Below (delivery.frame + bytes 5) _ byte := below.lift
  exact outside byte low high (lifted.mono (by omega))

/-- Each saved register can be read back after the call. -/
theorem called_saved {index : Nat} (inside : index < savedRegisters.length) :
    wordAt (clock (clockStart status returnAddress (deliver delivery cpu))).memory
      (delivery.frame - bytes (index + 1)) = cpu.register savedRegisters[index] := by
  have count : savedRegisters.length = 15 := rfl
  have within : index + 5 < (stackWords cpu).length := by
    simp only [stackWords, List.length_append, List.length_map, List.length_cons, List.length_nil]
    omega
  have address : delivery.frame + bytes 5 - bytes (index + 5 + 1) = delivery.frame - bytes (index + 1) := by
    rw [Nat.add_right_comm, bytes_add, add_sub_add_right_eq_sub]
  have word := called_word apart abi within
  rw [address] at word
  rw [word]
  exact List.getElem_map cpu.register

omit apart in
/-- The clock returns with the stack pointer of the stub in `rbx`. -/
theorem called_stack :
    (clock (clockStart status returnAddress (deliver delivery cpu))).register .rbx =
      delivery.frame - bytes savedRegisters.length := by
  obtain ⟨_, pointer, _⟩ := enterClock_eq status delivery cpu
  rw [abi.saved .rbx (by decide), clockStart, Cpu.calling]
  simp only [Cpu.set]
  rw [Function.update_of_ne (by decide), pointer]
  rfl

/-- The words of the frame as `iretq` reads them. -/
theorem called_frame :
    let memory := (clock (clockStart status returnAddress (deliver delivery cpu))).memory
    wordAt memory delivery.frame = cpu.rip ∧ wordAt memory (delivery.frame + 8) = cpu.cs ∧
      wordAt memory (delivery.frame + 16) = cpu.rflags ∧
      wordAt memory (delivery.frame + 24) = cpu.register .rsp ∧
      wordAt memory (delivery.frame + 32) = cpu.ss := by
  have word (index : Nat) (inside : index < 5) (address : Word)
      (same : delivery.frame + bytes 5 - bytes (index + 1) = address) :
      wordAt (clock (clockStart status returnAddress (deliver delivery cpu))).memory address =
        [cpu.ss, cpu.register .rsp, cpu.rflags, cpu.cs, cpu.rip][index] := by
    have within : index < (stackWords cpu).length := by
      simp only [stackWords, List.length_append, List.length_cons]
      omega
    rw [← same, called_word apart abi within]
    exact List.getElem_append_left inside
  refine ⟨word 4 (by decide) _ ?_, word 3 (by decide) _ ?_, word 2 (by decide) _ ?_,
    word 1 (by decide) _ ?_, word 0 (by decide) _ ?_⟩
  all_goals
    unfold bytes
    bv_omega

/-- The saved registers come back once the stack pointer has been recovered from RBX. -/
theorem returned_registers {after : Cpu}
    (popped : after = run (savedRegisters.reverse.map .pop)
      ((clock (clockStart status returnAddress (deliver delivery cpu))).set .rsp
        ((clock (clockStart status returnAddress (deliver delivery cpu))).register .rbx))) :
    (∀ register ∈ savedRegisters, after.register register = cpu.register register) ∧
      after.register .rsp = delivery.frame ∧
      after.memory = (clock (clockStart status returnAddress (deliver delivery cpu))).memory := by
  have pointer : ((clock (clockStart status returnAddress (deliver delivery cpu))).set .rsp
      ((clock (clockStart status returnAddress (deliver delivery cpu))).register .rbx)).register .rsp =
        delivery.frame - bytes savedRegisters.length :=
    (set_register _ _ _).trans (called_stack abi)
  obtain ⟨restored, recovered, memory, _, _⟩ := run_restore savedRegisters _ (by decide) (by decide)
    delivery.frame cpu.register pointer fun index inside => called_saved apart abi inside
  rw [← popped] at restored recovered memory
  exact ⟨restored, recovered, memory⟩

end Interrupt

/-- The timer interrupt is transparent, and the call is made with an aligned stack. -/
theorem tickInterrupt_transparent {globals : Globals} {delivery : Delivery} {depth : Nat} {cpu : Cpu}
    {status : Word → Word} {returnAddress : Word} {clock : Cpu → Cpu}
    (apart : ClockApart globals delivery.frame depth cpu)
    (abi : FollowsAbi globals depth clock (clockStart status returnAddress (deliver delivery cpu))) :
    ((enterClock status (deliver delivery cpu)).register .rsp).toNat % 16 = 0 ∧
      Transparent globals delivery depth cpu
        (tickInterrupt status returnAddress clock (deliver delivery cpu)) := by
  obtain ⟨_, _, stack⟩ := enterClock_eq status delivery cpu
  obtain ⟨aligned, _⟩ := alignedStack_spec delivery.frame
  obtain ⟨after, popped⟩ : ∃ after, after = run (savedRegisters.reverse.map .pop)
      ((clock (clockStart status returnAddress (deliver delivery cpu))).set .rsp
        ((clock (clockStart status returnAddress (deliver delivery cpu))).register .rbx)) := ⟨_, rfl⟩
  have whole : tickInterrupt status returnAddress clock (deliver delivery cpu) = exec after .iretq := by
    rw [popped]
    rfl
  obtain ⟨restored, recovered, memory⟩ := returned_registers apart abi popped
  obtain ⟨rip, cs, rflags, rsp, ss⟩ := called_frame apart abi
  rw [← memory] at rip cs rflags rsp ss
  rw [stack, whole]
  constructor
  · exact aligned
  constructor
  · intro register
    by_cases isStack : register = .rsp
    · rw [isStack]
      simp only [exec, Cpu.set, recovered, Function.update_self]
      exact rsp
    · have member : register ∈ savedRegisters := by
        cases register <;> first | decide | exact absurd rfl isStack
      simp only [exec, Cpu.set]
      rw [Function.update_of_ne isStack]
      exact restored register member
  · simp only [exec, recovered]
    exact rip
  · simp only [exec, recovered]
    exact cs
  · simp only [exec, recovered]
    exact ss
  · simp only [exec, recovered]
    exact rflags
  · intro byte outside other
    simp only [exec, Cpu.set, memory]
    exact called_outside apart abi outside other
  · simp only [exec, Cpu.set, memory]
    exact called_ticks apart abi

/-- A `clock_interrupt` that needs no stack of its own. -/
def plainClock (globals : Globals) (cpu : Cpu) : Cpu :=
  { cpu.set .rsp (cpu.register .rsp + 8) with memory := clockInterrupt globals cpu.memory }

/-- A clock that keeps every register follows the ABI. -/
theorem followsAbi_plainClock (globals : Globals) (depth : Nat) (start : Cpu) :
    FollowsAbi globals depth (plainClock globals) start where
  stack := by simp only [plainClock, set_register]
  saved := by
    intro register member
    have different : register ≠ .rsp := by
      rintro rfl
      exact absurd member (by decide)
    simp only [plainClock, set_register_of_ne start different]
  memory := by
    intro byte _
    rw [plainClock]

/-- A program that is interrupted with the APIC at 0xFEE00000. -/
def interrupted : Cpu where
  register := fun _ => 0x1234
  rip := 0x400000
  cs := 0x08
  rflags := 0x246
  ss := 0x10
  gsBase := 0
  kernelGsBase := 0
  memory := Memory.write ⟨fun _ => 0⟩ 0x1008 8 0xFEE00000
  trace := []

/-- The words of the clock lie apart from the stack of the interrupted program. -/
theorem clockApart_interrupted : ClockApart ⟨0x1000, 0x1008⟩ 0x7003 64 interrupted := by
  have eoi : eoiAddress ⟨0x1000, 0x1008⟩ interrupted.memory = 0xFEE000B0 := by decide
  constructor
  · decide
  · intro byte own
    unfold ClockByte at own
    rw [eoi] at own
    unfold Below bytes
    bv_omega
  · intro byte low high
    unfold Below bytes
    bv_omega
  · decide
  · rw [eoi]
    decide

/-- A tick arrives on a stack that is not aligned. -/
theorem tickInterrupt_transparent_interrupted :
    ((enterClock (fun _ => 0) (deliver ⟨0x7003, 0x600000, 0x08, 0x10⟩ interrupted)).register .rsp).toNat
        % 16 = 0 ∧
      Transparent ⟨0x1000, 0x1008⟩ ⟨0x7003, 0x600000, 0x08, 0x10⟩ 64 interrupted
        (tickInterrupt (fun _ => 0) 0x600020 (plainClock ⟨0x1000, 0x1008⟩)
          (deliver ⟨0x7003, 0x600000, 0x08, 0x10⟩ interrupted)) :=
  tickInterrupt_transparent clockApart_interrupted (followsAbi_plainClock _ _ _)

end ArchaOS.Clock
