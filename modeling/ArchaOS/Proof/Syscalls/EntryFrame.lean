import ArchaOS.Construction.SyscallEntry
import ArchaOS.Library.Interrupts

namespace ArchaOS.Syscalls

open Library Processor

/-- The registers in the order in which `SAVE_REGISTERS` pushes them. -/
def savedRegisters : List Register :=
  [.rax, .rbx, .rcx, .rdx, .rsi, .rdi, .rbp, .r8, .r9, .r10, .r11, .r12, .r13, .r14, .r15]

theorem saveRegisters_eq : saveRegisters = savedRegisters.map .push := rfl

theorem restoreRegisters_eq : restoreRegisters = savedRegisters.reverse.map .pop := rfl

/-- The kernel stack that the word at gs:0 names. -/
def kernelStack (user : Cpu) : Word := wordAt user.memory user.kernelGsBase

/-- The state in which `syscall_dispatch` starts. -/
def dispatchStart (returnAddress : Word) (user : Cpu) : Cpu :=
  (run enterKernel user).calling returnAddress

/-- The kernel stack has room for the saved registers, apart from the two words of the gs area. -/
structure KernelStack (user : Cpu) : Prop where
  area : user.kernelGsBase.toNat + 16 ≤ 2 ^ 64
  room : 128 ≤ (kernelStack user).toNat
  apart : (kernelStack user).toNat ≤ user.kernelGsBase.toNat ∨
    user.kernelGsBase.toNat + 16 ≤ (kernelStack user).toNat - 128

/-- A function returns to its caller with the callee-saved registers, the caller's part of the stack
and the gs area as they were. -/
structure FollowsAbi (callee : Cpu → Cpu) (start : Cpu) (top : Word) : Prop where
  stack : (callee start).register .rsp = start.register .rsp + 8
  saved : ∀ register ∈ [Register.rbx, .rbp, .r12, .r13, .r14, .r15],
    (callee start).register register = start.register register
  gsBase : (callee start).gsBase = start.gsBase
  kernelGsBase : (callee start).kernelGsBase = start.kernelGsBase
  frame : ∀ byte, (start.register .rsp).toNat + 8 ≤ byte → byte < top.toNat →
    (callee start).memory.byte byte = start.memory.byte byte
  area : ∀ byte, start.gsBase.toNat ≤ byte → byte < start.gsBase.toNat + 16 →
    (callee start).memory.byte byte = start.memory.byte byte

/-- The entry code hands over the user's registers and brings back the result. -/
structure EntryAgrees (returnAddress : Word) (dispatch : Cpu → Cpu) (user : Cpu) : Prop where
  frame : SyscallFrame.at (dispatchStart returnAddress user).memory
      ((dispatchStart returnAddress user).register .rdi) =
    ⟨(user.register .rax).toNat, (user.register .rdi).toNat, (user.register .rsi).toNat,
      (user.register .rdx).toNat, (user.register .r10).toNat, (user.register .r8).toNat,
      (user.register .r9).toNat⟩
  result : (run (syscallEntry returnAddress dispatch) user).register .rax =
    (dispatch (dispatchStart returnAddress user)).register .rax
  kept : ∀ register ∈ [Register.rbx, .rbp, .r12, .r13, .r14, .r15, .rdi, .rsi, .rdx, .r8, .r9, .r10,
      .rsp],
    (run (syscallEntry returnAddress dispatch) user).register register = user.register register

/-- The memory in which the user's stack pointer stands at gs:8 and the fifteen registers and the
return address stand on the kernel stack. -/
def savedMemory (returnAddress : Word) (user : Cpu) : Memory :=
  stacked (storeAt user.memory (user.kernelGsBase + 8) (user.register .rsp)) (kernelStack user)
    (savedRegisters.map user.register ++ [returnAddress])

section Entry

variable {user : Cpu} (stack : KernelStack user)
include stack

/-- The slot of the kernel stack does not wrap around. -/
theorem KernelStack.toNat_slot : (user.kernelGsBase + 8).toNat = user.kernelGsBase.toNat + 8 := by
  have area := stack.area
  rw [BitVec.toNat_add]
  exact Nat.mod_eq_of_lt (by change _ + 8 < _; omega)

/-- Saving the user's stack pointer does not change the word at gs:0. -/
theorem KernelStack.word_kept (value : Word) :
    wordAt (storeAt user.memory (user.kernelGsBase + 8) value) user.kernelGsBase =
      kernelStack user := by
  have slot := stack.toNat_slot
  apply wordAt_congr
  intro byte low high
  rw [storeAt]
  exact Memory.write_outside (by omega)

/-- `syscall_dispatch` starts with the user's registers, below the saved ones. -/
theorem dispatchStart_eq (returnAddress : Word) :
    dispatchStart returnAddress user =
      { user with
        register := Function.update user.register .rsp (kernelStack user - bytes 16)
        gsBase := user.kernelGsBase
        kernelGsBase := user.gsBase
        memory := savedMemory returnAddress user
        trace := user.trace ++ [user.kernelGsBase] } := by
  have zero : user.kernelGsBase + 0 = user.kernelGsBase := by simp
  have entered : run [.swapgs, .movToGs 8 .rsp, .movFromGs .rsp 0] user =
      { user with
        register := Function.update user.register .rsp (kernelStack user)
        gsBase := user.kernelGsBase
        kernelGsBase := user.gsBase
        memory := storeAt user.memory (user.kernelGsBase + 8) (user.register .rsp)
        trace := user.trace ++ [user.kernelGsBase] } := by
    simp only [run, List.foldl_cons, List.foldl_nil, exec, Cpu.set, zero]
    rw [stack.word_kept]
  have values : savedRegisters.map
      (Function.update user.register .rsp (kernelStack user)) = savedRegisters.map user.register := rfl
  have address : kernelStack user - bytes 15 - 8 = kernelStack user - bytes 16 := by
    rw [show bytes 16 = bytes 15 + 8 from rfl, sub_add_eq_sub_sub]
  unfold dispatchStart enterKernel savedMemory
  rw [run_append, entered, saveRegisters_eq, run_push _ _ (by decide), stacked_snoc]
  simp only [Cpu.calling, Cpu.set, Function.update_self, Function.update_idem, values]
  rw [show savedRegisters.length = 15 from rfl, List.length_map,
    show savedRegisters.length = 15 from rfl, address]

/-- Each saved register stands on the kernel stack when the dispatcher returns. -/
theorem saved_word {returnAddress : Word} {dispatch : Cpu → Cpu}
    (abi : FollowsAbi dispatch (dispatchStart returnAddress user) (kernelStack user))
    (index : Nat) (inside : index < savedRegisters.length) :
    wordAt (dispatch (dispatchStart returnAddress user)).memory
      (kernelStack user - bytes (index + 1)) = user.register savedRegisters[index] := by
  have room := stack.room
  have count : savedRegisters.length = 15 := rfl
  have address := toNat_sub_bytes (kernelStack user) (index + 1) (by omega)
  have start := dispatchStart_eq stack returnAddress
  have pointer : ((dispatchStart returnAddress user).register .rsp).toNat =
      (kernelStack user).toNat - 128 := by
    rw [start]
    simp only [Function.update_self]
    exact toNat_sub_bytes (kernelStack user) 16 (by omega)
  have memory : (dispatchStart returnAddress user).memory = savedMemory returnAddress user := by
    rw [start]
  have kept : wordAt (dispatch (dispatchStart returnAddress user)).memory
      (kernelStack user - bytes (index + 1)) =
      wordAt (savedMemory returnAddress user) (kernelStack user - bytes (index + 1)) := by
    apply wordAt_congr
    intro byte low high
    rw [abi.frame byte (by omega) (by omega), memory]
  rw [kept]
  unfold savedMemory
  rw [stacked_read _ _ _ (by simp [savedRegisters]) index (by simp [savedRegisters]; omega),
    List.getElem_append_left (by simpa using inside), List.getElem_map]

/-- The user's stack pointer stands at gs:8 when the dispatcher returns. -/
theorem saved_pointer {returnAddress : Word} {dispatch : Cpu → Cpu}
    (abi : FollowsAbi dispatch (dispatchStart returnAddress user) (kernelStack user)) :
    wordAt (dispatch (dispatchStart returnAddress user)).memory (user.kernelGsBase + 8) =
      user.register .rsp := by
  have room := stack.room
  have slot := stack.toNat_slot
  have apart := stack.apart
  have start := dispatchStart_eq stack returnAddress
  have base : (dispatchStart returnAddress user).gsBase = user.kernelGsBase := by rw [start]
  have memory : (dispatchStart returnAddress user).memory = savedMemory returnAddress user := by
    rw [start]
  rw [← wordAt_storeAt user.memory (user.kernelGsBase + 8) (user.register .rsp)]
  apply wordAt_congr
  intro byte low high
  rw [abi.area byte (by rw [base]; omega) (by rw [base]; omega), memory]
  unfold savedMemory
  refine stacked_outside _ _ _ (by simp [savedRegisters]; omega) byte ?_
  have length : (savedRegisters.map user.register ++ [returnAddress]).length = 16 := by
    simp [savedRegisters]
  omega

/-- The entry code restores every register that it saved, and the stack pointer. -/
theorem syscallEntry_restores {returnAddress : Word} {dispatch : Cpu → Cpu}
    (abi : FollowsAbi dispatch (dispatchStart returnAddress user) (kernelStack user))
    (register : Register) :
    (run (syscallEntry returnAddress dispatch) user).register register = user.register register := by
  have start := dispatchStart_eq stack returnAddress
  have pointer : (dispatch (dispatchStart returnAddress user)).register .rsp =
      kernelStack user - bytes savedRegisters.length := by
    rw [abi.stack, start]
    simp only [Function.update_self]
    rw [show bytes 16 = bytes 15 + 8 from rfl, sub_add_eq_sub_sub, sub_add_cancel]
    rfl
  obtain ⟨restored, _, memory, base, _⟩ := run_restore savedRegisters
    (dispatch (dispatchStart returnAddress user)) (by decide) (by decide) (kernelStack user)
    user.register pointer (saved_word stack abi)
  have whole : run (syscallEntry returnAddress dispatch) user =
      run [.movFromGs .rsp 8, .swapgs, .sysretq] (run (savedRegisters.reverse.map .pop)
        (dispatch (dispatchStart returnAddress user))) := by
    unfold syscallEntry leaveKernel
    rw [run_append, run_append, run_append, restoreRegisters_eq]
    rfl
  have gs : (dispatch (dispatchStart returnAddress user)).gsBase = user.kernelGsBase := by
    rw [abi.gsBase, start]
  rw [whole]
  generalize run (savedRegisters.reverse.map .pop) _ = popped at restored memory base ⊢
  simp only [run, List.foldl_cons, List.foldl_nil, exec, Cpu.set, memory, base, gs,
    saved_pointer stack abi]
  by_cases isStack : register = .rsp
  · simp [isStack]
  · rw [Function.update_of_ne isStack]
    apply restored
    cases register <;> first | decide | exact absurd rfl isStack

end Entry

/-- The entry code agrees with the dispatcher exactly when the user's RDI already points at the frame
and the dispatcher returns what RAX held. -/
theorem entryAgrees_iff (returnAddress : Word) (dispatch : Cpu → Cpu) (user : Cpu)
    (stack : KernelStack user)
    (abi : FollowsAbi dispatch (dispatchStart returnAddress user) (kernelStack user)) :
    EntryAgrees returnAddress dispatch user ↔
      SyscallFrame.at (savedMemory returnAddress user) (user.register .rdi) =
        ⟨(user.register .rax).toNat, (user.register .rdi).toNat, (user.register .rsi).toNat,
          (user.register .rdx).toNat, (user.register .r10).toNat, (user.register .r8).toNat,
          (user.register .r9).toNat⟩ ∧
      (dispatch (dispatchStart returnAddress user)).register .rax = user.register .rax := by
  have restored := syscallEntry_restores stack abi
  have start := dispatchStart_eq stack returnAddress
  have memory : (dispatchStart returnAddress user).memory = savedMemory returnAddress user := by
    rw [start]
  have argument : (dispatchStart returnAddress user).register .rdi = user.register .rdi := by
    rw [start]
    rfl
  constructor
  · intro agrees
    have frame := agrees.frame
    rw [memory, argument] at frame
    exact ⟨frame, agrees.result.symm.trans (restored .rax)⟩
  · rintro ⟨frame, result⟩
    refine ⟨?_, ?_, fun register _ => restored register⟩
    · rw [memory, argument]
      exact frame
    · rw [restored, result]

/-- A function that returns a value and does nothing else. -/
def returning (value : Word) (cpu : Cpu) : Cpu :=
  (cpu.set .rsp (cpu.register .rsp + 8)).set .rax value

/-- A dispatcher that only returns a value follows the ABI. -/
theorem followsAbi_returning (value : Word) (start : Cpu) (top : Word) :
    FollowsAbi (returning value) start top where
  stack := rfl
  saved := by
    intro register member
    simp only [List.mem_cons, List.not_mem_nil, or_false] at member
    rcases member with rfl | rfl | rfl | rfl | rfl | rfl <;> rfl
  gsBase := rfl
  kernelGsBase := rfl
  frame := fun _ _ _ => rfl
  area := fun _ _ _ => rfl

/-- A user who asks for call number one, on a kernel stack below 0x2000. -/
def firstCall : Cpu where
  register := Function.update (fun _ => 0) .rax 1
  rip := 0
  cs := 0x23
  rflags := 0x202
  ss := 0x1B
  gsBase := 0
  kernelGsBase := 0x1000
  memory := Memory.write ⟨fun _ => 0⟩ 0x1000 8 0x2000
  trace := []

/-- The first call has a kernel stack. -/
theorem kernelStack_firstCall : KernelStack firstCall := by
  have top : kernelStack firstCall = 0x2000 := by decide
  constructor
  · decide
  · rw [top]
    decide
  · rw [top]
    decide

/-- The first call with a dispatcher that returns seven. -/
theorem entryAgrees_iff_firstCall :
    KernelStack firstCall ∧
      FollowsAbi (returning 7) (dispatchStart 0x3000 firstCall) (kernelStack firstCall) ∧
      (EntryAgrees 0x3000 (returning 7) firstCall ↔
        SyscallFrame.at (savedMemory 0x3000 firstCall) (firstCall.register .rdi) =
          ⟨(firstCall.register .rax).toNat, (firstCall.register .rdi).toNat,
            (firstCall.register .rsi).toNat, (firstCall.register .rdx).toNat,
            (firstCall.register .r10).toNat, (firstCall.register .r8).toNat,
            (firstCall.register .r9).toNat⟩ ∧
        (returning 7 (dispatchStart 0x3000 firstCall)).register .rax = firstCall.register .rax) :=
  ⟨kernelStack_firstCall, followsAbi_returning 7 _ _,
    entryAgrees_iff 0x3000 (returning 7) firstCall kernelStack_firstCall (followsAbi_returning 7 _ _)⟩

/-- The user gets the call number back in place of the result. -/
theorem entryAgrees_fails :
    KernelStack firstCall ∧
      FollowsAbi (returning 7) (dispatchStart 0x3000 firstCall) (kernelStack firstCall) ∧
      ¬ EntryAgrees 0x3000 (returning 7) firstCall := by
  refine ⟨kernelStack_firstCall, followsAbi_returning 7 _ _, ?_⟩
  intro agrees
  have restored := syscallEntry_restores kernelStack_firstCall
    (followsAbi_returning 7 (dispatchStart 0x3000 firstCall) _) .rax
  have result : firstCall.register .rax = 7 := restored.symm.trans agrees.result
  exact absurd result (by decide)

end ArchaOS.Syscalls
