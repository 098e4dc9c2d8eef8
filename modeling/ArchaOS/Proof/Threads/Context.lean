import ArchaOS.Construction.Threads
import ArchaOS.Library.Interrupts

namespace ArchaOS.Threads

open Library Processor

/-- The state in which `restore_context(ctx)` starts. -/
def restoreStart (cpu : Cpu) (ctx : Word) : Cpu := { cpu.set .rdi ctx with trace := [] }

/-- `restore_context` loads every field into its register and reads nothing else. -/
structure RestoreAgrees (cpu : Cpu) (ctx : Word) : Prop where
  general : ∀ field ∈ (Context.at cpu.memory ctx).general,
    (run restoreContext (restoreStart cpu ctx)).register field.1 = field.2
  rip : (run restoreContext (restoreStart cpu ctx)).rip = (Context.at cpu.memory ctx).rip
  cs : (run restoreContext (restoreStart cpu ctx)).cs = (Context.at cpu.memory ctx).cs
  rflags : (run restoreContext (restoreStart cpu ctx)).rflags = (Context.at cpu.memory ctx).rflags
  inside : ∀ address ∈ (run restoreContext (restoreStart cpu ctx)).trace,
    (address - ctx).toNat + 8 ≤ sizeofContext

/-- Restoring a new context continues at its entry point, on its own stack. -/
structure InitialAgrees (cpu : Cpu) (kernelStack stackSize entryPoint : Word) (cs : BitVec 8) :
    Prop where
  rip : (run restoreContext (restoreStart
      { cpu with memory := (initialContext kernelStack stackSize entryPoint cs cpu.memory).2 }
      (initialContext kernelStack stackSize entryPoint cs cpu.memory).1)).rip = entryPoint
  general : ∀ register, register ≠ .rsp → (run restoreContext (restoreStart
      { cpu with memory := (initialContext kernelStack stackSize entryPoint cs cpu.memory).2 }
      (initialContext kernelStack stackSize entryPoint cs cpu.memory).1)).register register = 0
  stack : ((run restoreContext (restoreStart
      { cpu with memory := (initialContext kernelStack stackSize entryPoint cs cpu.memory).2 }
      (initialContext kernelStack stackSize entryPoint cs cpu.memory).1)).register .rsp -
        kernelStack).toNat ≤ stackSize.toNat

/-- `grab_context` returns a context that holds the registers of its call, and restoring that context
later resumes the caller. -/
structure GrabAgrees (returnAddress : Word) (cpu later : Cpu) : Prop where
  rip : (run (grabContext returnAddress) cpu).rip = wordAt cpu.memory (cpu.register .rsp)
  stack : (run (grabContext returnAddress) cpu).register .rsp = cpu.register .rsp + 8
  general : ∀ field ∈ (Context.at (run (grabContext returnAddress) cpu).memory
      ((run (grabContext returnAddress) cpu).register .rax)).general,
    field.2 = cpu.register field.1
  resumed : ∀ register, register ≠ .rsp →
    (run restoreContext (restoreStart
      { later with memory := (run (grabContext returnAddress) cpu).memory }
      ((run (grabContext returnAddress) cpu).register .rax))).register register =
        cpu.register register

/-- The routines agree with `context_t` on one choice of registers, memory and stack. -/
structure ContextAgrees (cpu later : Cpu) (ctx kernelStack stackSize entryPoint : Word)
    (cs : BitVec 8) (returnAddress : Word) : Prop where
  restore : RestoreAgrees cpu ctx
  initial : InitialAgrees cpu kernelStack stackSize entryPoint cs
  grab : GrabAgrees returnAddress cpu later

/-- The registers in the order in which they are popped. -/
def contextRegisters : List Register :=
  [.r15, .r14, .r13, .r12, .r11, .r10, .r9, .r8, .rbp, .rdi, .rsi, .rdx, .rcx, .rbx, .rax]

/-- `restore_context` reads the eighteen words of the context and the two words behind it. -/
theorem restoreContext_eq (cpu : Cpu) (ctx : Word) :
    run restoreContext (restoreStart cpu ctx) =
      { cpu with
        register := fun register =>
          if register = .rsp then wordAt cpu.memory (ctx + bytes 15 + 24)
          else wordAt cpu.memory (ctx + bytes (contextRegisters.idxOf register))
        rip := wordAt cpu.memory (ctx + bytes 15)
        cs := wordAt cpu.memory (ctx + bytes 15 + 8)
        rflags := wordAt cpu.memory (ctx + bytes 15 + 16)
        ss := wordAt cpu.memory (ctx + bytes 15 + 32)
        trace := (List.range 15).map (fun index => ctx + bytes index) ++
          [ctx + bytes 15, ctx + bytes 15 + 8, ctx + bytes 15 + 16, ctx + bytes 15 + 24,
            ctx + bytes 15 + 32] } := by
  have pops : popContext = contextRegisters.map .pop := rfl
  have every : ∀ register, register ≠ .rsp → register ∈ contextRegisters := by
    intro register general
    cases register <;> first | decide | exact absurd rfl general
  unfold restoreContext
  rw [run_append, run_append, pops]
  have started : run [.mov .rsp .rdi] (restoreStart cpu ctx) =
      { (cpu.set .rdi ctx).set .rsp ctx with trace := [] } := rfl
  rw [started, run_pop _ _ (by decide) (by decide)]
  simp only [run, List.foldl_cons, List.foldl_nil, exec, Cpu.set, Function.update_self, if_true,
    List.nil_append, show contextRegisters.length = 15 from rfl]
  rw [Cpu.mk.injEq]
  simp only [and_true]
  funext register
  by_cases isStack : register = .rsp
  · simp [isStack]
  · simp [isStack, every register isStack]

/-- `restore_context` loads every field of the context into its register. -/
theorem restoreContext_loads (cpu : Cpu) (ctx : Word) :
    (∀ field ∈ (Context.at cpu.memory ctx).general,
      (run restoreContext (restoreStart cpu ctx)).register field.1 = field.2) ∧
    (run restoreContext (restoreStart cpu ctx)).rip = (Context.at cpu.memory ctx).rip ∧
    (run restoreContext (restoreStart cpu ctx)).cs = (Context.at cpu.memory ctx).cs ∧
    (run restoreContext (restoreStart cpu ctx)).rflags = (Context.at cpu.memory ctx).rflags := by
  rw [restoreContext_eq]
  have zero : ctx + bytes 0 = ctx := by simp [bytes]
  have last : bytes 15 = 120 := rfl
  refine ⟨?_, ?_, ?_, ?_⟩
  · intro field member
    simp only [Context.general, List.mem_cons, List.not_mem_nil, or_false] at member
    rcases member with rfl | rfl | rfl | rfl | rfl | rfl | rfl | rfl | rfl | rfl | rfl | rfl | rfl |
      rfl | rfl
    · exact congrArg (wordAt cpu.memory) zero
    all_goals rfl
  · change wordAt cpu.memory (ctx + bytes 15) = wordAt cpu.memory (ctx + 120)
    rw [last]
  · change wordAt cpu.memory (ctx + bytes 15 + 8) = wordAt cpu.memory (ctx + 128)
    rw [add_assoc]
    rfl
  · change wordAt cpu.memory (ctx + bytes 15 + 16) = wordAt cpu.memory (ctx + 136)
    rw [add_assoc]
    rfl

/-- `grab_context` brings back the caller's RAX and not a pointer to the saved context. -/
theorem grabContext_rax (returnAddress : Word) (cpu : Cpu) :
    (run (grabContext returnAddress) cpu).register .rax = cpu.register .rax := by
  have pushes : grabContext returnAddress = contextRegisters.reverse.map Instruction.push ++
      [Instruction.mov .rdi .rsp, Instruction.call returnAddress catchCurrentContext] ++
      contextRegisters.reverse.reverse.map Instruction.pop ++ [Instruction.iretq] := rfl
  have values : ∀ index (inside : index < contextRegisters.reverse.length),
      wordAt (stacked cpu.memory (cpu.register .rsp)
        (contextRegisters.reverse.map cpu.register ++ [returnAddress]))
        (cpu.register .rsp - bytes (index + 1)) = cpu.register contextRegisters.reverse[index] := by
    intro index inside
    have length : contextRegisters.reverse.length = 15 := rfl
    rw [stacked_read _ _ _ (by simp [contextRegisters]) index
      (by simp [contextRegisters] at inside ⊢; omega),
      List.getElem_append_left (by simpa using inside), List.getElem_map]
  rw [pushes, run_append, run_append, run_append, run_push _ _ (by decide)]
  obtain ⟨restored, _⟩ := run_restore contextRegisters.reverse
    (run [.mov .rdi .rsp, .call returnAddress catchCurrentContext]
      { cpu.set .rsp (cpu.register .rsp - bytes contextRegisters.reverse.length) with
        memory := stacked cpu.memory (cpu.register .rsp)
          (contextRegisters.reverse.map cpu.register) })
    (by decide) (by decide) (cpu.register .rsp) cpu.register
    (by simp [run, exec, Cpu.calling, catchCurrentContext, Cpu.set])
    (by
      intro index inside
      rw [← values index inside, stacked_snoc]
      rfl)
  exact restored .rax (by decide)

/-- On no input do the routines agree with `context_t`: every field goes to its register, but the
return from interrupt reads two words behind the context, and `grab_context` brings back the caller's RAX
and not a pointer to the saved context. -/
theorem contextAgrees_never (cpu later : Cpu) (ctx kernelStack stackSize entryPoint : Word)
    (cs : BitVec 8) (returnAddress : Word) :
    ¬ ContextAgrees cpu later ctx kernelStack stackSize entryPoint cs returnAddress ∧
      ((∀ field ∈ (Context.at cpu.memory ctx).general,
          (run restoreContext (restoreStart cpu ctx)).register field.1 = field.2) ∧
        (run restoreContext (restoreStart cpu ctx)).rip = (Context.at cpu.memory ctx).rip ∧
        (run restoreContext (restoreStart cpu ctx)).cs = (Context.at cpu.memory ctx).cs ∧
        (run restoreContext (restoreStart cpu ctx)).rflags = (Context.at cpu.memory ctx).rflags) ∧
      (run (grabContext returnAddress) cpu).register .rax = cpu.register .rax := by
  refine ⟨?_, restoreContext_loads cpu ctx, grabContext_rax returnAddress cpu⟩
  intro agrees
  have inside := agrees.restore.inside (ctx + bytes 15 + 24) (by rw [restoreContext_eq]; simp)
  have distance : ctx + bytes 15 + 24 - ctx = 144 := by
    rw [add_assoc, add_sub_cancel_left]
    rfl
  rw [distance] at inside
  exact absurd inside (by decide)

/-- A processor whose registers and memory are zero. -/
def zeroCpu : Cpu := ⟨fun _ => 0, 0, 0, 0, 0, 0, 0, ⟨fun _ => 0⟩, []⟩

/-- On a processor whose registers are zero the contexts disagree. -/
theorem contextAgrees_fails :
    ¬ ContextAgrees zeroCpu zeroCpu 0x8000 0x4000 0x4000 0x100000 8 0x100000 := by
  intro agrees
  have inside := agrees.restore.inside (0x8000 + bytes 15 + 24) (by rw [restoreContext_eq]; simp)
  exact absurd inside (by decide)

end ArchaOS.Threads
