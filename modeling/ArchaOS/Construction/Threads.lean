import ArchaOS.Library.Processor

/-
This file models the saved contexts of kernel/arch/x86_64/thread/thread.c and the routines of
kernel/arch/x86_64/thread/thread_s.s that save and restore them.
-/

namespace ArchaOS.Threads

open Library Processor

/-- `context_t` -/
structure Context where
  r15 : Word
  r14 : Word
  r13 : Word
  r12 : Word
  r11 : Word
  r10 : Word
  r9 : Word
  r8 : Word
  rbp : Word
  rdi : Word
  rsi : Word
  rdx : Word
  rcx : Word
  rbx : Word
  rax : Word
  rip : Word
  cs : Word
  rflags : Word

/-- `sizeof(context_t)` -/
def sizeofContext : Nat := 144

/-- The context that a pointer of type `context_t *` names. -/
def Context.at (memory : Memory) (ctx : Word) : Context where
  r15 := wordAt memory ctx
  r14 := wordAt memory (ctx + 8)
  r13 := wordAt memory (ctx + 16)
  r12 := wordAt memory (ctx + 24)
  r11 := wordAt memory (ctx + 32)
  r10 := wordAt memory (ctx + 40)
  r9 := wordAt memory (ctx + 48)
  r8 := wordAt memory (ctx + 56)
  rbp := wordAt memory (ctx + 64)
  rdi := wordAt memory (ctx + 72)
  rsi := wordAt memory (ctx + 80)
  rdx := wordAt memory (ctx + 88)
  rcx := wordAt memory (ctx + 96)
  rbx := wordAt memory (ctx + 104)
  rax := wordAt memory (ctx + 112)
  rip := wordAt memory (ctx + 120)
  cs := wordAt memory (ctx + 128)
  rflags := wordAt memory (ctx + 136)

/-- The fields of a context that carry the name of a general register. -/
def Context.general (context : Context) : List (Register × Word) :=
  [(.r15, context.r15), (.r14, context.r14), (.r13, context.r13), (.r12, context.r12),
    (.r11, context.r11), (.r10, context.r10), (.r9, context.r9), (.r8, context.r8),
    (.rbp, context.rbp), (.rdi, context.rdi), (.rsi, context.rsi), (.rdx, context.rdx),
    (.rcx, context.rcx), (.rbx, context.rbx), (.rax, context.rax)]

/-- The pops that `grab_context` and `restore_context` share. -/
def popContext : List Instruction :=
  [.pop .r15, .pop .r14, .pop .r13, .pop .r12, .pop .r11, .pop .r10, .pop .r9, .pop .r8, .pop .rbp,
    .pop .rdi, .pop .rsi, .pop .rdx, .pop .rcx, .pop .rbx, .pop .rax]

def catchCurrentContext (cpu : Cpu) : Cpu :=
  (cpu.set .rsp (cpu.register .rsp + 8)).set .rax (cpu.register .rdi)

/-- `grab_context`, with the address behind its call. -/
def grabContext (returnAddress : Word) : List Instruction :=
  [.push .rax, .push .rbx, .push .rcx, .push .rdx, .push .rsi, .push .rdi, .push .rbp, .push .r8,
    .push .r9, .push .r10, .push .r11, .push .r12, .push .r13, .push .r14, .push .r15,
    .mov .rdi .rsp, .call returnAddress catchCurrentContext] ++ popContext ++ [.iretq]

def restoreContext : List Instruction := [.mov .rsp .rdi] ++ popContext ++ [.iretq]

/-- `initial_context`; `cs` is the answer of `get_cs`. -/
def initialContext (kernelStack stackSize entryPoint : Word) (cs : BitVec 8) (memory : Memory) :
    Word × Memory :=
  let stackTop := (kernelStack + stackSize) &&& ~~~ 0xF
  let ctx := stackTop - BitVec.ofNat 64 sizeofContext
  let memory := memory.fill ctx.toNat sizeofContext 0
  let memory := storeAt memory (ctx + 120) entryPoint
  let memory := storeAt memory (ctx + 128) (cs.setWidth 64)
  let memory := storeAt memory (ctx + 136) 0x202
  (ctx, memory)

end ArchaOS.Threads
