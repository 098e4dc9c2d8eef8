import ArchaOS.Construction.KernelHeap
import ArchaOS.Construction.PassthruTables

/-
This file puts the kernel heap of kernel/lib/kmalloc.c on top of the virtual memory manager of
kernel/arch/x86_64/mm/vmm.c.
-/

namespace ArchaOS.GrowingHeap

open Library KernelHeap VirtualMemory

/-- The messages that the heap prints. -/
inductive Message where
  | vallocsFailed
  | nonContiguous (requested expected : Nat)
  | noChunkAfterGrow
  | invalidFree (ptr : Nat)
  deriving DecidableEq, Repr

/-- The static variables of kmalloc.c and of vmm.c, the memory that the heap lives in, and the printed
messages, the latest one first. -/
structure Kernel where
  memory : Memory
  head : Nat
  heapStart : Nat
  heapEnd : Nat
  vmm : Vmm
  printed : List Message

/-- The kernel as the heap sees it. -/
def Kernel.heap (kernel : Kernel) : Heap :=
  ⟨kernel.memory, kernel.head, kernel.heapStart, kernel.heapEnd, kernel.vmm.nextVirt⟩

/-- The heap has changed its own variables and memory. -/
def Kernel.withHeap (kernel : Kernel) (heap : Heap) : Kernel :=
  { kernel with
    memory := heap.memory, head := heap.head, heapStart := heap.heapStart, heapEnd := heap.heapEnd }

def Kernel.print (kernel : Kernel) (message : Message) : Kernel :=
  { kernel with printed := message :: kernel.printed }

def kmallocInit (kernel : Kernel) : Kernel := kernel.withHeap (KernelHeap.kmallocInit kernel.heap)

def kmallocGrow (size : Nat) (kernel : Kernel) : Except Stop (Bool × Kernel) := do
  let bytes := alignUp size KernelHeap.pageSize
  let pages := bytes / KernelHeap.pageSize
  let (address, vmm) ← Passthru.vallocs true pages kernel.vmm
  if address = 0 then
    return (false, { kernel with vmm := vmm }.print .vallocsFailed)
  else
    let memory := kernel.memory.fill address (pages * KernelHeap.pageSize) 0
    if kernel.head = 0 then
      let memory := set memory address .state stateFree
      let memory := set memory address .length bytes
      let memory := set memory address .next 0
      let memory := set memory address .prev 0
      return (true, { kernel with
        memory := memory, head := address, heapStart := address, heapEnd := add64 address bytes
        vmm := vmm })
    else if address ≠ kernel.heapEnd then
      let kernel := { kernel with memory := memory }.print (.nonContiguous address kernel.heapEnd)
      let vmm ← Passthru.vfrees address pages vmm
      return (false, { kernel with vmm := vmm })
    else
      match lastChunk memory walkBound kernel.head with
      | none => .error .endless
      | some last =>
          let memory := set memory address .state stateFree
          let memory := set memory address .length bytes
          let memory := set memory address .next 0
          let memory := set memory address .prev last
          let memory := set memory last .next address
          let memory :=
            if get memory last .state = stateFree then kmergeNext memory last else memory
          return (true, { kernel with
            memory := memory, heapEnd := add64 kernel.heapEnd bytes, vmm := vmm })

/-- The end of `kmalloc` -/
def takeChunk (required chunk : Nat) (kernel : Kernel) : Nat × Kernel :=
  let taken := KernelHeap.takeChunk required chunk kernel.heap
  (taken.1, kernel.withHeap taken.2)

def kmalloc (size : Nat) (kernel : Kernel) : Except Stop (Nat × Kernel) :=
  if size = 0 then .ok (0, kernel)
  else
    let required := requiredLength size
    match findChunk kernel.memory required walkBound kernel.head with
    | none => .error .endless
    | some chunk =>
        if chunk ≠ 0 then .ok (takeChunk required chunk kernel)
        else do
          let (grown, kernel) ← kmallocGrow (growSize required) kernel
          if !grown then
            return (0, kernel)
          else
            match findChunk kernel.memory required walkBound kernel.head with
            | none => .error .endless
            | some chunk =>
                if chunk = 0 then return (0, kernel.print .noChunkAfterGrow)
                else return takeChunk required chunk kernel

def kfree (ptr : Nat) (kernel : Kernel) : Kernel :=
  let freed := kernel.withHeap (KernelHeap.kfree ptr kernel.heap)
  if ptr ≠ 0 ∧ get kernel.memory (sub64 ptr headerSize) .state ≠ stateUsed then
    freed.print (.invalidFree ptr)
  else freed

/-- Calls of the heap, and what the rest of the kernel does between them: it writes to memory, and it
uses the physical pages and the page tables. -/
inductive Event where
  | kmalloc (size : Nat)
  | kfree (ptr : Nat)
  | elsewhere (memory : Memory) (pmm : PhysicalMemory.Pmm) (frames : Nat → Fin 512 → Nat) (cr3 : Nat)

/-- The kernel after an event, or the way in which it stopped. -/
def step : Except Stop Kernel → Event → Except Stop Kernel
  | .error stop, _ => .error stop
  | .ok kernel, .kmalloc size => (kmalloc size kernel).map Prod.snd
  | .ok kernel, .kfree ptr => .ok (kfree ptr kernel)
  | .ok kernel, .elsewhere memory pmm frames cr3 =>
      .ok { kernel with
        memory := memory
        vmm := { kernel.vmm with pmm := pmm, frames := frames, cr3 := cr3 } }

end ArchaOS.GrowingHeap
