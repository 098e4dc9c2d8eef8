import ArchaOS.Library.ByteMemory
import ArchaOS.Library.Word64

/-
This file models the kernel heap of kernel/lib/kmalloc.c over a byte memory.
-/

namespace ArchaOS.KernelHeap

open Library

/-- `KMALLOC_STATE_FREE` -/
def stateFree : Nat := 0xA1A1A1A1

/-- `KMALLOC_STATE_USED` -/
def stateUsed : Nat := 0xBFBFBFBF

def kmallocAlignment : Nat := 16

def kmallocMinSplit : Nat := 32

def pageSize : Nat := 0x1000

/-- `sizeof(kmalloc_chunk_t)` -/
def headerSize : Nat := 32

/-- The four words of a `kmalloc_chunk_t`, named by their offsets. -/
inductive Field where
  | state
  | length
  | next
  | prev
  deriving DecidableEq, Repr

def Field.offset : Field → Nat
  | .state => 0
  | .length => 8
  | .next => 16
  | .prev => 24

/-- `chunk->field` -/
def get (memory : Memory) (chunk : Nat) (field : Field) : Nat :=
  memory.read (chunk + field.offset) 8

/-- `chunk->field = value` -/
def set (memory : Memory) (chunk : Nat) (field : Field) (value : Nat) : Memory :=
  memory.write (chunk + field.offset) 8 value

/-- The static variables of the heap, its memory and the next address that `vallocs` grants. -/
structure Heap where
  memory : Memory
  head : Nat
  heapStart : Nat
  heapEnd : Nat
  nextVirt : Nat

def alignUp (value alignment : Nat) : Nat :=
  add64 value (alignment - 1) &&& (2 ^ 64 - 1 - (alignment - 1))

def kmallocInit (heap : Heap) : Heap := { heap with head := 0, heapStart := 0, heapEnd := 0 }

def kmergeNext (memory : Memory) (chunk : Nat) : Memory :=
  if chunk = 0 then memory
  else if get memory chunk .state ≠ stateFree then memory
  else
    let next := get memory chunk .next
    if next = 0 then memory
    else if get memory next .state ≠ stateFree then memory
    else
      let memory := set memory chunk .length
        (add64 (get memory chunk .length) (get memory next .length))
      let memory := set memory chunk .next (get memory next .next)
      if get memory chunk .next ≠ 0 then set memory (get memory chunk .next) .prev chunk
      else memory

/-- `vallocs(true, pages)` as the heap sees it: it fails, or it grants zeroed pages right after
the last grant; it grants at least one page, and no page lies above the 64-bit address space. -/
def vallocs (granted : Bool) (pages : Nat) (heap : Heap) : Nat × Heap :=
  if granted ∧ pages ≠ 0 ∧ heap.nextVirt + pages * pageSize < 2 ^ 64 then
    (heap.nextVirt, { heap with
      memory := heap.memory.fill heap.nextVirt (pages * pageSize) 0
      nextVirt := heap.nextVirt + pages * pageSize })
  else (0, heap)

/-- A pointer chain without repetition visits fewer addresses than this, so a longer walk never
ends. -/
def walkBound : Nat := 2 ^ 64

/-- The loop of `kmalloc_grow` that finds the last chunk; `none` stands for a walk without end. -/
def lastChunk (memory : Memory) : Nat → Nat → Option Nat
  | 0, _ => none
  | bound + 1, last =>
      if get memory last .next ≠ 0 then lastChunk memory bound (get memory last .next)
      else some last

def kmallocGrow (size : Nat) (granted : Bool) (heap : Heap) : Option (Bool × Heap) :=
  let bytes := alignUp size pageSize
  let pages := bytes / pageSize
  let grant := vallocs granted pages heap
  let address := grant.1
  let heap := grant.2
  if address = 0 then some (false, heap)
  else if heap.head = 0 then
    let memory := set heap.memory address .state stateFree
    let memory := set memory address .length bytes
    let memory := set memory address .next 0
    let memory := set memory address .prev 0
    some (true, { heap with
      memory := memory, head := address, heapStart := address, heapEnd := add64 address bytes })
  else if address ≠ heap.heapEnd then some (false, heap)
  else
    (lastChunk heap.memory walkBound heap.head).map fun last =>
      let memory := set heap.memory address .state stateFree
      let memory := set memory address .length bytes
      let memory := set memory address .next 0
      let memory := set memory address .prev last
      let memory := set memory last .next address
      let memory :=
        if get memory last .state = stateFree then kmergeNext memory last else memory
      (true, { heap with memory := memory, heapEnd := add64 heap.heapEnd bytes })

def ksplit (memory : Memory) (chunk length : Nat) : Memory :=
  let newChunk := add64 chunk length
  let memory := set memory newChunk .state stateFree
  let memory := set memory newChunk .length (sub64 (get memory chunk .length) length)
  let memory := set memory newChunk .prev chunk
  let memory := set memory newChunk .next (get memory chunk .next)
  let memory :=
    if get memory chunk .next ≠ 0 then set memory (get memory chunk .next) .prev newChunk
    else memory
  let memory := set memory chunk .next newChunk
  set memory chunk .length length

/-- The first-fit loop of `kmalloc`; zero is the null pointer at the end of the list. -/
def findChunk (memory : Memory) (required : Nat) : Nat → Nat → Option Nat
  | 0, _ => none
  | bound + 1, chunk =>
      if chunk = 0 then some 0
      else if get memory chunk .state = stateFree ∧ get memory chunk .length ≥ required then
        some chunk
      else findChunk memory required bound (get memory chunk .next)

/-- The end of `kmalloc` splits the chosen chunk, marks it used and returns its payload. -/
def takeChunk (required chunk : Nat) (heap : Heap) : Nat × Heap :=
  let memory :=
    if get heap.memory chunk .length ≥ add64 (add64 required headerSize) kmallocMinSplit then
      ksplit heap.memory chunk required
    else heap.memory
  (add64 chunk headerSize, { heap with memory := set memory chunk .state stateUsed })

/-- The length of the chunk that a request needs. -/
def requiredLength (size : Nat) : Nat := add64 (alignUp size kmallocAlignment) headerSize

/-- The number of bytes by which a failed search grows the heap. -/
def growSize (required : Nat) : Nat :=
  if required < 16 * pageSize then 16 * pageSize else required

/-- `kmalloc`; `granted` is the answer of `vallocs` if the heap has to grow. -/
def kmalloc (size : Nat) (granted : Bool) (heap : Heap) : Option (Nat × Heap) :=
  if size = 0 then some (0, heap)
  else do
    let required := requiredLength size
    let chunk ← findChunk heap.memory required walkBound heap.head
    if chunk ≠ 0 then
      return takeChunk required chunk heap
    let (grown, heap) ← kmallocGrow (growSize required) granted heap
    if !grown then
      return (0, heap)
    let chunk ← findChunk heap.memory required walkBound heap.head
    if chunk = 0 then
      return (0, heap)
    return takeChunk required chunk heap

/-- `memset`; the pointer wraps around at the end of the address space. -/
def memset (memory : Memory) (ptr : Nat) (value : UInt8) : Nat → Memory
  | 0 => memory
  | n + 1 => memset (memory.fill ptr 1 value) (add64 ptr 1) value n

/-- `kcalloc`; the last part of the result is the number of bytes that `memset` writes from the
pointer on. -/
def kcalloc (numOfItems lenOfItems : Nat) (granted : Bool) (heap : Heap) : Option (Nat × Heap × Nat) :=
  if numOfItems = 0 ∨ lenOfItems = 0 then some (0, heap, 0)
  else do
    let size := signExtend32 (mul64 numOfItems lenOfItems)
    let (ptr, heap) ← kmalloc size granted heap
    return (ptr, { heap with memory := memset heap.memory ptr 0 size }, size)

def kfree (ptr : Nat) (heap : Heap) : Heap :=
  if ptr = 0 then heap
  else
    let chunk := sub64 ptr headerSize
    if get heap.memory chunk .state ≠ stateUsed then heap
    else
      let memory := set heap.memory chunk .state stateFree
      let memory :=
        if get memory chunk .prev ≠ 0 then kmergeNext memory (get memory chunk .prev) else memory
      { heap with memory := kmergeNext memory chunk }

end ArchaOS.KernelHeap
