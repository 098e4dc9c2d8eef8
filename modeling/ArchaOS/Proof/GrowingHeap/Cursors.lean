import ArchaOS.Construction.GrowingHeap
import ArchaOS.Library.Outcome
import ArchaOS.Proof.KernelHeap.Representation
import ArchaOS.Proof.VirtualMemory.Reach

namespace ArchaOS.GrowingHeap

open Library KernelHeap VirtualMemory

/-- The loop of `vallocs` leaves the cursor alone, whether or not it runs out of pages. -/
theorem vallocsFrom_nextVirt {vmm after : Vmm} {zero done : Bool} {start pml4 remaining i : Nat}
    (result : Passthru.vallocsFrom zero start pml4 remaining i vmm = .ok (done, after)) :
    after.nextVirt = vmm.nextVirt := by
  have kept : Passthru.Kept fun state => state.nextVirt = vmm.nextVirt :=
    ⟨fun _ _ _ _ => id, fun _ _ => id, fun _ => id⟩
  exact kept.vallocsFrom (fun _ _ => id) result rfl

/-- `vallocs` refuses and keeps the cursor, or grants the pages at the cursor and advances it. -/
theorem vallocs_cursor {vmm after : Vmm} {zero : Bool} {count address : Nat}
    (result : Passthru.vallocs zero count vmm = .ok (address, after)) :
    (address = 0 ∧ after.nextVirt = vmm.nextVirt) ∨
      (count ≠ 0 ∧ address = vmm.nextVirt ∧
        after.nextVirt = add64 vmm.nextVirt (mul64 count PhysicalMemory.pageSize)) := by
  unfold Passthru.vallocs at result
  split at result
  · cases result
    exact Or.inl ⟨rfl, rfl⟩
  · rename_i some
    obtain ⟨⟨done, middle⟩, looped, last⟩ := bind_eq_ok.mp result
    have kept := vallocsFrom_nextVirt looped
    cases done with
    | false =>
        cases last
        exact Or.inl ⟨rfl, kept⟩
    | true =>
        cases last
        dsimp only
        rw [kept]
        exact Or.inr ⟨some, rfl, rfl⟩

/-- `align_up` gives a whole number of pages. -/
theorem alignUp_pages (size : Nat) :
    alignUp size KernelHeap.pageSize / KernelHeap.pageSize * KernelHeap.pageSize =
        alignUp size KernelHeap.pageSize ∧
      mul64 (alignUp size KernelHeap.pageSize / KernelHeap.pageSize) PhysicalMemory.pageSize =
        alignUp size KernelHeap.pageSize := by
  have aligned : alignUp size KernelHeap.pageSize = add64 size 4095 / 4096 * 4096 :=
    alignUp_word size 12 (by decide)
  have word := add64_lt size 4095
  rw [aligned]
  unfold mul64 KernelHeap.pageSize PhysicalMemory.pageSize
  omega

/-- The two cursors agree once the heap is there, and the heap has never found them apart. -/
structure Together (kernel : Kernel) : Prop where
  positive : 0 < kernel.vmm.nextVirt
  contiguous : kernel.head ≠ 0 → kernel.heapEnd = kernel.vmm.nextVirt
  silent : ∀ requested expected, Message.nonContiguous requested expected ∉ kernel.printed

/-- The bytes by which the heap grows for a request. -/
def growthBytes (size : Nat) : Nat := alignUp (growSize (requiredLength size)) KernelHeap.pageSize

/-- A call that makes the heap grow does not wrap the cursor of `vallocs` around. -/
def Unwrapped : Except Stop Kernel → Event → Prop
  | .ok kernel, .kmalloc size =>
      findChunk kernel.memory (requiredLength size) walkBound kernel.head = some 0 →
        kernel.vmm.nextVirt + growthBytes size < 2 ^ 64
  | _, _ => True

/-- The first pages become one free chunk, and later ones follow the last chunk. -/
inductive Grown (kernel : Kernel) (bytes : Nat) (after : Kernel) : Prop where
  | first (empty : kernel.head = 0)
      (same : after = { kernel with
        memory :=
          let memory := kernel.memory.fill kernel.vmm.nextVirt bytes 0
          let memory := set memory kernel.vmm.nextVirt .state stateFree
          let memory := set memory kernel.vmm.nextVirt .length bytes
          let memory := set memory kernel.vmm.nextVirt .next 0
          set memory kernel.vmm.nextVirt .prev 0
        head := kernel.vmm.nextVirt
        heapStart := kernel.vmm.nextVirt
        heapEnd := kernel.vmm.nextVirt + bytes
        vmm := after.vmm })
  | later (last : Nat) (present : kernel.head ≠ 0)
      (found : lastChunk (kernel.memory.fill kernel.heapEnd bytes 0) walkBound kernel.head = some last)
      (same : after = { kernel with
        memory :=
          let memory := kernel.memory.fill kernel.heapEnd bytes 0
          let memory := set memory kernel.heapEnd .state stateFree
          let memory := set memory kernel.heapEnd .length bytes
          let memory := set memory kernel.heapEnd .next 0
          let memory := set memory kernel.heapEnd .prev last
          let memory := set memory last .next kernel.heapEnd
          if get memory last .state = stateFree then kmergeNext memory last else memory
        heapEnd := kernel.heapEnd + bytes
        vmm := after.vmm })

/-- While the cursors agree, `kmalloc_grow` fails with a refusal of `vallocs` alone. -/
theorem kmallocGrow_together {size : Nat} {kernel after : Kernel} {grown : Bool}
    (together : Together kernel)
    (room : kernel.vmm.nextVirt + alignUp size KernelHeap.pageSize < 2 ^ 64)
    (result : kmallocGrow size kernel = .ok (grown, after)) :
    (grown = false ∧ after = { kernel with vmm := after.vmm }.print .vallocsFailed ∧
      after.vmm.nextVirt = kernel.vmm.nextVirt) ∨
    (grown = true ∧ Grown kernel (alignUp size KernelHeap.pageSize) after ∧
      0 < alignUp size KernelHeap.pageSize ∧
      after.vmm.nextVirt = kernel.vmm.nextVirt + alignUp size KernelHeap.pageSize) := by
  obtain ⟨whole, product⟩ := alignUp_pages size
  unfold kmallocGrow at result
  obtain ⟨⟨address, vmm⟩, granted, rest⟩ := bind_eq_ok.mp result
  have positive := together.positive
  rcases vallocs_cursor granted with ⟨null, kept⟩ | ⟨pages, start, moved⟩
  · subst null
    dsimp only at rest
    rw [if_pos rfl] at rest
    cases rest
    exact Or.inl ⟨rfl, rfl, kept⟩
  · subst start
    rw [product, add64_eq room] at moved
    have some : 0 < alignUp size KernelHeap.pageSize := by
      rcases Nat.eq_zero_or_pos (alignUp size KernelHeap.pageSize) with none | some
      · exact absurd (by rw [none, Nat.zero_div]) pages
      · exact some
    dsimp only at rest
    rw [if_neg (by omega), whole] at rest
    right
    by_cases empty : kernel.head = 0
    · rw [if_pos empty, add64_eq room] at rest
      cases rest
      exact ⟨rfl, Grown.first empty rfl, some, moved⟩
    · have contiguous := together.contiguous empty
      rw [if_neg empty, ← contiguous, if_neg (fun apart => apart rfl), add64_eq (contiguous ▸ room)] at rest
      split at rest
      · cases rest
      · rename_i last found
        cases rest
        exact ⟨rfl, Grown.later last empty found rfl, some, moved⟩

/-- The ways in which `kmalloc` returns. -/
inductive Course (size : Nat) (kernel : Kernel) : Nat → Kernel → Prop where
  | nothing (none : size = 0) : Course size kernel 0 kernel
  | taken {chunk : Nat} (some : size ≠ 0) (present : chunk ≠ 0)
      (search : findChunk kernel.memory (requiredLength size) walkBound kernel.head = Option.some chunk) :
      Course size kernel (takeChunk (requiredLength size) chunk kernel).1
        (takeChunk (requiredLength size) chunk kernel).2
  | refused {middle : Kernel} (some : size ≠ 0)
      (search : findChunk kernel.memory (requiredLength size) walkBound kernel.head = Option.some 0)
      (grow : kmallocGrow (growSize (requiredLength size)) kernel = .ok (false, middle)) :
      Course size kernel 0 middle
  | missing {middle : Kernel} (some : size ≠ 0)
      (search : findChunk kernel.memory (requiredLength size) walkBound kernel.head = Option.some 0)
      (grow : kmallocGrow (growSize (requiredLength size)) kernel = .ok (true, middle))
      (again : findChunk middle.memory (requiredLength size) walkBound middle.head = Option.some 0) :
      Course size kernel 0 (middle.print .noChunkAfterGrow)
  | grown {middle : Kernel} {chunk : Nat} (some : size ≠ 0)
      (search : findChunk kernel.memory (requiredLength size) walkBound kernel.head = Option.some 0)
      (grow : kmallocGrow (growSize (requiredLength size)) kernel = .ok (true, middle))
      (present : chunk ≠ 0)
      (again : findChunk middle.memory (requiredLength size) walkBound middle.head = Option.some chunk) :
      Course size kernel (takeChunk (requiredLength size) chunk middle).1
        (takeChunk (requiredLength size) chunk middle).2

/-- `kmalloc` takes one of its courses. -/
theorem kmalloc_course {size pointer : Nat} {kernel after : Kernel}
    (result : kmalloc size kernel = .ok (pointer, after)) : Course size kernel pointer after := by
  unfold kmalloc at result
  by_cases nothing : size = 0
  · rw [if_pos nothing] at result
    cases result
    exact .nothing nothing
  · rw [if_neg nothing] at result
    dsimp only at result
    cases search : findChunk kernel.memory (requiredLength size) walkBound kernel.head with
    | none =>
        rw [search] at result
        cases result
    | some chunk =>
        rw [search] at result
        dsimp only at result
        by_cases absent : chunk = 0
        · subst absent
          rw [if_neg (fun other => other rfl)] at result
          obtain ⟨⟨grown, middle⟩, grow, rest⟩ := bind_eq_ok.mp result
          cases grown with
          | false =>
              cases rest
              exact .refused nothing search grow
          | true =>
              dsimp only [Bool.not_true] at rest
              rw [if_neg (by decide)] at rest
              cases again : findChunk middle.memory (requiredLength size) walkBound middle.head with
              | none =>
                  rw [again] at rest
                  cases rest
              | some found =>
                  rw [again] at rest
                  dsimp only at rest
                  by_cases absent : found = 0
                  · rw [if_pos absent] at rest
                    cases rest
                    exact .missing nothing search grow (absent ▸ again)
                  · rw [if_neg absent] at rest
                    cases rest
                    exact .grown nothing search grow absent again
        · rw [if_pos absent] at result
          cases result
          exact .taken nothing absent search

/-- `kmalloc_grow` over `vallocs` is the growth of the heap whose grants succeed as they do here. -/
theorem kmallocGrow_refines {size : Nat} {kernel after : Kernel} {grown : Bool}
    (together : Together kernel)
    (room : kernel.vmm.nextVirt + alignUp size KernelHeap.pageSize < 2 ^ 64)
    (result : kmallocGrow size kernel = .ok (grown, after)) :
    KernelHeap.kmallocGrow size grown kernel.heap = some (grown, after.heap) := by
  have positive := together.positive
  obtain ⟨whole, _⟩ := alignUp_pages size
  rcases kmallocGrow_together together room result with ⟨rfl, same, kept⟩ | ⟨rfl, change, some, moved⟩
  · have idle : after.heap = kernel.heap := by
      rw [same]
      change Heap.mk _ _ _ _ after.vmm.nextVirt = _
      rw [kept]
      rfl
    rw [idle]
    rfl
  · have granted : KernelHeap.vallocs true (alignUp size KernelHeap.pageSize / KernelHeap.pageSize)
        kernel.heap = (kernel.vmm.nextVirt, { kernel.heap with
          memory := kernel.memory.fill kernel.vmm.nextVirt (alignUp size KernelHeap.pageSize) 0
          nextVirt := kernel.vmm.nextVirt + alignUp size KernelHeap.pageSize }) := by
      have pages : alignUp size KernelHeap.pageSize / KernelHeap.pageSize ≠ 0 := by
        intro none
        rw [none, Nat.zero_mul] at whole
        omega
      unfold KernelHeap.vallocs
      rw [whole, if_pos ⟨rfl, pages, room⟩]
      rfl
    unfold KernelHeap.kmallocGrow
    dsimp only
    rw [granted]
    dsimp only
    rw [if_neg (by omega)]
    cases change with
    | first empty same =>
        have head : kernel.heap.head = 0 := empty
        rw [if_pos head, same, add64_eq room, ← moved]
        rfl
    | later last present found same =>
        have contiguous := together.contiguous present
        have head : kernel.heap.head ≠ 0 := present
        rw [if_neg head, ← contiguous, if_neg (fun apart => apart rfl), same]
        have walk : lastChunk (kernel.memory.fill kernel.heapEnd (alignUp size KernelHeap.pageSize) 0)
          walkBound kernel.heap.head = Option.some last := found
        rw [walk]
        have fits : kernel.heapEnd + alignUp size KernelHeap.pageSize < 2 ^ 64 := contiguous ▸ room
        have next : add64 kernel.heap.heapEnd (alignUp size KernelHeap.pageSize) =
            kernel.heapEnd + alignUp size KernelHeap.pageSize := add64_eq fits
        rw [Option.map_some, next]
        dsimp only [Kernel.heap]
        rw [moved, contiguous]

/-- `kfree` changes the memory only. -/
theorem kfree_memory (ptr : Nat) (heap : Heap) :
    ∃ memory, KernelHeap.kfree ptr heap = { heap with memory := memory } := by
  unfold KernelHeap.kfree
  dsimp only
  split
  · exact ⟨heap.memory, rfl⟩
  · split
    · exact ⟨heap.memory, rfl⟩
    · exact ⟨_, rfl⟩

/-- On the kernel `kfree` is `kfree` on the heap. -/
theorem kfree_heap (ptr : Nat) (kernel : Kernel) :
    (kfree ptr kernel).heap = KernelHeap.kfree ptr kernel.heap := by
  obtain ⟨memory, freed⟩ := kfree_memory ptr kernel.heap
  rw [freed]
  unfold kfree
  dsimp only
  rw [freed]
  split <;> rfl

/-- `kfree` leaves the page tables. -/
theorem kfree_vmm (ptr : Nat) (kernel : Kernel) : (kfree ptr kernel).vmm = kernel.vmm := by
  unfold kfree
  dsimp only
  split <;> rfl

/-- A growth moves both cursors by the same number of bytes. -/
theorem Grown.together {kernel after : Kernel} {bytes : Nat} (grown : Grown kernel bytes after)
    (together : Together kernel) (moved : after.vmm.nextVirt = kernel.vmm.nextVirt + bytes) :
    Together after ∧ after.printed = kernel.printed := by
  have positive := together.positive
  cases grown with
  | first empty same =>
      rw [same]
      refine ⟨⟨?_, fun _ => ?_, together.silent⟩, rfl⟩
      · dsimp only
        omega
      · exact moved.symm
  | later last present found same =>
      have contiguous := together.contiguous present
      rw [same]
      refine ⟨⟨?_, fun _ => ?_, together.silent⟩, rfl⟩
      · dsimp only
        omega
      · dsimp only
        omega

/-- The cursors do not depend on the memory. -/
theorem Together.memory {kernel : Kernel} (together : Together kernel) (memory : Memory) :
    Together { kernel with memory := memory } :=
  ⟨together.positive, together.contiguous, together.silent⟩

/-- A message that is no warning leaves the cursors together. -/
theorem Together.print {kernel : Kernel} {message : Message} (together : Together kernel)
    (other : ∀ requested expected, Message.nonContiguous requested expected ≠ message) :
    Together (kernel.print message) := by
  refine ⟨together.positive, together.contiguous, ?_⟩
  intro requested expected member
  rcases List.mem_cons.mp member with here | old
  · exact other requested expected here
  · exact together.silent requested expected old

/-- What a refused growth leaves. -/
theorem Together.refused {kernel middle : Kernel} (together : Together kernel)
    (same : middle = { kernel with vmm := middle.vmm }.print .vallocsFailed)
    (kept : middle.vmm.nextVirt = kernel.vmm.nextVirt) : Together middle := by
  have idle : Together { kernel with vmm := middle.vmm } := by
    refine ⟨?_, ?_, together.silent⟩
    · dsimp only
      rw [kept]
      exact together.positive
    · dsimp only
      rw [kept]
      exact together.contiguous
  rw [same]
  exact idle.print fun _ _ other => by cases other

/-- `kmalloc` keeps the cursors together. -/
theorem kmalloc_together {size pointer : Nat} {kernel after : Kernel} (together : Together kernel)
    (unwrapped : Unwrapped (.ok kernel) (.kmalloc size))
    (result : kmalloc size kernel = .ok (pointer, after)) : Together after := by
  cases kmalloc_course result with
  | nothing none => exact together
  | taken some present search => exact together.memory _
  | refused some search grow =>
      rcases kmallocGrow_together together (unwrapped search) grow with
        ⟨_, same, kept⟩ | ⟨impossible, _⟩
      · exact together.refused same kept
      · cases impossible
  | missing some search grow again =>
      rcases kmallocGrow_together together (unwrapped search) grow with
        ⟨impossible, _⟩ | ⟨_, change, _, moved⟩
      · cases impossible
      · exact (change.together together moved).1.print fun _ _ other => by cases other
  | grown some search grow present again =>
      rcases kmallocGrow_together together (unwrapped search) grow with
        ⟨impossible, _⟩ | ⟨_, change, _, moved⟩
      · cases impossible
      · exact (change.together together moved).1.memory _

/-- `kfree` keeps the cursors together. -/
theorem kfree_together {kernel : Kernel} (together : Together kernel) (ptr : Nat) :
    Together (kfree ptr kernel) := by
  obtain ⟨memory, freed⟩ := kfree_memory ptr kernel.heap
  unfold kfree
  dsimp only
  rw [freed]
  split
  · exact (together.memory memory).print fun _ _ other => by cases other
  · exact together.memory memory

/-- `kmalloc` over `vallocs` is `kmalloc` of the heap for the grants that happen here. -/
theorem kmalloc_refines {size pointer : Nat} {kernel after : Kernel} (together : Together kernel)
    (unwrapped : Unwrapped (.ok kernel) (.kmalloc size))
    (result : kmalloc size kernel = .ok (pointer, after)) :
    ∃ granted, KernelHeap.kmalloc size granted kernel.heap = some (pointer, after.heap) := by
  cases kmalloc_course result with
  | nothing none => exact ⟨false, if_pos none⟩
  | taken some present search =>
      have found : findChunk kernel.heap.memory (requiredLength size) walkBound kernel.heap.head = _ := search
      refine ⟨false, ?_⟩
      rw [KernelHeap.kmalloc, if_neg some]
      simp [found, present]
      rfl
  | refused some search grow =>
      have found : findChunk kernel.heap.memory (requiredLength size) walkBound kernel.heap.head = _ := search
      have grown := kmallocGrow_refines together (unwrapped search) grow
      refine ⟨false, ?_⟩
      rw [KernelHeap.kmalloc, if_neg some]
      simp [found, grown]
  | @missing middle some search grow again =>
      have found : findChunk kernel.heap.memory (requiredLength size) walkBound kernel.heap.head = _ := search
      have grown := kmallocGrow_refines together (unwrapped search) grow
      have missed : findChunk middle.heap.memory (requiredLength size) walkBound middle.heap.head = _ :=
        again
      refine ⟨true, ?_⟩
      rw [KernelHeap.kmalloc, if_neg some]
      simp [found, grown, missed]
      rfl
  | @grown middle chunk some search grow present again =>
      have found : findChunk kernel.heap.memory (requiredLength size) walkBound kernel.heap.head = _ := search
      have grown := kmallocGrow_refines together (unwrapped search) grow
      have located : findChunk middle.heap.memory (requiredLength size) walkBound middle.heap.head = _ :=
        again
      refine ⟨true, ?_⟩
      rw [KernelHeap.kmalloc, if_neg some]
      simp [found, grown, located, present]
      rfl

/-- A growth takes place when `vallocs` grants its pages and the heap can take them. -/
theorem kmallocGrow_granted {size : Nat} {kernel : Kernel} {vmm : Vmm} {heap : Heap}
    (together : Together kernel)
    (room : kernel.vmm.nextVirt + alignUp size KernelHeap.pageSize < 2 ^ 64)
    (granted : Passthru.vallocs true (alignUp size KernelHeap.pageSize / KernelHeap.pageSize)
      kernel.vmm = .ok (kernel.vmm.nextVirt, vmm))
    (served : KernelHeap.kmallocGrow size true kernel.heap = some (true, heap)) :
    ∃ middle, kmallocGrow size kernel = .ok (true, middle) ∧ middle.heap = heap ∧ middle.vmm = vmm := by
  have nonzero : kernel.vmm.nextVirt ≠ 0 := together.positive.ne'
  have returns : ∃ middle, kmallocGrow size kernel = .ok (true, middle) ∧ middle.vmm = vmm := by
    unfold kmallocGrow
    dsimp only
    rw [granted, ok_bind]
    dsimp only
    rw [if_neg nonzero]
    by_cases empty : kernel.head = 0
    · rw [if_pos empty]
      exact ⟨_, rfl, rfl⟩
    · have contiguous := together.contiguous empty
      rw [if_neg empty, if_neg (fun apart => apart contiguous.symm)]
      have walk : lastChunk (kernel.memory.fill kernel.vmm.nextVirt
          (alignUp size KernelHeap.pageSize / KernelHeap.pageSize * KernelHeap.pageSize) 0)
          walkBound kernel.head ≠ none := by
        intro endless
        have walk : lastChunk (kernel.heap.memory.fill kernel.heap.nextVirt
            (alignUp size KernelHeap.pageSize / KernelHeap.pageSize * KernelHeap.pageSize) 0)
            walkBound kernel.heap.head = none := endless
        unfold KernelHeap.kmallocGrow KernelHeap.vallocs at served
        dsimp only at served
        split at served
        · dsimp only at served
          have start : kernel.heap.nextVirt ≠ 0 := nonzero
          have present : kernel.heap.head ≠ 0 := empty
          have next : ¬ kernel.heap.nextVirt ≠ kernel.heap.heapEnd := fun apart => apart contiguous.symm
          rw [if_neg start, if_neg present, if_neg next, walk] at served
          cases served
        · cases served
      split
      · exact absurd ‹_› walk
      · exact ⟨_, rfl, rfl⟩
  obtain ⟨middle, grown, same⟩ := returns
  have refined := kmallocGrow_refines together room grown
  rw [served] at refined
  exact ⟨middle, grown, (Prod.mk.inj (Option.some.inj refined)).2.symm, same⟩

/-- A request that no chunk fits is served as the heap alone serves it when `vallocs` grants the
growth. -/
theorem kmalloc_granted {size pointer : Nat} {kernel : Kernel} {vmm : Vmm} {heap : Heap}
    (together : Together kernel) (room : kernel.vmm.nextVirt + growthBytes size < 2 ^ 64)
    (granted : Passthru.vallocs true (growthBytes size / KernelHeap.pageSize) kernel.vmm =
      .ok (kernel.vmm.nextVirt, vmm))
    (search : findChunk kernel.memory (requiredLength size) walkBound kernel.head = some 0)
    (served : KernelHeap.kmalloc size true kernel.heap = some (pointer, heap)) (nonnull : pointer ≠ 0) :
    ∃ after, kmalloc size kernel = .ok (pointer, after) ∧ after.heap = heap ∧ after.vmm = vmm := by
  have searched : findChunk kernel.heap.memory (requiredLength size) walkBound kernel.heap.head =
      some 0 := search
  unfold KernelHeap.kmalloc at served
  unfold kmalloc
  by_cases nothing : size = 0
  · rw [if_pos nothing] at served
    cases served
    exact absurd rfl nonnull
  · rw [if_neg nothing] at served ⊢
    dsimp only at served ⊢
    rw [searched, Option.bind_eq_bind, Option.bind_some, if_neg (fun other => other rfl)] at served
    rw [search]
    dsimp only
    rw [if_neg (fun other => other rfl)]
    obtain ⟨⟨grown, middle⟩, grow, rest⟩ := Option.bind_eq_some_iff.mp served
    cases grown with
    | false =>
        cases rest
        exact absurd rfl nonnull
    | true =>
        obtain ⟨state, growth, same, moved⟩ := kmallocGrow_granted together room granted grow
        obtain ⟨chunk, again, rest⟩ := Option.bind_eq_some_iff.mp rest
        rw [← same] at again rest
        have located : findChunk state.memory (requiredLength size) walkBound state.head = some chunk :=
          again
        rw [growth, ok_bind]
        dsimp only
        rw [if_neg (show ¬ (!true) = true by decide), located]
        dsimp only
        by_cases missing : chunk = 0
        · rw [if_pos missing] at rest
          cases rest
          exact absurd rfl nonnull
        · rw [if_neg missing] at rest ⊢
          cases rest
          exact ⟨_, rfl, rfl, moved⟩

/-- The state of the run: the kernel stopped, or its cursors agree. -/
def StaysTogether (state : Except Stop Kernel) : Prop := ∀ kernel, state = .ok kernel → Together kernel

/-- One call keeps the cursors together. -/
theorem together_step (state : Except Stop Kernel) (event : Event) (together : StaysTogether state)
    (unwrapped : Unwrapped state event) : StaysTogether (step state event) := by
  intro after result
  cases state with
  | error stop => cases result
  | ok kernel =>
      have agreed := together kernel rfl
      cases event with
      | kmalloc size =>
          cases value : kmalloc size kernel with
          | error stop => simp [step, value, Except.map] at result
          | ok returned =>
              simp only [step, value, Except.map, Except.ok.injEq] at result
              subst result
              exact kmalloc_together agreed unwrapped value
      | kfree ptr =>
          cases result
          exact kfree_together agreed ptr
      | elsewhere memory pmm frames cr3 =>
          cases result
          exact ⟨agreed.positive, agreed.contiguous, agreed.silent⟩

/-- The chunks that the head reaches cover the heap without a gap, each with its header. -/
def Tiled (kernel : Kernel) : Prop :=
  ∃ chunks, Reaches kernel.memory kernel.head chunks ∧
    Tiling id (fun chunk => get kernel.memory chunk .length) kernel.heapStart chunks kernel.heapEnd ∧
    ∀ chunk ∈ chunks, headerSize ≤ get kernel.memory chunk .length

/-- A search that fails has passed every chunk. -/
theorem findChunk_none {memory : Memory} {required bound first : Nat} {chunks : List Nat}
    (reaches : Reaches memory first chunks) (none : findChunk memory required bound first = some 0) :
    ∀ chunk ∈ chunks, ¬ (get memory chunk .state = stateFree ∧ required ≤ get memory chunk .length) := by
  induction chunks generalizing first bound with
  | nil => simp
  | cons chunk rest ih =>
      obtain ⟨rfl, present, later⟩ := reaches
      cases bound with
      | zero => cases none
      | succ bound =>
          rw [findChunk, if_neg present] at none
          split at none
          · exact absurd (Option.some.inj none) present
          · rename_i small
            intro other member
            rcases List.mem_cons.mp member with here | old
            · rw [here]
              exact small
            · exact ih later none other old

/-- The walk to the last chunk ends at the last chunk that it reaches. -/
theorem lastChunk_reaches {memory : Memory} {bound first last found : Nat} {before : List Nat}
    (reaches : Reaches memory first (before ++ [last]))
    (walk : lastChunk memory bound first = some found) : found = last := by
  induction before generalizing first bound with
  | nil =>
      obtain ⟨rfl, _, done⟩ := reaches
      cases bound with
      | zero => cases walk
      | succ bound =>
          rw [lastChunk, if_neg (fun more => more done)] at walk
          exact (Option.some.inj walk).symm
  | cons chunk rest ih =>
      obtain ⟨rfl, _, later⟩ := reaches
      cases bound with
      | zero => cases walk
      | succ bound =>
          have more : get memory first .next ≠ 0 := by
            cases rest with
            | nil => exact later.1 ▸ later.2.1
            | cons other others => exact later.1 ▸ later.2.1
          rw [lastChunk, if_pos more] at walk
          exact ih later walk

/-- A list whose last link is redirected continues with what the new link reaches. -/
theorem reaches_redirect {first second : Memory} {start last : Nat} {before rest : List Nat}
    (reaches : Reaches first start (before ++ [last]))
    (same : ∀ chunk ∈ before, get second chunk .next = get first chunk .next)
    (continued : Reaches second (get second last .next) rest) :
    Reaches second start (before ++ last :: rest) := by
  induction before generalizing start with
  | nil => exact ⟨reaches.1, reaches.2.1, continued⟩
  | cons chunk others ih =>
      refine ⟨reaches.1, reaches.2.1, ?_⟩
      rw [same chunk (by simp)]
      exact ih reaches.2.2 fun other member => same other (by simp [member])

/-- The chunks are reached in every memory that keeps their links. -/
theorem reaches_frame {first second : Memory} {start : Nat} {chunks : List Nat}
    (reaches : Reaches first start chunks)
    (same : ∀ chunk ∈ chunks, get second chunk .next = get first chunk .next) :
    Reaches second start chunks := by
  induction chunks generalizing start with
  | nil => exact reaches
  | cons chunk rest ih =>
      refine ⟨reaches.1, reaches.2.1, ?_⟩
      rw [same chunk (by simp)]
      exact ih reaches.2.2 fun other member => same other (by simp [member])

/-- No chunk that is reached lies at address zero. -/
theorem reaches_nonzero {memory : Memory} {start : Nat} {chunks : List Nat}
    (reaches : Reaches memory start chunks) : ∀ chunk ∈ chunks, chunk ≠ 0 := by
  induction chunks generalizing start with
  | nil => simp
  | cons chunk rest ih => exact List.forall_mem_cons.mpr ⟨reaches.2.1, ih reaches.2.2⟩

/-- The header that `kmalloc_grow` writes into the new pages. -/
theorem newChunk_header {memory : Memory} {address bytes last : Nat} (fits : bytes < 2 ^ 64)
    (lastFits : last < 2 ^ 64) :
    HeaderAt (set (set (set (set memory address .state stateFree) address .length bytes)
      address .next 0) address .prev last) ⟨address, bytes, true⟩ last 0 where
  state := by
    rw [get_set_field (by decide), get_set_field (by decide), get_set_field (by decide)]
    exact get_set_same (by decide)
  length := by
    rw [get_set_field (by decide), get_set_field (by decide)]
    exact get_set_same fits
  next := by
    rw [get_set_field (by decide)]
    exact get_set_same (by decide)
  prev := get_set_same lastFits

/-- The list has a chunk for a request of so many bytes. -/
def HasRoom (memory : Memory) (head bytes : Nat) : Prop :=
  ∃ chunks, Reaches memory head chunks ∧
    ∃ chunk ∈ chunks, get memory chunk .state = stateFree ∧ bytes ≤ get memory chunk .length

/-- Linking a free chunk behind the last one makes room, also when the last one absorbs it. -/
theorem appended_room {old memory : Memory} {head last stop bytes : Nat} {before : List Nat}
    (reaches : Reaches old head (before ++ [last]))
    (kept : ∀ chunk ∈ before ++ [last], ∀ field, get memory chunk field = get old chunk field)
    (header : HeaderAt memory ⟨stop, bytes, true⟩ last 0)
    (low : ∀ chunk ∈ before, chunk + headerSize ≤ last) (apart : last + headerSize ≤ stop)
    (positive : 0 < last) (fits : get old last .length + bytes < 2 ^ 64) (stopFits : stop < 2 ^ 64) :
    HasRoom (if get (set memory last .next stop) last .state = stateFree then
      kmergeNext (set memory last .next stop) last else set memory last .next stop) head bytes := by
  have linked : HeaderAt (set memory last .next stop) ⟨stop, bytes, true⟩ last 0 :=
    header.congr fun field => get_set_apart (Or.inr apart)
  have next : get (set memory last .next stop) last .next = stop := get_set_same stopFits
  have untouched (chunk : Nat) (member : chunk ∈ before) :
      get (set memory last .next stop) chunk .next = get old chunk .next := by
    rw [get_set_apart (Or.inl (low chunk member))]
    exact kept chunk (by simp [member]) .next
  split
  · rename_i free
    have length : get (set memory last .next stop) last .length = get old last .length := by
      rw [get_set_field (by decide)]
      exact kept last (by simp) .length
    have lastHeader : HeaderAt (set memory last .next stop) ⟨last, get old last .length, true⟩
        (get (set memory last .next stop) last .prev) stop :=
      ⟨free.trans ((Chunk.state_free_iff _).mpr rfl).symm, length, next, rfl⟩
    have total : (⟨last, get old last .length, true⟩ : Chunk).length +
        (⟨stop, bytes, true⟩ : Chunk).length < 2 ^ 64 := fits
    have merged := kmergeNext_eq lastHeader linked rfl rfl positive apart total (Nat.two_pow_pos 64)
    rw [relink, if_neg (fun other => other rfl)] at merged
    rw [merged]
    refine ⟨before ++ [last], ?_, last, by simp, ?_, ?_⟩
    · apply reaches_redirect reaches
      · intro chunk member
        rw [get_set_apart (Or.inl (low chunk member)), get_set_apart (Or.inl (low chunk member))]
        exact untouched chunk member
      · rw [get_set_same (by decide)]
        rfl
    · rw [get_set_field (by decide), get_set_field (by decide)]
      exact free
    · rw [get_set_field (by decide), get_set_same fits]
      exact Nat.le_add_left _ _
  · refine ⟨before ++ last :: [stop], ?_, stop, by simp,
      linked.state.trans ((Chunk.state_free_iff _).mpr rfl), ?_⟩
    · apply reaches_redirect reaches untouched
      rw [next]
      refine ⟨rfl, by omega, ?_⟩
      exact linked.next
    · exact Nat.le_of_eq linked.length.symm

/-- After a growth of a tiled heap the list has room for the bytes that were asked for. -/
theorem Grown.room {kernel after : Kernel} {bytes : Nat} (grown : Grown kernel bytes after)
    (together : Together kernel) (tiled : Tiled kernel) (whole : bytes % 4096 = 0) (some : 0 < bytes)
    (fits : kernel.vmm.nextVirt + bytes < 2 ^ 64) : HasRoom after.memory after.head bytes := by
  have size : headerSize = 32 := rfl
  cases grown with
  | first empty same =>
      rw [same]
      have shape := firstGrowth_shape (kernel.memory.fill kernel.vmm.nextVirt bytes 0) together.positive
        fits (by omega) (by omega)
      dsimp only at shape ⊢
      generalize set (set (set (set (kernel.memory.fill kernel.vmm.nextVirt bytes 0)
        kernel.vmm.nextVirt .state stateFree) kernel.vmm.nextVirt .length bytes)
        kernel.vmm.nextVirt .next 0) kernel.vmm.nextVirt .prev 0 = memory at shape ⊢
      have header := shape.links.1
      exact ⟨[kernel.vmm.nextVirt], shape.reaches, kernel.vmm.nextVirt, List.mem_singleton.mpr rfl,
        header.state.trans ((Chunk.state_free_iff _).mpr rfl), Nat.le_of_eq header.length.symm⟩
  | later last present found same =>
      obtain ⟨chunks, reaches, tiles, headers⟩ := tiled
      rcases chunks.eq_nil_or_concat with rfl | ⟨before, other, rfl⟩
      · exact absurd reaches present
      · rw [List.concat_eq_append] at reaches tiles headers
        have contiguous := together.contiguous present
        have inside (chunk : Nat) (member : chunk ∈ before ++ [other]) :
            chunk + headerSize ≤ kernel.heapEnd := by
          have low := ((tiling_bounds tiles).2 chunk member).2
          have room := headers chunk member
          dsimp only [id] at low
          omega
        have filled (chunk : Nat) (member : chunk ∈ before ++ [other]) (field : Field) :
            get (kernel.memory.fill kernel.heapEnd bytes 0) chunk field = get kernel.memory chunk field :=
          get_fill_apart (inside chunk member)
        obtain rfl : last = other :=
          lastChunk_reaches (reaches_frame reaches fun chunk member => filled chunk member .next) found
        obtain ⟨left, right⟩ := (tiling_split _ _ _ _ _).mp tiles
        have lengths : last + get kernel.memory last .length = kernel.heapEnd := right
        have low (chunk : Nat) (member : chunk ∈ before) : chunk + headerSize ≤ last := by
          have below := ((tiling_bounds left).2 chunk member).2
          have room := headers chunk (by simp [member])
          dsimp only [id] at below
          omega
        have apart := inside last (by simp)
        have present := reaches_nonzero reaches last (by simp)
        let memory := set (set (set (set (kernel.memory.fill kernel.heapEnd bytes 0)
          kernel.heapEnd .state stateFree) kernel.heapEnd .length bytes) kernel.heapEnd .next 0)
          kernel.heapEnd .prev last
        have header : HeaderAt memory ⟨kernel.heapEnd, bytes, true⟩ last 0 :=
          newChunk_header (by omega) (by omega)
        have kept (chunk : Nat) (member : chunk ∈ before ++ [last]) (field : Field) :
            get memory chunk field = get kernel.memory chunk field := by
          have away := inside chunk member
          rw [get_set_apart (Or.inl away), get_set_apart (Or.inl away), get_set_apart (Or.inl away),
            get_set_apart (Or.inl away)]
          exact filled chunk member field
        have room := appended_room reaches kept header low apart (by omega) (by omega) (by omega)
        rw [same]
        dsimp only
        exact room

/-- A growth that took place covers the request. -/
theorem growthBytes_covers {size : Nat} (some : 0 < growthBytes size) :
    requiredLength size ≤ growthBytes size ∧ growthBytes size % 4096 = 0 := by
  have whole := (alignUp_pages (growSize (requiredLength size))).1
  refine ⟨?_, ?_⟩
  · rcases Nat.lt_or_ge (growSize (requiredLength size) + 4095) (2 ^ 64) with fits | wraps
    · exact (growBytes_spec fits).2.2.1
    · have none := growBytes_wraps (requiredLength_lt size) wraps
      unfold growthBytes at some
      omega
  · unfold growthBytes KernelHeap.pageSize at *
    omega

/-- On a tiled heap the search after a growth finds a chunk: the messages that a call adds do not
report that it found none. -/
theorem kmalloc_finds {size pointer : Nat} {kernel after : Kernel} (together : Together kernel)
    (tiled : Tiled kernel) (unwrapped : Unwrapped (.ok kernel) (.kmalloc size))
    (result : kmalloc size kernel = .ok (pointer, after)) :
    ∃ messages, after.printed = messages ++ kernel.printed ∧ Message.noChunkAfterGrow ∉ messages := by
  have quiet : Message.noChunkAfterGrow ∉ ([] : List Message) := by simp
  cases kmalloc_course result with
  | nothing none => exact ⟨[], rfl, quiet⟩
  | taken some present search => exact ⟨[], rfl, quiet⟩
  | refused some search grow =>
      rcases kmallocGrow_together together (unwrapped search) grow with
        ⟨_, same, _⟩ | ⟨impossible, _⟩
      · exact ⟨[.vallocsFailed], by rw [same]; rfl, by simp⟩
      · cases impossible
  | missing some search grow again =>
      rcases kmallocGrow_together together (unwrapped search) grow with
        ⟨impossible, _⟩ | ⟨_, change, positive, _⟩
      · cases impossible
      · obtain ⟨covers, whole⟩ := growthBytes_covers positive
        obtain ⟨chunks, reaches, chunk, member, free, long⟩ :=
          change.room together tiled whole positive (unwrapped search)
        exact absurd ⟨free, covers.trans long⟩ (findChunk_none reaches again chunk member)
  | grown some search grow present again =>
      rcases kmallocGrow_together together (unwrapped search) grow with
        ⟨impossible, _⟩ | ⟨_, change, _, moved⟩
      · cases impossible
      · exact ⟨[], (change.together together moved).2, quiet⟩

/-- From the start of the heap on its end follows the cursor of `vallocs`, which therefore never
returns memory apart from the heap, and a growth of a tiled heap always serves the request. -/
theorem cursors_together (kernel : Kernel) (start : kernel.vmm.nextVirt = kheapBase)
    (quiet : kernel.printed = []) (events : List Event)
    (unwrapped : Guarded step Unwrapped (.ok (kmallocInit kernel)) events) :
    ∀ reached ∈ visited step (.ok (kmallocInit kernel)) events, ∀ after, reached = .ok after →
      (after.head ≠ 0 → after.heapEnd = after.vmm.nextVirt) ∧
      (∀ requested expected, Message.nonContiguous requested expected ∉ after.printed) ∧
      ∀ size pointer last, Tiled after → Unwrapped (.ok after) (.kmalloc size) →
        kmalloc size after = .ok (pointer, last) →
        ∃ messages, last.printed = messages ++ after.printed ∧
          Message.noChunkAfterGrow ∉ messages := by
  have initial : StaysTogether (.ok (kmallocInit kernel)) := by
    intro first same
    cases same
    refine ⟨?_, fun present => absurd rfl present, ?_⟩
    · change 0 < kernel.vmm.nextVirt
      rw [start]
      decide
    · intro requested expected member
      change _ ∈ kernel.printed at member
      rw [quiet] at member
      cases member
  intro reached member after same
  have together := visited_invariant together_step initial unwrapped reached member after same
  exact ⟨together.contiguous, together.silent, fun size pointer last tiled room result =>
    kmalloc_finds together tiled room result⟩

/-- A kernel before its first allocation. -/
def freshKernel (vmm : Vmm) : Kernel := ⟨⟨fun _ => 0⟩, 0, 0, 0, vmm, []⟩

/-- A heap before its first allocation, at the start of its window. -/
def freshHeap : Heap := ⟨⟨fun _ => 0⟩, 0, 0, 0, kheapBase⟩

/-- A first request and a longer one: the heap grows twice, at its start and behind its last chunk. -/
theorem freshHeap_serves : ∃ first second, KernelHeap.kmalloc 100 true freshHeap =
      some (kheapBase + 32, first) ∧ first.nextVirt = kheapBase + growthBytes 100 ∧
    findChunk first.memory (requiredLength 70000) walkBound first.head = some 0 ∧
    KernelHeap.kmalloc 70000 true first = some (kheapBase + 176, second) ∧
    second.head ≠ 0 ∧ second.heapEnd = kheapBase + 34 * KernelHeap.pageSize ∧
    ¬ BetweenFree (second.memory.fill (kheapBase + 40) 1 7) kheapBase := by
  have shown : (KernelHeap.kmalloc 100 true freshHeap).any (fun one =>
      decide (one.1 = kheapBase + 32 ∧ one.2.nextVirt = kheapBase + growthBytes 100 ∧
        findChunk one.2.memory (requiredLength 70000) walkBound one.2.head = some 0) &&
      (KernelHeap.kmalloc 70000 true one.2).any (fun two => decide (two.1 = kheapBase + 176 ∧
        two.2.head ≠ 0 ∧ two.2.heapEnd = kheapBase + 34 * KernelHeap.pageSize ∧
        ¬ BetweenFree (two.2.memory.fill (kheapBase + 40) 1 7) kheapBase))) = true := by
    decide +kernel
  obtain ⟨⟨pointer, first⟩, one, rest⟩ := (Option.any_eq_true _ _).mp shown
  obtain ⟨here, later⟩ := Bool.and_eq_true_iff.mp rest
  obtain ⟨⟨pointer', second⟩, two, last⟩ := (Option.any_eq_true _ _).mp later
  obtain ⟨rfl, moved, search⟩ := of_decide_eq_true here
  obtain ⟨rfl, present, stop⟩ := of_decide_eq_true last
  exact ⟨first, second, one, moved, search, two, present, stop⟩

/-- One gigabyte of memory serves the two requests. -/
theorem oneGigabyte_serves {first : Vmm} (result : initMemory oneGigabyte.toMachine (fun _ => 0#8)
      (fun _ _ => 0) 0 PhysicalMemory.blankPmm = .ok first) {one two : Heap}
    (served : KernelHeap.kmalloc 100 true freshHeap = some (kheapBase + 32, one))
    (supplied : Supplied (18 + 16 + 3) first.pmm)
    (moved : one.nextVirt = kheapBase + growthBytes 100)
    (search : findChunk one.memory (requiredLength 70000) walkBound one.head = some 0)
    (served' : KernelHeap.kmalloc 70000 true one = some (kheapBase + 176, two)) :
    ∃ middle last, kmalloc 100 (kmallocInit (freshKernel first)) = .ok (kheapBase + 32, middle) ∧
      middle.heap = one ∧ kmalloc 70000 middle = .ok (kheapBase + 176, last) ∧ last.heap = two := by
  obtain ⟨pml4, _, _, _, _, _, _, _, booted⟩ :=
    initMemory_spec (show initMemory oneGigabyte.toLoadedMachine.toMachine _ _ _ _ = _ from result)
  have start := booted.nextVirt
  have fresh : (kmallocInit (freshKernel first)).heap = freshHeap := by
    change Heap.mk _ _ _ _ first.nextVirt = freshHeap
    rw [start]
    rfl
  have together : Together (kmallocInit (freshKernel first)) := by
    refine ⟨?_, fun present => absurd rfl present, fun _ _ member => by cases member⟩
    change 0 < first.nextVirt
    rw [start]
    decide
  have room : Unwrapped (.ok (kmallocInit (freshKernel first))) (.kmalloc 100) := by
    intro _
    change first.nextVirt + growthBytes 100 < 2 ^ 64
    rw [start]
    decide
  obtain ⟨vmm, granted, standing, covered, stocked⟩ := booted.invariant.toStanding.passthruGrants booted
    (oneGigabyte_apart.covered result) true (show 16 ≠ 0 by decide) (by decide) (booted.stocked supplied)
  obtain ⟨middle, answer, same, grown⟩ :=
    kmalloc_granted together (room rfl) granted rfl (fresh.symm ▸ served) (by decide)
  have here : middle.vmm.nextVirt = kheapBase + growthBytes 100 := by
    rw [← moved, ← same]
    rfl
  have stocked' : Stocked (regionPaths {2 ^ 27 - 2 ^ 12}) (0 + 18) pml4 vmm := stocked
  obtain ⟨vmm', granted', _⟩ := standing.passthruGrants booted covered true (show 18 ≠ 0 by decide)
    (by decide) stocked'
  have room' : middle.vmm.nextVirt + growthBytes 70000 < 2 ^ 64 := by
    rw [here]
    decide
  rw [← same] at search served'
  rw [← grown] at granted'
  obtain ⟨last, answer', same', _⟩ := kmalloc_granted (kmalloc_together together room answer) room'
    granted' search served' (by decide)
  exact ⟨middle, last, answer, same, answer', same'⟩

/-- On one gigabyte of memory two growths and a free keep the cursors together. -/
theorem cursors_together_oneGigabyte :
    ∃ first, initMemory oneGigabyte.toMachine (fun _ => 0#8) (fun _ _ => 0) 0
        PhysicalMemory.blankPmm = .ok first ∧
      first.nextVirt = kheapBase ∧
      Guarded step Unwrapped (.ok (kmallocInit (freshKernel first)))
        [.kmalloc 100, .kmalloc 70000, .kfree (kheapBase + 32)] ∧
      (∃ last, [Event.kmalloc 100, .kmalloc 70000, .kfree (kheapBase + 32)].foldl step
          (.ok (kmallocInit (freshKernel first))) = .ok last ∧
        last.head ≠ 0 ∧ last.heapEnd = kheapBase + 34 * KernelHeap.pageSize) ∧
      ∀ reached ∈ visited step (.ok (kmallocInit (freshKernel first)))
          [.kmalloc 100, .kmalloc 70000, .kfree (kheapBase + 32)], ∀ after,
        reached = .ok after →
        (after.head ≠ 0 → after.heapEnd = after.vmm.nextVirt) ∧
        (∀ requested expected, Message.nonContiguous requested expected ∉ after.printed) ∧
        ∀ size pointer last, Tiled after → Unwrapped (.ok after) (.kmalloc size) →
          kmalloc size after = .ok (pointer, last) →
          ∃ messages, last.printed = messages ++ after.printed ∧
            Message.noChunkAfterGrow ∉ messages := by
  obtain ⟨first, result, supplied⟩ := oneGigabyte_boots
  obtain ⟨pml4, _, _, _, _, _, _, _, booted⟩ :=
    initMemory_spec (show initMemory oneGigabyte.toLoadedMachine.toMachine _ _ _ _ = _ from result)
  obtain ⟨one, two, served, moved, search, served', present, stop, _⟩ := freshHeap_serves
  obtain ⟨middle, last, answer, same, answer', same'⟩ :=
    oneGigabyte_serves result served (supplied.less (by decide)) moved search served'
  have steps : step (.ok (kmallocInit (freshKernel first))) (.kmalloc 100) = .ok middle := by
    rw [step, answer]
    rfl
  have steps' : step (.ok middle) (.kmalloc 70000) = .ok last := by
    rw [step, answer']
    rfl
  have unwrapped : Guarded step Unwrapped (.ok (kmallocInit (freshKernel first)))
      [.kmalloc 100, .kmalloc 70000, .kfree (kheapBase + 32)] := by
    rw [guarded_cons, guarded_cons, steps, steps']
    refine ⟨fun _ => ?_, fun _ => ?_, trivial, trivial⟩
    · change first.nextVirt + growthBytes 100 < 2 ^ 64
      rw [booted.nextVirt]
      decide
    · have here : middle.vmm.nextVirt = one.nextVirt := congrArg Heap.nextVirt same
      rw [here, moved]
      decide
  obtain ⟨memory, freed⟩ := kfree_memory (kheapBase + 32) two
  rw [← same', ← kfree_heap] at freed
  have ends : [Event.kmalloc 100, .kmalloc 70000, .kfree (kheapBase + 32)].foldl step
      (.ok (kmallocInit (freshKernel first))) = .ok (kfree (kheapBase + 32) last) := by
    rw [List.foldl_cons, steps, List.foldl_cons, steps']
    rfl
  generalize kfree (kheapBase + 32) last = final at freed ends
  have head : final.head = last.heap.head := congrArg Heap.head freed
  have heapEnd : final.heapEnd = last.heap.heapEnd := congrArg Heap.heapEnd freed
  rw [same'] at head heapEnd
  exact ⟨first, result, booted.nextVirt, unwrapped,
    ⟨final, ends, fun empty => present (head.symm.trans empty), heapEnd.trans stop⟩,
    cursors_together (freshKernel first) booted.nextVirt rfl _ unwrapped⟩

end ArchaOS.GrowingHeap
