import ArchaOS.Proof.KernelHeap.Operations

namespace ArchaOS.KernelHeap

open Library

/-- The chunk can serve a request that needs this length. -/
def Chunk.Fits (required : Nat) (chunk : Chunk) : Prop := chunk.free = true ∧ required ≤ chunk.length

instance (required : Nat) (chunk : Chunk) : Decidable (chunk.Fits required) :=
  inferInstanceAs (Decidable (_ ∧ _))

/-- The heap in which `kmalloc` finds a chunk is the old one or, when no chunk fits, the grown one. -/
def Searched (granted : Bool) (required : Nat) (heap : Heap) (chunks : List Chunk) (middle : Heap)
    (searched : List Chunk) : Prop :=
  if ∃ chunk ∈ chunks, chunk.Fits required then middle = heap ∧ searched = chunks
  else kmallocGrow (growSize required) granted heap = some (true, middle) ∧
    searched = extend chunks heap.nextVirt (alignUp (growSize required) pageSize)

/-- The first-fit search passes some chunks and stops at the next one. -/
structure Stops (required : Nat) (before : List Chunk) (chunk : Chunk) : Prop where
  fits : chunk.Fits required
  earlier : ∀ other ∈ before, ¬ other.Fits required

/-- The required length is a word. -/
theorem requiredLength_lt (size : Nat) : requiredLength size < 2 ^ 64 := add64_lt _ _

/-- A growth of the heap makes room for the request. -/
theorem extend_fits {required : Nat} (fits : growSize required + 4095 < 2 ^ 64) (chunks : List Chunk)
    (address : Nat) :
    ∃ chunk ∈ extend chunks address (alignUp (growSize required) pageSize), chunk.Fits required := by
  obtain ⟨_, _, covers, _⟩ := growBytes_spec fits
  obtain ⟨chunk, member, free, long⟩ :=
    extend_free chunks address (alignUp (growSize required) pageSize)
  exact ⟨chunk, member, free, covers.trans long⟩

section Search

variable {heap : Heap} {chunks : List Chunk} {size : Nat} (granted : Bool)
  (shape : Shape heap chunks) (nonzero : size ≠ 0)
include shape

/-- The first-fit loop stops at a chunk that fits. -/
theorem Shape.finds {required : Nat} (some : ∃ chunk ∈ chunks, chunk.Fits required) :
    ∃ before chunk after, chunks = before ++ chunk :: after ∧ Stops required before chunk ∧
      findChunk heap.memory required walkBound heap.head = Option.some chunk.address := by
  rcases findChunk_spec required shape.links (fun chunk member => shape.nonzero member) shape.few with
    ⟨before, chunk, after, split, free, fits, first, found⟩ | ⟨absent, _⟩
  · rw [shape.head]
    exact ⟨before, chunk, after, split, ⟨⟨free, fits⟩, first⟩, found⟩
  · obtain ⟨chunk, member, fits⟩ := some
    exact absurd fits (absent chunk member)

/-- When no chunk fits the search finds none. -/
theorem Shape.finds_none {required : Nat} (none : ¬ ∃ chunk ∈ chunks, chunk.Fits required) :
    findChunk heap.memory required walkBound heap.head = some 0 := by
  rcases findChunk_spec required shape.links (fun chunk member => shape.nonzero member) shape.few with
    ⟨before, chunk, after, split, free, fits, _⟩ | ⟨_, missing⟩
  · exact absurd ⟨chunk, by simp [split], free, fits⟩ none
  · rw [shape.head]
    exact missing

/-- The pointer that is returned lies behind the header. -/
theorem Shape.takeChunk_eq {chunk : Chunk} (member : chunk ∈ chunks) (required : Nat) :
    takeChunk required chunk.address heap =
      (chunk.address + headerSize, (takeChunk required chunk.address heap).2) := by
  have inside := (tiling_bounds shape.tiles).2 chunk member
  have room := shape.sized chunk member
  have stop := shape.stop
  have pointer : add64 chunk.address headerSize = chunk.address + headerSize :=
    add64_eq (by unfold headerSize; omega)
  rw [← pointer]
  rfl

include nonzero

/-- `kmalloc` ends: without a chunk that fits and without new pages it returns the null pointer,
and otherwise it takes the first chunk that fits. -/
theorem kmalloc_search :
    (¬ (∃ chunk ∈ chunks, chunk.Fits (requiredLength size)) ∧
      ¬ Grows granted (growSize (requiredLength size)) heap ∧
      kmalloc size granted heap = some (0, heap)) ∨
    ∃ middle before chunk after,
      ((∃ chunk ∈ chunks, chunk.Fits (requiredLength size)) ∨
        growSize (requiredLength size) + 4095 < 2 ^ 64 ∧
          Grows granted (growSize (requiredLength size)) heap) ∧
      Searched granted (requiredLength size) heap chunks middle (before ++ chunk :: after) ∧
      Stops (requiredLength size) before chunk ∧
      Moves heap chunks middle (before ++ chunk :: after) (fun _ => True) ∧
      (Settled heap chunks → Settled middle (before ++ chunk :: after)) ∧
      kmalloc size granted heap = some (chunk.address + headerSize,
        (takeChunk (requiredLength size) chunk.address middle).2) := by
  have word := requiredLength_lt size
  unfold kmalloc Searched
  rw [if_neg nonzero]
  generalize requiredLength size = required at word ⊢
  dsimp only
  by_cases some : ∃ chunk ∈ chunks, chunk.Fits required
  · obtain ⟨before, chunk, after, split, stops, found⟩ := shape.finds some
    subst split
    have member : chunk ∈ before ++ chunk :: after := by simp
    have present := shape.nonzero member
    have same : Moves heap (before ++ chunk :: after) heap (before ++ chunk :: after) fun _ => True :=
      ⟨shape, fun _ member _ _ => member, fun _ _ _ _ _ _ _ => rfl⟩
    refine Or.inr ⟨heap, before, chunk, after, Or.inl some, ?_, stops, same, id, ?_⟩
    · rw [if_pos some]
      exact ⟨rfl, rfl⟩
    · rw [← shape.takeChunk_eq member]
      simp [found, present]
  · have missing := shape.finds_none some
    rcases Nat.lt_or_ge (growSize required + 4095) (2 ^ 64) with fits | wraps
    · obtain ⟨whole, aligned, _, large⟩ := growBytes_spec fits
      rcases kmallocGrow_cases granted shape whole aligned large with
        ⟨refused, failed⟩ | ⟨grown, grows, success, moves, settled⟩
      · refine Or.inl ⟨some, refused, ?_⟩
        simp [missing, failed]
      · obtain ⟨before, chunk, after, split, stops, found⟩ :=
          moves.shape.finds (extend_fits fits chunks heap.nextVirt)
        rw [split] at moves settled
        have member : chunk ∈ before ++ chunk :: after := by simp
        have present := moves.shape.nonzero member
        refine Or.inr ⟨grown, before, chunk, after, Or.inr ⟨fits, grows⟩, ?_, stops, moves, settled, ?_⟩
        · rw [if_neg some]
          exact ⟨success, split.symm⟩
        · rw [← moves.shape.takeChunk_eq member]
          simp [missing, success, found, present]
    · obtain ⟨refused, failed⟩ := kmallocGrow_none granted (growBytes_wraps word wraps)
      refine Or.inl ⟨some, refused, ?_⟩
      simp [missing, failed]

end Search

/-- The used part that `kmalloc` leaves of a chunk. -/
def takenChunk (required : Nat) (chunk : Chunk) : Chunk :=
  ⟨chunk.address, if required + 2 * headerSize ≤ chunk.length then required else chunk.length, false⟩

/-- The used part of a carved chunk is the part that is taken. -/
theorem mem_carve {required : Nat} {chunk other : Chunk} (used : other.free = false) :
    other ∈ carve required chunk ↔ other = takenChunk required chunk := by
  unfold carve takenChunk
  split
  · rw [List.mem_cons, List.mem_singleton, or_iff_left]
    rintro rfl
    cases used
  · rw [List.mem_singleton]

/-- The part that is taken has the required length and little more. -/
theorem takenChunk_length {required : Nat} {chunk : Chunk} (fits : required ≤ chunk.length) :
    required ≤ (takenChunk required chunk).length ∧
      (takenChunk required chunk).length < required + 2 * headerSize := by
  unfold takenChunk headerSize
  dsimp only
  split <;> omega

/-- The part that is taken is one of the parts. -/
theorem takenChunk_mem (required : Nat) (chunk : Chunk) : takenChunk required chunk ∈ carve required chunk :=
  (mem_carve rfl).mpr rfl

/-- The chunks of a settled heap lie above the first page and do not wrap. -/
theorem Settled.large {heap : Heap} {chunks : List Chunk} (settled : Settled heap chunks) {chunk : Chunk}
    (member : chunk ∈ chunks) : pageSize ≤ chunk.address ∧ chunk.length + pageSize < 2 ^ 64 := by
  have nonempty := List.ne_nil_of_mem member
  have positive := settled.start nonempty
  have aligned := settled.startAligned nonempty
  have inside := (tiling_bounds settled.tiles).2 chunk member
  have stop := settled.stop
  unfold pageSize at *
  omega

/-- A chunk that is taken for a request in a heap, and the heap and the chunks that result. -/
structure Takes (size : Nat) (middle : Heap) (before : List Chunk) (chunk : Chunk) (rest : List Chunk)
    (after : Heap) : Prop where
  moves : Moves middle (before ++ chunk :: rest) after
    (before ++ (carve (requiredLength size) chunk ++ rest)) fun _ => True
  room : size + headerSize ≤ (takenChunk (requiredLength size) chunk).length
  heapStart : after.heapStart = middle.heapStart
  nextVirt : after.nextVirt = middle.nextVirt

/-- Taking the first fit serves the request. -/
theorem takeChunk_takes {heap : Heap} {before rest : List Chunk} {chunk : Chunk} {size : Nat}
    (shape : Shape heap (before ++ chunk :: rest)) (fits : chunk.Fits (requiredLength size))
    (positive : 1 ≤ size) (bounded : size ≤ 2 ^ 64 - 48)
    (roomy : requiredLength size + 2 * headerSize < 2 ^ 64) :
    Takes size heap before chunk rest (takeChunk (requiredLength size) chunk.address heap).2 := by
  obtain ⟨aligned, large, room, _⟩ := requiredLength_spec positive bounded
  have moves := takeChunk_moves shape fits.1 aligned large roomy
  exact ⟨moves, room.trans (takenChunk_length fits.2).1, rfl, rfl⟩

/-- A page boundary in front of the heap leaves no room for a length close to the word size. -/
theorem Settled.roomy {heap : Heap} {chunks : List Chunk} {required : Nat} {chunk : Chunk}
    (settled : Settled heap chunks) (member : chunk ∈ chunks) (fits : chunk.Fits required) :
    required + 2 * headerSize < 2 ^ 64 := by
  have large := (settled.large member).2
  have long := fits.2
  unfold pageSize headerSize at *
  omega

/-- The pointer of a successful `kmalloc` is the payload of a new used chunk that has room for
the request. -/
def Allocated (chunks chunks' : List Chunk) (size pointer : Nat) : Prop :=
  ∃ chunk ∈ chunks', chunk.free = false ∧ pointer = chunk.address + headerSize ∧
    size + headerSize ≤ chunk.length ∧
    ∀ other ∈ chunks, other.free = false → other.address ≠ chunk.address

/-- A used chunk does not stand where a free one does. -/
theorem Shape.used_apart {heap : Heap} {before rest : List Chunk} {chunk other : Chunk}
    (shape : Shape heap (before ++ chunk :: rest)) (free : chunk.free = true)
    (member : other ∈ before ++ chunk :: rest) (used : other.free = false) :
    other.address ≠ chunk.address := by
  have different : other ≠ chunk := by
    intro same
    simp [same, free] at used
  have apart := tiles_apart shape.tiles shape.sized member (by simp) different
  have roomOther := shape.sized other member
  have roomChunk := shape.sized chunk (by simp)
  omega

/-- `kmalloc` ends; it returns the null pointer or the payload of a new used chunk, and keeps all
used chunks. -/
theorem kmalloc_moves {heap : Heap} {chunks : List Chunk} {size : Nat} (granted : Bool)
    (shape : Shape heap chunks) (positive : 1 ≤ size) (bounded : size ≤ 2 ^ 62) :
    ∃ pointer after chunks', kmalloc size granted heap = some (pointer, after) ∧
      Moves heap chunks after chunks' (fun _ => True) ∧
      (pointer = 0 ∨ Allocated chunks chunks' size pointer) := by
  rcases kmalloc_search granted shape (show size ≠ 0 by omega) with
    ⟨_, _, refused⟩ | ⟨middle, before, chunk, rest, _, _, stops, moves, _, result⟩
  · exact ⟨0, heap, chunks, refused,
      ⟨shape, fun _ member _ _ => member, fun _ _ _ _ _ _ _ => rfl⟩, Or.inl rfl⟩
  · obtain ⟨_, _, _, below, _⟩ := requiredLength_spec positive (bounded.trans (by decide))
    have takes := takeChunk_takes moves.shape stops.fits positive
      (bounded.trans (by decide)) (by unfold headerSize; omega)
    refine ⟨_, _, _, result, moves.trans takes.moves, Or.inr
      ⟨takenChunk (requiredLength size) chunk, ?_, rfl, rfl, takes.room, ?_⟩⟩
    · exact List.mem_append_right _ (List.mem_append_left _ (takenChunk_mem _ _))
    · intro other member used
      exact moves.shape.used_apart stops.fits.1 (moves.used other member used trivial) used

end ArchaOS.KernelHeap
