import ArchaOS.Proof.KernelHeap.Representation

namespace ArchaOS.KernelHeap

open Library

/-- Chunks whose lengths are multiples of sixteen lie at multiples of sixteen. -/
theorem tiles_aligned {start stop : Nat} {chunks : List Chunk} (tiles : Tiles start chunks stop)
    (sized : Sized chunks) (aligned : start % 16 = 0) : ∀ chunk ∈ chunks, chunk.address % 16 = 0 := by
  induction chunks generalizing start with
  | nil => simp
  | cons chunk rest ih =>
      obtain ⟨rfl, later⟩ := tiles
      obtain ⟨here, others⟩ := List.forall_mem_cons.mp sized
      exact List.forall_mem_cons.mpr ⟨aligned, ih later others (by omega)⟩

/-- Taking a chunk keeps the heap settled. -/
theorem Takes.settled {size : Nat} {middle after : Heap} {before rest : List Chunk} {chunk : Chunk}
    (takes : Takes size middle before chunk rest after)
    (settled : Settled middle (before ++ chunk :: rest)) :
    Settled after (before ++ (carve (requiredLength size) chunk ++ rest)) where
  toShape := takes.moves.shape
  startAligned := by
    intro _
    rw [takes.heapStart]
    exact settled.startAligned (by simp)
  nextAligned := by
    intro empty
    have member := takenChunk_mem (requiredLength size) chunk
    simp only [List.append_eq_nil_iff] at empty
    simp [empty.2.1] at member

/-- The taken chunk is the lowest free one that is long enough, it is used now and has room for the
request, and no other used chunk changes. -/
structure FirstFit (size : Nat) (chunks searched chunks' : List Chunk) (pointer : Nat)
    (chunk taken : Chunk) : Prop where
  member : chunk ∈ searched
  fits : chunk.Fits (requiredLength size)
  lowest : ∀ other ∈ searched, other.Fits (requiredLength size) → chunk.address ≤ other.address
  pointer : pointer = chunk.address + headerSize
  place : taken.address = chunk.address
  present : taken ∈ chunks'
  used : taken.free = false
  room : size + headerSize ≤ taken.length
  others : ∀ other, other ≠ taken → other.free = false → (other ∈ chunks' ↔ other ∈ chunks)

/-- The used chunks of the heap in which `kmalloc` finds a chunk are the old ones. -/
theorem Searched.used {granted : Bool} {required : Nat} {heap middle : Heap}
    {chunks searched : List Chunk} (found : Searched granted required heap chunks middle searched)
    {chunk : Chunk} (member : chunk ∈ searched) (used : chunk.free = false) : chunk ∈ chunks := by
  unfold Searched at found
  split at found
  · exact found.2 ▸ member
  · rw [found.2] at member
    exact extend_used _ _ _ member used

/-- The chunk that is taken is the first that fits. -/
theorem Takes.firstFit {granted : Bool} {size : Nat} {heap middle after : Heap} {chunks before rest : List Chunk}
    {chunk : Chunk}
    (found : Searched granted (requiredLength size) heap chunks middle (before ++ chunk :: rest))
    (stops : Stops (requiredLength size) before chunk)
    (moves : Moves heap chunks middle (before ++ chunk :: rest) fun _ => True)
    (takes : Takes size middle before chunk rest after) :
    FirstFit size chunks (before ++ chunk :: rest)
      (before ++ (carve (requiredLength size) chunk ++ rest)) (chunk.address + headerSize) chunk
      (takenChunk (requiredLength size) chunk) where
  member := by simp
  fits := stops.fits
  lowest := by
    intro other member fits
    obtain ⟨_, later, _⟩ := tiles_around moves.shape.tiles moves.shape.sized.roomy
    rcases List.mem_append.mp member with old | here
    · exact absurd fits (stops.earlier other old)
    · rcases List.mem_cons.mp here with rfl | last
      · exact le_rfl
      · exact (Nat.le_add_right _ _).trans (later other last).1
  pointer := rfl
  place := rfl
  present := List.mem_append_right _ (List.mem_append_left _ (takenChunk_mem _ _))
  used := rfl
  room := takes.room
  others := by
    intro other different used
    constructor
    · intro member
      refine found.used (List.mem_append.mpr ?_) used
      rcases List.mem_append.mp member with old | here
      · exact Or.inl old
      · rcases List.mem_append.mp here with part | last
        · exact absurd ((mem_carve used).mp part) different
        · exact Or.inr (List.mem_cons_of_mem _ last)
    · exact fun member =>
        takes.moves.used other (moves.used other member used trivial) used trivial

/-- `kmalloc` takes the first chunk that fits, in the heap that it got or in the one that it has
grown, and returns the null pointer only when `vallocs` fails, with nothing changed. -/
theorem kmalloc_firstFit (heap : Heap) (chunks : List Chunk) (settled : Settled heap chunks)
    (granted : Bool) (size : Nat) (positive : 1 ≤ size) (bounded : size ≤ 2 ^ 62) :
    ∃ pointer after, kmalloc size granted heap = some (pointer, after) ∧
      ((pointer = 0 ∧ after = heap ∧ ¬ Grows granted (growSize (requiredLength size)) heap) ∨
        (pointer ≠ 0 ∧ pointer % 16 = 0 ∧ ∃ middle searched chunks' chunk taken,
          Searched granted (requiredLength size) heap chunks middle searched ∧
          Settled middle searched ∧ Settled after chunks' ∧
          FirstFit size chunks searched chunks' pointer chunk taken)) := by
  have shape := settled.toShape
  rcases kmalloc_search granted shape (show size ≠ 0 by omega) with
    ⟨_, refused, result⟩ | ⟨middle, before, chunk, rest, _, found, stops, moves, kept, result⟩
  · exact ⟨0, heap, result, Or.inl ⟨rfl, rfl, refused⟩⟩
  · have member : chunk ∈ before ++ chunk :: rest := by simp
    have settled' := kept settled
    have takes := takeChunk_takes moves.shape stops.fits positive (bounded.trans (by decide))
      (settled'.roomy member stops.fits)
    have start := settled'.startAligned (List.ne_nil_of_mem member)
    have aligned := tiles_aligned settled'.tiles settled'.sized (by unfold pageSize at start; omega)
      chunk member
    refine ⟨_, _, result, Or.inr ⟨?_, ?_, middle, _, _, chunk, takenChunk (requiredLength size) chunk,
      found, settled', takes.settled settled', takes.firstFit found stops moves⟩⟩
    · unfold headerSize
      omega
    · unfold headerSize
      omega

/-- The heap before its first call, with the pages at the start of the kernel heap. -/
def firstHeap : Heap := ⟨⟨fun _ => 0⟩, 0, 0, 0, 0xFFFFFFFE00000000⟩

/-- The heap of the first allocation is settled. -/
theorem firstHeap_settled : Settled firstHeap [] where
  toShape := Shape.initial firstHeap (by decide)
  startAligned := fun present => absurd rfl present
  nextAligned := by decide

/-- A heap of one page with six chunks, every second of them free. -/
def sampleChunks : List Chunk :=
  [⟨4096, 64, false⟩, ⟨4160, 64, true⟩, ⟨4224, 96, false⟩, ⟨4320, 1024, true⟩, ⟨5344, 80, false⟩,
    ⟨5424, 2768, true⟩]

/-- The words of their headers. -/
def sampleWords : List (Nat × Nat) :=
  [(4096, stateUsed), (4104, 64), (4112, 4160), (4160, stateFree), (4168, 64), (4176, 4224), (4184, 4096),
    (4224, stateUsed), (4232, 96), (4240, 4320), (4248, 4160), (4320, stateFree), (4328, 1024),
    (4336, 5344), (4344, 4224), (5344, stateUsed), (5352, 80), (5360, 5424), (5368, 4320),
    (5424, stateFree), (5432, 2768), (5448, 5344)]

def sampleHeap : Heap where
  memory := ⟨fun address =>
    UInt8.ofNat ((sampleWords.lookup (address / 8 * 8)).getD 0 / 256 ^ (address % 8))⟩
  head := 4096
  heapStart := 4096
  heapEnd := 8192
  nextVirt := 8192

/-- The sample heap is settled. -/
theorem sampleHeap_settled : Settled sampleHeap sampleChunks where
  head := rfl
  links := ⟨⟨rfl, rfl, rfl, rfl⟩, ⟨rfl, rfl, rfl, rfl⟩, ⟨rfl, rfl, rfl, rfl⟩, ⟨rfl, rfl, rfl, rfl⟩,
    ⟨rfl, rfl, rfl, rfl⟩, ⟨rfl, rfl, rfl, rfl⟩, trivial⟩
  tiles := ⟨rfl, rfl, rfl, rfl, rfl, rfl, rfl⟩
  sized := by
    unfold Sized
    decide
  coalesced := by
    unfold Coalesced
    decide
  start := fun _ => by decide
  stop := by decide
  nextVirt := fun _ => rfl
  nextPositive := by decide
  startAligned := fun _ => rfl
  nextAligned := fun none => absurd none (by decide)

/-- The first chunk with room for a hundred bytes is the fourth: the one before it is too short. -/
theorem kmalloc_firstFit_sample :
    ∃ after chunks' taken, kmalloc 100 true sampleHeap = some (4352, after) ∧ Settled after chunks' ∧
      FirstFit 100 sampleChunks sampleChunks chunks' 4352 ⟨4320, 1024, true⟩ taken := by
  obtain ⟨pointer, after, result, refused | ⟨_, _, middle, searched, chunks', chunk, taken, found, _,
      settled, firstFit⟩⟩ :=
    kmalloc_firstFit sampleHeap sampleChunks sampleHeap_settled true 100 (by decide) (by decide)
  · exact absurd (by decide) refused.2.2
  · have roomy : ∃ chunk ∈ sampleChunks, chunk.Fits (requiredLength 100) := by decide
    rw [Searched, if_pos roomy] at found
    obtain ⟨_, rfl⟩ := found
    have lowest := firstFit.lowest ⟨4320, 1024, true⟩ (by decide) (by decide)
    have only : ∀ chunk ∈ sampleChunks, chunk.Fits (requiredLength 100) → chunk.address ≤ 4320 →
        chunk = ⟨4320, 1024, true⟩ := by decide
    obtain rfl := only chunk firstFit.member firstFit.fits lowest
    obtain rfl : pointer = 4352 := firstFit.pointer
    exact ⟨after, chunks', taken, result, settled, firstFit⟩

/-- The block lies inside the payload of one used chunk and inside the heap. -/
def Delivered (size pointer : Nat) (after : Heap) : Prop :=
  ∃ chunks, Settled after chunks ∧ ∃ chunk ∈ chunks, chunk.free = false ∧
    chunk.address + headerSize ≤ pointer ∧ pointer + size ≤ chunk.address + chunk.length ∧
    after.heapStart ≤ pointer ∧ pointer + size ≤ after.heapEnd

/-- No sum of `kmalloc` wraps around; the rounding to pages is only done when the heap grows. -/
structure Unwrapped (size : Nat) (chunks : List Chunk) : Prop where
  rounding : size + 15 < 2 ^ 64
  header : alignUp size kmallocAlignment + headerSize < 2 ^ 64
  threshold : requiredLength size + headerSize + kmallocMinSplit < 2 ^ 64
  pages : (¬ ∃ chunk ∈ chunks, chunk.Fits (requiredLength size)) →
    growSize (requiredLength size) + 4095 < 2 ^ 64

/-- `kmalloc` returns the null pointer or as many bytes as it was asked for. -/
def Honours (size : Nat) (granted : Bool) (heap : Heap) (chunks : List Chunk) : Prop :=
  ∃ pointer after, kmalloc size granted heap = some (pointer, after) ∧
    (pointer = 0 ∨ Delivered size pointer after ∧ Unwrapped size chunks)

section Honouring

variable {heap : Heap} {chunks : List Chunk} {granted : Bool} {size : Nat}
  (settled : Settled heap chunks)
include settled

/-- A request of at least one byte whose length does not wrap is honoured. -/
theorem Settled.honours (positive : 1 ≤ size) (bounded : size ≤ 2 ^ 64 - 48) :
    Honours size granted heap chunks := by
  rcases kmalloc_search granted settled.toShape (show size ≠ 0 by omega) with
    ⟨_, _, result⟩ | ⟨middle, before, chunk, rest, served, _, stops, moves, kept, result⟩
  · exact ⟨0, heap, result, Or.inl rfl⟩
  · have member : chunk ∈ before ++ chunk :: rest := by simp
    have settled' := kept settled
    have roomy := settled'.roomy member stops.fits
    have takes := takeChunk_takes moves.shape stops.fits positive bounded roomy
    have present : takenChunk (requiredLength size) chunk ∈
        before ++ (carve (requiredLength size) chunk ++ rest) :=
      List.mem_append_right _ (List.mem_append_left _ (takenChunk_mem _ _))
    have inside := (tiling_bounds takes.moves.shape.tiles).2 _ present
    have room := takes.room
    have address : (takenChunk (requiredLength size) chunk).address = chunk.address := rfl
    refine ⟨_, _, result, Or.inr ⟨⟨_, takes.settled settled', _, present, rfl, ?_⟩, ?_⟩⟩
    · omega
    · have aligned : alignUp size kmallocAlignment = (size + 15) / 16 * 16 :=
        alignUp_eq size 4 (by decide) (by omega)
      refine ⟨by omega, ?_, ?_, fun none => (served.resolve_left none).1⟩
      · rw [aligned]
        unfold headerSize
        omega
      · unfold headerSize kmallocMinSplit at *
        omega

/-- A request that wraps around is served only by mistake. -/
theorem Settled.wrapped (above : 2 ^ 64 - 48 < size) (word : size < 2 ^ 64) :
    Honours size granted heap chunks ↔
      ¬ (∃ chunk ∈ chunks, chunk.Fits (requiredLength size)) ∧
        ¬ Grows granted (growSize (requiredLength size)) heap := by
  rcases kmalloc_search granted settled.toShape (show size ≠ 0 by omega) with
    ⟨none, refused, result⟩ | ⟨middle, before, chunk, rest, served, _, stops, moves, kept, result⟩
  · exact iff_of_true ⟨0, heap, result, Or.inl rfl⟩ ⟨none, refused⟩
  · have member : chunk ∈ before ++ chunk :: rest := by simp
    have large := ((kept settled).large member).1
    refine iff_of_false ?_ ?_
    · rintro ⟨pointer, after, same, honoured⟩
      rw [result, Option.some.injEq] at same
      obtain ⟨rfl, rfl⟩ := Prod.mk.inj same
      unfold pageSize at large
      rcases honoured with null | ⟨⟨_, settled', _, _, _, _, _, _, below⟩, _⟩
      · omega
      · have stop := settled'.stop
        omega
    · rintro ⟨none, refused⟩
      exact served.elim none fun grown => refused grown.2

/-- The condition under which nothing serves a request that wraps around. -/
theorem Settled.idle_iff (above : 2 ^ 64 - 48 < size) (word : size < 2 ^ 64) :
    ¬ (∃ chunk ∈ chunks, chunk.Fits (requiredLength size)) ∧
        ¬ Grows granted (growSize (requiredLength size)) heap ↔
      (∀ chunk ∈ chunks, chunk.free = false) ∧ (vallocs granted 16 heap).1 = 0 := by
  have small := requiredLength_wraps above word
  have pages : alignUp (growSize (requiredLength size)) pageSize / pageSize = 16 := by
    have grow : growSize (requiredLength size) = 16 * pageSize :=
      if_pos (lt_of_le_of_lt small (by decide))
    rw [grow]
    decide
  unfold Grows
  rw [pages, not_not]
  refine and_congr_left' ⟨?_, ?_⟩
  · intro none chunk member
    cases free : chunk.free with
    | false => rfl
    | true =>
        have room := settled.sized chunk member
        exact absurd ⟨chunk, member, free, by omega⟩ none
  · rintro used ⟨chunk, member, free, _⟩
    rw [used chunk member] at free
    cases free

end Honouring

/-- `kmalloc` honours a request exactly when its sums do not wrap around or nothing serves it. -/
theorem kmalloc_honours_iff (heap : Heap) (chunks : List Chunk) (settled : Settled heap chunks)
    (granted : Bool) (size : Nat) (word : size < 2 ^ 64) :
    Honours size granted heap chunks ↔ size ≤ 2 ^ 64 - 48 ∨
      (∀ chunk ∈ chunks, chunk.free = false) ∧ (vallocs granted 16 heap).1 = 0 := by
  rcases Nat.lt_or_ge (2 ^ 64 - 48) size with above | below
  · rw [settled.wrapped above word, settled.idle_iff above word, or_iff_right (not_le.mpr above)]
  · refine iff_of_true ?_ (Or.inl below)
    rcases Nat.eq_zero_or_pos size with rfl | positive
    · exact ⟨0, heap, rfl, Or.inl rfl⟩
    · exact settled.honours positive below

/-- A request of almost four gigabytes on an empty heap. -/
theorem kmalloc_honours_iff_first :
    Settled firstHeap [] ∧ (0xFFFFFFFF : Nat) < 2 ^ 64 ∧
      (Honours 0xFFFFFFFF true firstHeap [] ↔ (0xFFFFFFFF : Nat) ≤ 2 ^ 64 - 48 ∨
        (∀ chunk ∈ ([] : List Chunk), chunk.free = false) ∧ (vallocs true 16 firstHeap).1 = 0) :=
  ⟨firstHeap_settled, by decide,
    kmalloc_honours_iff firstHeap [] firstHeap_settled true 0xFFFFFFFF (by decide)⟩

/-- The largest request gets a block without a single byte. -/
theorem kmalloc_shortens :
    (kmalloc 0xFFFFFFFFFFFFFFFF true firstHeap).map Prod.fst = some 0xFFFFFFFE00000020 ∧
      ¬ Honours 0xFFFFFFFFFFFFFFFF true firstHeap [] := by
  have returned : (kmalloc 0xFFFFFFFFFFFFFFFF true firstHeap).map Prod.fst = some 0xFFFFFFFE00000020 := by
    decide +kernel
  refine ⟨returned, ?_⟩
  rintro ⟨pointer, after, result, honoured⟩
  rw [result, Option.map_some, Option.some.injEq] at returned
  dsimp only at returned
  rcases honoured with null | ⟨⟨_, settled, _, _, _, _, _, _, below⟩, _⟩
  · omega
  · have stop := settled.stop
    omega

end ArchaOS.KernelHeap
