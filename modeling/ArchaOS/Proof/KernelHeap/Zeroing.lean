import ArchaOS.Proof.KernelHeap.Allocation

namespace ArchaOS.KernelHeap

open Library

/-- `memset` reaches the addresses that follow the pointer, around the end of the address space. -/
theorem memset_byte {memory : Memory} {ptr n address : Nat} {value : UInt8} (fits : n ≤ 2 ^ 64)
    (start : ptr < 2 ^ 64) (word : address < 2 ^ 64) :
    (memset memory ptr value n).byte address =
      if sub64 address ptr < n then value else memory.byte address := by
  induction n generalizing memory ptr with
  | zero => rfl
  | succ n ih =>
      rw [memset, ih (by omega) (add64_lt _ _)]
      have here : sub64 address (add64 ptr 1) < n ↔ sub64 address ptr < n + 1 ∧ address ≠ ptr := by
        unfold sub64 add64
        omega
      by_cases same : address = ptr
      · have zero : sub64 address ptr < n + 1 := by
          unfold sub64
          omega
        rw [if_neg fun reached => (here.mp reached).2 same, if_pos zero]
        simp [Memory.fill, same]
      · have kept : (memory.fill ptr 1 value).byte address = memory.byte address :=
          Memory.fill_outside (by omega)
        rw [kept]
        simp only [here, same, ne_eq, not_false_eq_true, and_true]

/-- `memset` on a block that does not reach all the way around keeps the header in front of it. -/
theorem get_memset {memory : Memory} {chunk n : Nat} {value : UInt8}
    (inside : chunk + headerSize < 2 ^ 64) (fits : n ≤ 2 ^ 64 - headerSize) (field : Field) :
    get (memset memory (chunk + headerSize) value n) chunk field = get memory chunk field := by
  apply get_congr
  intro byte lower upper
  have size : headerSize = 32 := rfl
  rw [memset_byte (by omega) inside (by omega), if_neg]
  unfold sub64
  omega

/-- `kcalloc` fails without a store, or it returns a block for all of the items, and the block is
zero. -/
def Zeroes (numOfItems lenOfItems : Nat) (granted : Bool) (heap : Heap) : Prop :=
  ∃ pointer after cleared, kcalloc numOfItems lenOfItems granted heap = some (pointer, after, cleared) ∧
    ((pointer = 0 ∧ after = heap ∧ cleared = 0) ∨
      ∃ chunks, Settled after chunks ∧ ∃ chunk ∈ chunks, chunk.free = false ∧
        pointer = chunk.address + headerSize ∧
        numOfItems * lenOfItems + headerSize ≤ chunk.length ∧
        ∀ offset < numOfItems * lenOfItems, after.memory.byte (pointer + offset) = 0)

/-- The length word that `kmalloc` leaves is close to the length that the request needs. -/
theorem takeChunk_length {required chunk : Nat} {heap : Heap} (small : required + 2 * headerSize < 2 ^ 64) :
    get (takeChunk required chunk heap).2.memory chunk .length < required + 2 * headerSize := by
  have threshold : add64 (add64 required headerSize) kmallocMinSplit = required + 2 * headerSize := by
    unfold headerSize at small
    unfold headerSize kmallocMinSplit add64
    omega
  unfold takeChunk
  rw [threshold]
  dsimp only
  rw [get_set_field (by decide)]
  split
  · unfold ksplit
    dsimp only
    rw [get_set_same (by omega)]
    unfold headerSize
    omega
  · omega

/-- Sign extension keeps the lower half of a word. -/
theorem signExtend32_spec (value : Nat) : signExtend32 value % 2 ^ 32 = value % 2 ^ 32 ∧
    signExtend32 value < 2 ^ 64 ∧ (signExtend32 value = 0 ↔ value % 2 ^ 32 = 0) := by
  unfold signExtend32
  split <;> omega

/-- `kcalloc` allocates the product as an `int` and clears it. -/
theorem kcalloc_eq {numOfItems lenOfItems : Nat} {granted : Bool} {heap : Heap} (items : numOfItems ≠ 0)
    (length : lenOfItems ≠ 0) :
    kcalloc numOfItems lenOfItems granted heap =
      (kmalloc (signExtend32 (numOfItems * lenOfItems)) granted heap).map fun result =>
        (result.1, { result.2 with
          memory := memset result.2.memory result.1 0 (signExtend32 (numOfItems * lenOfItems)) },
          signExtend32 (numOfItems * lenOfItems)) := by
  have size : signExtend32 (mul64 numOfItems lenOfItems) = signExtend32 (numOfItems * lenOfItems) := by
    unfold signExtend32 mul64
    rw [Nat.mod_mod_of_dvd _ (by decide)]
  rw [kcalloc, if_neg (by simp [items, length]), size]
  dsimp only
  cases kmalloc (signExtend32 (numOfItems * lenOfItems)) granted heap <;> rfl

section Clearing

variable {size : Nat} {middle : Heap} {before rest : List Chunk} {chunk : Chunk}

/-- Zeroing the payload of the taken chunk keeps the heap settled. -/
theorem Takes.cleared {after : Heap} (takes : Takes size middle before chunk rest after)
    (settled : Settled middle (before ++ chunk :: rest)) :
    Settled { after with memory := memset after.memory (chunk.address + headerSize) 0 size }
        (before ++ (carve (requiredLength size) chunk ++ rest)) ∧
      ∀ offset < size, (memset after.memory (chunk.address + headerSize) 0 size).byte
        (chunk.address + headerSize + offset) = 0 := by
  have settled' := takes.settled settled
  have present : takenChunk (requiredLength size) chunk ∈
      before ++ (carve (requiredLength size) chunk ++ rest) :=
    List.mem_append_right _ (List.mem_append_left _ (takenChunk_mem _ _))
  have inside := (tiling_bounds settled'.tiles).2 _ present
  have room := takes.room
  have stop := settled'.stop
  have place : (takenChunk (requiredLength size) chunk).address = chunk.address := rfl
  have header : headerSize = 32 := rfl
  constructor
  · refine ⟨settled'.toShape.rewrite present ?_, settled'.startAligned, settled'.nextAligned⟩
    intro address word outside
    rw [memset_byte (by omega) (by omega) word, if_neg]
    unfold sub64
    omega
  · intro offset low
    rw [memset_byte (by omega) (by omega) (by omega), if_pos]
    unfold sub64
    omega

/-- A header whose first byte is cleared belongs to no chunk. -/
theorem state_of_zero {memory : Memory} {address : Nat} (zero : memory.byte address = 0) :
    get memory address .state ≠ stateUsed := by
  have word : get memory address .state = (memory.byte address).toNat + 256 * memory.read (address + 1) 7 :=
    rfl
  rw [word, zero, stateUsed]
  change 0 + 256 * memory.read (address + 1) 7 ≠ 0xBFBFBFBF
  omega

/-- If the chunk of the returned pointer has room for all of the items, the request was for them and
did not wrap around. -/
theorem Settled.whole_request {after : Heap} {memory : Memory} {product address : Nat}
    {chunks : List Chunk} (settled : Settled after chunks)
    (cleared : after.memory = memset memory (address + headerSize) 0 size)
    (short : get memory address .length < requiredLength size + 2 * headerSize) (positive : 1 ≤ size)
    (word : size < 2 ^ 64) (same : size % 2 ^ 32 = product % 2 ^ 32) (member : chunk ∈ chunks)
    (used : chunk.free = false) (place : chunk.address = address)
    (room : product + headerSize ≤ chunk.length) : product ≤ size ∧ size ≤ 2 ^ 64 - 48 := by
  have header : headerSize = 32 := rfl
  have inside := (tiling_bounds settled.tiles).2 chunk member
  have stop := settled.stop
  obtain ⟨before, rest, whole⟩ := List.append_of_mem member
  rw [whole] at settled
  obtain ⟨state, length, _, _⟩ := settled.toShape.header
  rw [place, cleared] at state length
  rcases Nat.lt_or_ge (2 ^ 64 - headerSize) size with around | below
  · have first : (memset memory (address + headerSize) 0 size).byte address = 0 := by
      rw [memset_byte (by omega) (by omega) (by omega), if_pos]
      unfold sub64
      omega
    exact absurd (state.trans (chunk.state_used_iff.mpr used)) (state_of_zero first)
  · rw [get_memset (by omega) below] at length
    rcases Nat.lt_or_ge (2 ^ 64 - 48) size with above | low
    · have small := requiredLength_wraps above word
      omega
    · obtain ⟨_, _, _, close, _⟩ := requiredLength_spec positive low
      omega

end Clearing

/-- Something serves a request: a chunk that is there, or new pages. -/
def Served (size : Nat) (granted : Bool) (heap : Heap) (chunks : List Chunk) : Prop :=
  (∃ chunk ∈ chunks, chunk.Fits (requiredLength size)) ∨ Grows granted (growSize (requiredLength size)) heap

/-- `kcalloc` delivers zeroed items or fails cleanly exactly when the low half of the product is zero,
or when the narrowed product covers all of the items, does not wrap around and is served. -/
theorem kcalloc_zeroes_iff (heap : Heap) (chunks : List Chunk) (settled : Settled heap chunks)
    (granted : Bool) (numOfItems lenOfItems : Nat) (items : numOfItems ≠ 0) (length : lenOfItems ≠ 0) :
    Zeroes numOfItems lenOfItems granted heap ↔ numOfItems * lenOfItems % 2 ^ 32 = 0 ∨
      (numOfItems * lenOfItems ≤ signExtend32 (numOfItems * lenOfItems) ∧
        signExtend32 (numOfItems * lenOfItems) ≤ 2 ^ 64 - 48 ∧
        Served (signExtend32 (numOfItems * lenOfItems)) granted heap chunks) := by
  unfold Zeroes
  rw [kcalloc_eq items length]
  obtain ⟨same, word, zero⟩ := signExtend32_spec (numOfItems * lenOfItems)
  generalize signExtend32 (numOfItems * lenOfItems) = size at *
  generalize numOfItems * lenOfItems = product at *
  rcases Nat.eq_zero_or_pos size with rfl | positive
  · exact iff_of_true ⟨0, heap, 0, rfl, Or.inl ⟨rfl, rfl, rfl⟩⟩ (Or.inl (zero.mp rfl))
  · rw [or_iff_right fun low => by omega]
    rcases kmalloc_search granted settled.toShape (show size ≠ 0 by omega) with
      ⟨none, refused, result⟩ | ⟨middle, before, chunk, rest, served, _, stops, moves, kept, result⟩
    · rw [result]
      refine iff_of_false ?_ fun condition => condition.2.2.elim none refused
      rintro ⟨pointer, after, cleared, returned, block⟩
      obtain ⟨rfl, rfl, rfl⟩ : 0 = pointer ∧ _ ∧ size = cleared := by simpa using returned
      rcases block with ⟨_, _, null⟩ | ⟨_, _, _, _, _, address, _⟩
      · omega
      · unfold headerSize at address
        omega
    · have member : chunk ∈ before ++ chunk :: rest := by simp
      have settled' := kept settled
      have roomy := settled'.roomy member stops.fits
      have large := (settled'.large member).1
      rw [result]
      constructor
      · rintro ⟨pointer, after, cleared, returned, block⟩
        simp only [Option.map_some, Option.some.injEq, Prod.mk.injEq] at returned
        obtain ⟨rfl, rfl, rfl⟩ := returned
        rcases block with ⟨null, _⟩ | ⟨_, settledAfter, other, present, used, address, room, _⟩
        · unfold headerSize at null
          unfold pageSize at large
          omega
        · obtain ⟨covers, plain⟩ := settledAfter.whole_request rfl (takeChunk_length roomy) positive word
            same present used (Nat.add_right_cancel address.symm) room
          exact ⟨covers, plain, served.imp_right And.right⟩
      · rintro ⟨covers, plain, _⟩
        have takes := takeChunk_takes moves.shape stops.fits positive plain roomy
        obtain ⟨settledAfter, zeroed⟩ := takes.cleared settled'
        refine ⟨_, _, _, rfl, Or.inr ⟨_, settledAfter, takenChunk (requiredLength size) chunk, ?_, rfl, rfl,
          ?_, fun offset low => zeroed offset (low.trans_le covers)⟩⟩
        · exact List.mem_append_right _ (List.mem_append_left _ (takenChunk_mem _ _))
        · exact (Nat.add_le_add_right covers headerSize).trans takes.room

/-- Four items of sixteen bytes on an empty heap. -/
theorem kcalloc_zeroes_iff_first :
    Settled firstHeap [] ∧ (Zeroes 4 16 true firstHeap ↔ 4 * 16 % 2 ^ 32 = 0 ∨
      (4 * 16 ≤ signExtend32 (4 * 16) ∧ signExtend32 (4 * 16) ≤ 2 ^ 64 - 48 ∧
        Served (signExtend32 (4 * 16)) true firstHeap [])) :=
  ⟨firstHeap_settled,
    kcalloc_zeroes_iff firstHeap [] firstHeap_settled true 4 16 (by decide) (by decide)⟩

/-- When `vallocs` fails, sixteen bytes are stored from the null pointer on. -/
theorem kcalloc_stores_at_null :
    (kcalloc 1 16 false firstHeap).map (fun result => (result.1, result.2.2)) = some (0, 16) ∧
      ¬ Zeroes 1 16 false firstHeap := by
  have returned : (kcalloc 1 16 false firstHeap).map (fun result => (result.1, result.2.2)) =
      some (0, 16) := by
    decide +kernel
  refine ⟨returned, ?_⟩
  rintro ⟨pointer, after, cleared, result, block⟩
  rw [result, Option.map_some, Option.some.injEq, Prod.mk.injEq] at returned
  obtain ⟨rfl, rfl⟩ := returned
  rcases block with ⟨_, _, null⟩ | ⟨_, _, chunk, _, _, address, _⟩
  · cases null
  · unfold headerSize at address
    omega

end ArchaOS.KernelHeap
