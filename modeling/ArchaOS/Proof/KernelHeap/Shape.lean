import ArchaOS.Proof.KernelHeap.Edits

namespace ArchaOS.KernelHeap

open Library

def lastFree (chunks : List Chunk) : Bool := chunks.getLast?.any Chunk.free

def headFree (chunks : List Chunk) : Bool := chunks.head?.any Chunk.free

@[simp] theorem lastFree_append_singleton (chunks : List Chunk) (chunk : Chunk) :
    lastFree (chunks ++ [chunk]) = chunk.free := by
  simp [lastFree]

@[simp] theorem headFree_cons (chunk : Chunk) (chunks : List Chunk) :
    headFree (chunk :: chunks) = chunk.free := by
  simp [headFree]

/-- A list without free neighbours splits around any of its chunks. -/
theorem coalesced_split (before after : List Chunk) (chunk : Chunk) :
    Coalesced (before ++ chunk :: after) ↔
      Coalesced before ∧ Coalesced after ∧ (lastFree before = true → chunk.free = false) ∧
        (chunk.free = true → headFree after = false) := by
  have left : (∀ other ∈ before.getLast?, ∀ next ∈ (chunk :: after).head?,
      ¬ (other.free = true ∧ next.free = true)) ↔ (lastFree before = true → chunk.free = false) := by
    cases before.eq_nil_or_concat with
    | inl nil => simp [nil, lastFree]
    | inr concat =>
        obtain ⟨others, last, same⟩ := concat
        subst same
        simp
  have right : Coalesced (chunk :: after) ↔
      Coalesced after ∧ (chunk.free = true → headFree after = false) := by
    cases after with
    | nil => simp [Coalesced, headFree]
    | cons next others =>
        simp only [Coalesced, List.isChain_cons_cons, headFree_cons]
        cases chunk.free <;> cases next.free <;> simp
  rw [Coalesced, List.isChain_append, left]
  change Coalesced before ∧ Coalesced (chunk :: after) ∧ _ ↔ _
  rw [right]
  tauto

/-- The heap holds exactly these chunks, and the next grant of pages continues it. -/
structure Shape (heap : Heap) (chunks : List Chunk) : Prop where
  head : heap.head = headAddress Chunk.address 0 chunks
  links : Links heap.memory 0 chunks 0
  tiles : Tiles heap.heapStart chunks heap.heapEnd
  sized : Sized chunks
  coalesced : Coalesced chunks
  start : chunks ≠ [] → 0 < heap.heapStart
  stop : heap.heapEnd < 2 ^ 64
  nextVirt : chunks ≠ [] → heap.nextVirt = heap.heapEnd
  nextPositive : 0 < heap.nextVirt

/-- The first heap has no chunk. -/
theorem Shape.initial (heap : Heap) (positive : 0 < heap.nextVirt) :
    Shape (kmallocInit heap) [] where
  head := rfl
  links := trivial
  tiles := rfl
  sized := by simp [Sized]
  coalesced := by simp [Coalesced]
  start := by simp
  stop := by simp [kmallocInit]
  nextVirt := by simp
  nextPositive := positive

/-- No chunk lies at address zero. -/
theorem Shape.nonzero {heap : Heap} {chunks : List Chunk} (shape : Shape heap chunks)
    {chunk : Chunk} (member : chunk ∈ chunks) : chunk.address ≠ 0 := by
  have positive := shape.start (List.ne_nil_of_mem member)
  have inside := (tiling_bounds shape.tiles).2 chunk member
  omega

/-- The chunks fit into the bound of a walk. -/
theorem Shape.few {heap : Heap} {chunks : List Chunk} (shape : Shape heap chunks) :
    chunks.length < walkBound := by
  have fits := tiling_length_le shape.tiles fun chunk member => by
    have size := shape.sized chunk member
    omega
  have stop := shape.stop
  unfold walkBound
  omega

/-- The first-fit loop returns the first free chunk that is large enough. -/
theorem findChunk_spec (required : Nat) {memory : Memory} {chunks : List Chunk} {prev bound : Nat}
    (links : Links memory prev chunks 0) (nonzero : ∀ chunk ∈ chunks, chunk.address ≠ 0)
    (enough : chunks.length < bound) :
    (∃ before chunk after, chunks = before ++ chunk :: after ∧ chunk.free = true ∧
      required ≤ chunk.length ∧ (∀ other ∈ before, ¬ (other.free = true ∧ required ≤ other.length)) ∧
      findChunk memory required bound (headAddress Chunk.address 0 chunks) = some chunk.address) ∨
    ((∀ chunk ∈ chunks, ¬ (chunk.free = true ∧ required ≤ chunk.length)) ∧
      findChunk memory required bound (headAddress Chunk.address 0 chunks) = some 0) := by
  induction chunks generalizing prev bound with
  | nil =>
      cases bound with
      | zero => simp at enough
      | succ bound => exact Or.inr ⟨by simp, by simp [findChunk]⟩
  | cons chunk rest ih =>
      cases bound with
      | zero => simp at enough
      | succ bound =>
          obtain ⟨header, later⟩ := links
          have present := nonzero chunk (by simp)
          have test : (get memory chunk.address .state = stateFree ∧
              get memory chunk.address .length ≥ required) ↔
              (chunk.free = true ∧ required ≤ chunk.length) := by
            rw [header.state, header.length, chunk.state_free_iff]
          by_cases fits : chunk.free = true ∧ required ≤ chunk.length
          · refine Or.inl ⟨[], chunk, rest, rfl, fits.1, fits.2, by simp, ?_⟩
            rw [headAddress_cons, findChunk, if_neg present, if_pos (test.mpr fits)]
          · have step : findChunk memory required (bound + 1)
                (headAddress Chunk.address 0 (chunk :: rest)) =
                findChunk memory required bound (headAddress Chunk.address 0 rest) := by
              rw [headAddress_cons, findChunk, if_neg present, if_neg fun found => fits (test.mp found),
                header.next]
            rw [step]
            rcases ih later (fun other member => nonzero other (by simp [member]))
              (by simpa using enough) with ⟨before, found, after, same, free, large, first, result⟩ |
              ⟨absent, result⟩
            · refine Or.inl ⟨chunk :: before, found, after, by simp [same], free, large, ?_, result⟩
              intro other member
              rcases List.mem_cons.mp member with here | old
              · exact here ▸ fits
              · exact first other old
            · refine Or.inr ⟨?_, result⟩
              intro other member
              rcases List.mem_cons.mp member with here | old
              · exact here ▸ fits
              · exact absent other old

/-- The walk of `kmalloc_grow` ends at the last chunk. -/
theorem lastChunk_spec {memory : Memory} {before : List Chunk} {last : Chunk} {prev bound : Nat}
    (links : Links memory prev (before ++ [last]) 0)
    (nonzero : ∀ chunk ∈ before ++ [last], chunk.address ≠ 0)
    (enough : (before ++ [last]).length ≤ bound) :
    lastChunk memory bound (headAddress Chunk.address 0 (before ++ [last])) = some last.address := by
  induction before generalizing prev bound with
  | nil =>
      cases bound with
      | zero => simp at enough
      | succ bound =>
          have header := links.1
          simp [lastChunk, header.next]
  | cons chunk rest ih =>
      cases bound with
      | zero => simp at enough
      | succ bound =>
          obtain ⟨header, later⟩ := links
          have target : headAddress Chunk.address 0 (rest ++ [last]) ≠ 0 := by
            cases rest with
            | nil => exact nonzero last (by simp)
            | cons other others => exact nonzero other (by simp)
          have next : get memory chunk.address .next =
              headAddress Chunk.address 0 (rest ++ [last]) := header.next
          have step : lastChunk memory (bound + 1)
              (headAddress Chunk.address 0 (chunk :: rest ++ [last])) =
              lastChunk memory bound (headAddress Chunk.address 0 (rest ++ [last])) := by
            rw [List.cons_append, headAddress_cons, lastChunk, next, if_pos target]
          rw [step]
          apply ih later (fun other member => nonzero other (List.mem_cons_of_mem _ member))
          simpa using enough

/-- Rounding up to a power of two clears the low bits of a sum that can wrap. -/
theorem alignUp_word (value shift : Nat) (small : shift ≤ 64) :
    alignUp value (2 ^ shift) = add64 value (2 ^ shift - 1) / 2 ^ shift * 2 ^ shift := by
  have split : 2 ^ 64 = 2 ^ (64 - shift) * 2 ^ shift := by
    rw [← Nat.pow_add]
    congr 1
    omega
  have positive : 0 < 2 ^ shift := Nat.two_pow_pos shift
  have mask : 2 ^ 64 - 1 - (2 ^ shift - 1) = (2 ^ (64 - shift) - 1) <<< shift := by
    rw [Nat.shiftLeft_eq, Nat.sub_mul, ← split]
    omega
  have quotient : add64 value (2 ^ shift - 1) / 2 ^ shift < 2 ^ (64 - shift) := by
    apply Nat.div_lt_of_lt_mul
    rw [Nat.mul_comm, ← split]
    exact add64_lt _ _
  rw [alignUp, mask, and_mask, Nat.mod_eq_of_lt quotient]

/-- Without a wrap, rounding up to a power of two reaches the next multiple. -/
theorem alignUp_eq (value shift : Nat) (small : shift ≤ 64) (fits : value + (2 ^ shift - 1) < 2 ^ 64) :
    alignUp value (2 ^ shift) = (value + (2 ^ shift - 1)) / 2 ^ shift * 2 ^ shift := by
  rw [alignUp_word value shift small, add64_eq fits]

/-- A request needs an aligned chunk with room for its header. -/
theorem requiredLength_spec {size : Nat} (positive : 1 ≤ size) (bounded : size ≤ 2 ^ 64 - 48) :
    requiredLength size % 16 = 0 ∧ 48 ≤ requiredLength size ∧
      size + headerSize ≤ requiredLength size ∧ requiredLength size < size + 48 ∧
      requiredLength size < 2 ^ 64 := by
  have aligned : alignUp size kmallocAlignment = (size + 15) / 16 * 16 :=
    alignUp_eq size 4 (by decide) (by omega)
  have value : requiredLength size = (size + 15) / 16 * 16 + 32 := by
    rw [requiredLength, aligned]
    exact add64_eq (by unfold headerSize; omega)
  rw [value]
  unfold headerSize
  omega

/-- The largest requests wrap around and need almost nothing. -/
theorem requiredLength_wraps {size : Nat} (above : 2 ^ 64 - 48 < size) (word : size < 2 ^ 64) :
    requiredLength size ≤ 32 := by
  have aligned : alignUp size kmallocAlignment = add64 size 15 / 16 * 16 :=
    alignUp_word size 4 (by decide)
  rw [requiredLength, aligned]
  unfold add64 headerSize
  omega

/-- The heap grows by what is required and by 64 KiB at least. -/
theorem growSize_ge (required : Nat) : required ≤ growSize required ∧ 65536 ≤ growSize required := by
  unfold growSize pageSize
  split <;> omega

/-- A growth step covers the request with whole pages. -/
theorem growBytes_spec {required : Nat} (fits : growSize required + 4095 < 2 ^ 64) :
    alignUp (growSize required) pageSize / pageSize * pageSize =
        alignUp (growSize required) pageSize ∧
      alignUp (growSize required) pageSize % 16 = 0 ∧
      required ≤ alignUp (growSize required) pageSize ∧
      48 ≤ alignUp (growSize required) pageSize := by
  obtain ⟨covers, large⟩ := growSize_ge required
  have aligned : alignUp (growSize required) pageSize = (growSize required + 4095) / 4096 * 4096 :=
    alignUp_eq (growSize required) 12 (by decide) fits
  rw [aligned]
  unfold pageSize
  omega

/-- A growth step that wraps around asks for no page. -/
theorem growBytes_wraps {required : Nat} (word : required < 2 ^ 64)
    (wraps : 2 ^ 64 ≤ growSize required + 4095) : alignUp (growSize required) pageSize = 0 := by
  have small : growSize required < 2 ^ 64 := by
    unfold growSize pageSize
    split <;> omega
  have aligned : alignUp (growSize required) pageSize = add64 (growSize required) 4095 / 4096 * 4096 :=
    alignUp_word (growSize required) 12 (by decide)
  rw [aligned]
  unfold add64
  omega

end ArchaOS.KernelHeap
