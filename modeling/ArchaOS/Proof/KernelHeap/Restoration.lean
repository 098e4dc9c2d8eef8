import ArchaOS.Proof.KernelHeap.Representation

namespace ArchaOS.KernelHeap

open Library

/-- The heap holds exactly these chunks: they tile it, each header names its neighbours, and no two
neighbours are free. -/
structure Listing (heap : Heap) (chunks : List Chunk) : Prop where
  head : heap.head = headAddress Chunk.address 0 chunks
  links : Links heap.memory 0 chunks 0
  tiles : Tiles heap.heapStart chunks heap.heapEnd
  roomy : Roomy chunks
  coalesced : Coalesced chunks
  start : chunks ≠ [] → 0 < heap.heapStart
  stop : heap.heapEnd < 2 ^ 64

/-- A heap of some shape lists its chunks. -/
theorem Shape.listing {heap : Heap} {chunks : List Chunk} (shape : Shape heap chunks) :
    Listing heap chunks :=
  ⟨shape.head, shape.links, shape.tiles, shape.sized.roomy, shape.coalesced, shape.start, shape.stop⟩

/-- No listed chunk lies at address zero. -/
theorem Listing.nonzero {heap : Heap} {chunks : List Chunk} (listing : Listing heap chunks)
    {chunk : Chunk} (member : chunk ∈ chunks) : chunk.address ≠ 0 := by
  have positive := listing.start (List.ne_nil_of_mem member)
  have inside := (tiling_bounds listing.tiles).2 chunk member
  omega

/-- The listed chunks fit into the bound of a walk. -/
theorem Listing.few {heap : Heap} {chunks : List Chunk} (listing : Listing heap chunks) :
    chunks.length < walkBound := by
  have fits := tiling_length_le listing.tiles fun chunk member => by
    have size := listing.roomy chunk member
    unfold headerSize at size
    omega
  have stop := listing.stop
  unfold walkBound
  omega

/-- Chunks have room exactly when each of them has. -/
theorem roomy_split (before after : List Chunk) (chunk : Chunk) :
    Roomy (before ++ chunk :: after) ↔ Roomy before ∧ headerSize ≤ chunk.length ∧ Roomy after := by
  rw [Roomy, List.forall_mem_append, List.forall_mem_cons]
  rfl

section Restoring

variable {heap : Heap} {before after : List Chunk} {chunk : Chunk} {required : Nat}
  (listing : Listing heap (before ++ chunk :: after)) (free : chunk.free = true)
include listing free

/-- The neighbours of a free chunk are used. -/
theorem Listing.blocked : lastFree before = false ∧ headFree after = false := by
  obtain ⟨_, _, lastUsed, headUsed⟩ := (coalesced_split _ _ _).mp listing.coalesced
  refine ⟨?_, headUsed free⟩
  cases last : lastFree before with
  | false => rfl
  | true => exact absurd free (by simp [lastUsed last])

/-- Freeing a chunk that was taken whole marks it free again. -/
theorem whole_restored :
    ∃ memory, kfree (chunk.address + headerSize)
        { heap with memory := set heap.memory chunk.address .state stateUsed } =
          { heap with memory := memory } ∧
      Links memory 0 (before ++ chunk :: after) 0 := by
  obtain ⟨blockedBefore, blockedAfter⟩ := listing.blocked free
  have taken : Links (set heap.memory chunk.address .state stateUsed) 0
      (before ++ { chunk with free := false } :: after) 0 :=
    links_setState false listing.links listing.tiles listing.roomy
  have tiles : Tiles heap.heapStart (before ++ { chunk with free := false } :: after) heap.heapEnd :=
    (tiling_split _ _ _ _ _).mpr ((tiling_split _ _ _ _ chunk).mp listing.tiles)
  have roomy : Roomy (before ++ { chunk with free := false } :: after) :=
    (roomy_split _ _ _).mpr ((roomy_split _ _ chunk).mp listing.roomy)
  have same : chunk = { chunk with free := true } := by rw [← free]
  let marked : Heap := { heap with memory := set heap.memory chunk.address .state stateUsed }
  have links : Links marked.memory 0 (before ++ { chunk with free := false } :: after) 0 := taken
  obtain ⟨freed, result⟩ := kfree_apart links tiles roomy listing.stop rfl blockedBefore blockedAfter
  rw [same]
  exact ⟨_, result, freed⟩

/-- Freeing the first part of a cut chunk joins both parts again. -/
theorem cut_restored (cut : required + 2 * headerSize ≤ chunk.length) (large : headerSize ≤ required) :
    ∃ memory, kfree (chunk.address + headerSize)
        { heap with
          memory := set (ksplit heap.memory chunk.address required) chunk.address .state stateUsed } =
          { heap with memory := memory } ∧
      Links memory 0 (before ++ chunk :: after) 0 := by
  have size : headerSize = 32 := rfl
  have positive := listing.start (by simp)
  obtain ⟨blockedBefore, _⟩ := listing.blocked free
  obtain ⟨beforeTiles, afterTiles⟩ := (tiling_split _ _ _ _ _).mp listing.tiles
  obtain ⟨beforeRoomy, _, afterRoomy⟩ := (roomy_split _ _ _).mp listing.roomy
  have whole : required + (chunk.length - required) = chunk.length := by omega
  have tiles (flag : Bool) : Tiles heap.heapStart
      (before ++ ⟨chunk.address, required, flag⟩ ::
        ⟨chunk.address + required, chunk.length - required, true⟩ :: after) heap.heapEnd := by
    apply (tiling_split _ _ _ _ _).mpr
    refine ⟨beforeTiles, rfl, ?_⟩
    dsimp only
    rw [Nat.add_assoc, whole]
    exact afterTiles
  have roomy (flag : Bool) : Roomy (before ++ ⟨chunk.address, required, flag⟩ ::
      ⟨chunk.address + required, chunk.length - required, true⟩ :: after) := by
    apply (roomy_split _ _ _).mpr
    refine ⟨beforeRoomy, large, (roomy_split [] _ _).mpr ⟨by simp [Roomy], ?_, afterRoomy⟩⟩
    dsimp only
    omega
  obtain ⟨split, _⟩ := ksplit_links listing.links listing.tiles listing.roomy positive listing.stop cut
    large
  have taken := links_setState false split (tiles chunk.free) (roomy chunk.free)
  let shortened : Heap := { heap with
    memory := set (ksplit heap.memory chunk.address required) chunk.address .state stateUsed }
  have links : Links shortened.memory 0 (before ++ ⟨chunk.address, required, false⟩ ::
      ⟨chunk.address + required, chunk.length - required, true⟩ :: after) 0 := taken
  obtain ⟨marked, result⟩ := kfree_ahead links (tiles false) (roomy false) listing.stop rfl blockedBefore
  obtain ⟨joined, _⟩ := kmergeNext_links marked (tiles true) (roomy true) positive listing.stop rfl rfl
  have same : chunk = ⟨chunk.address, required + (chunk.length - required), true⟩ := by
    rw [whole, ← free]
  rw [← same] at joined
  exact ⟨_, result, joined⟩

/-- Freeing a chunk that the end of `kmalloc` has just taken restores the list. -/
theorem takeChunk_restored (large : headerSize ≤ required)
    (bounded : required + 2 * headerSize < 2 ^ 64) :
    ∃ memory, kfree (chunk.address + headerSize) (takeChunk required chunk.address heap).2 =
        { heap with memory := memory } ∧
      Listing { heap with memory := memory } (before ++ chunk :: after) := by
  obtain ⟨_, _, _, high⟩ := tiles_around listing.tiles listing.roomy
  have room := listing.roomy chunk (by simp)
  have stop := listing.stop
  obtain ⟨_, header, _⟩ := (segment_split _ _ _ _ _).mp listing.links
  rw [takeChunk_writes header (by omega) bounded]
  dsimp only
  by_cases cut : required + 2 * headerSize ≤ chunk.length
  · rw [if_pos cut]
    obtain ⟨memory, result, links⟩ := cut_restored listing free cut large
    exact ⟨memory, result, { listing with links := links }⟩
  · rw [if_neg cut]
    obtain ⟨memory, result, links⟩ := whole_restored listing free
    exact ⟨memory, result, { listing with links := links }⟩

end Restoring

/-- Freeing the pointer that `kmalloc` took from the chunks of the heap restores the list: the same
addresses, lengths, states and links. -/
theorem kmalloc_kfree {heap : Heap} {chunks : List Chunk} (granted : Bool) (size : Nat)
    (listing : Listing heap chunks) (positive : 1 ≤ size) (bounded : size ≤ 2 ^ 62)
    (fits : ∃ chunk ∈ chunks, chunk.Fits (requiredLength size)) :
    ∃ pointer taken memory, kmalloc size granted heap = some (pointer, taken) ∧ pointer ≠ 0 ∧
      kfree pointer taken = { heap with memory := memory } ∧
      Listing { heap with memory := memory } chunks := by
  obtain ⟨_, large, _, below, _⟩ := requiredLength_spec positive (bounded.trans (by decide))
  have roomy : requiredLength size + 2 * headerSize < 2 ^ 64 := by
    unfold headerSize
    omega
  rcases findChunk_spec (requiredLength size) listing.links (fun chunk member => listing.nonzero member)
    listing.few with ⟨before, chunk, after, split, free, _, _, found⟩ | ⟨absent, _⟩
  · subst split
    have present := listing.nonzero (show chunk ∈ _ by simp)
    obtain ⟨memory, freed, restored⟩ := takeChunk_restored listing free
      (Nat.le_trans (by decide) large) roomy
    obtain ⟨_, _, _, high⟩ := tiles_around listing.tiles listing.roomy
    have room := listing.roomy chunk (by simp)
    have stop := listing.stop
    obtain ⟨_, header, _⟩ := (segment_split _ _ _ _ _).mp listing.links
    refine ⟨chunk.address + headerSize, (takeChunk (requiredLength size) chunk.address heap).2, memory,
      ?_, by unfold headerSize; omega, freed, restored⟩
    have taken := takeChunk_writes header (by omega) roomy
    rw [← listing.head] at found
    rw [kmalloc, if_neg (by omega)]
    simp [found, present, taken]
  · obtain ⟨chunk, member, fit⟩ := fits
    exact absurd fit (absent chunk member)

/-- The heap after its first growth. -/
def grownHeap : Heap :=
  let memory := set bareHeap.memory 4096 .state stateFree
  let memory := set memory 4096 .length 65536
  let memory := set memory 4096 .next 0
  let memory := set memory 4096 .prev 0
  ⟨memory, 4096, 4096, 69632, 69632⟩

/-- A chunk is split for a block and merged again. -/
theorem kmalloc_kfree_first :
    let chunks := [⟨4096, 65536, true⟩]
    Listing grownHeap chunks ∧ (∃ chunk ∈ chunks, chunk.Fits (requiredLength 100)) ∧
      ∃ pointer taken memory, kmalloc 100 false grownHeap = some (pointer, taken) ∧ pointer ≠ 0 ∧
        kfree pointer taken = { grownHeap with memory := memory } ∧
        Listing { grownHeap with memory := memory } chunks := by
  have listing : Listing grownHeap [⟨4096, 65536, true⟩] :=
    (firstGrowth_shape bareHeap.memory (by decide) (by decide) (by decide) (by decide)).listing
  have fits : ∃ chunk ∈ [(⟨4096, 65536, true⟩ : Chunk)], chunk.Fits (requiredLength 100) :=
    ⟨_, List.mem_singleton.mpr rfl, by decide⟩
  exact ⟨listing, fits, kmalloc_kfree false 100 listing (by decide) (by decide) fits⟩

end ArchaOS.KernelHeap
