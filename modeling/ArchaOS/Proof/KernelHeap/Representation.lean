import ArchaOS.Library.Runs
import ArchaOS.Proof.KernelHeap.FirstFit
import ArchaOS.Proof.KernelHeap.Release

namespace ArchaOS.KernelHeap

open Library

/-- The `next` links lead from a pointer through these chunks to the null pointer. -/
def Reaches (memory : Memory) : Nat → List Nat → Prop
  | first, [] => first = 0
  | first, chunk :: rest => first = chunk ∧ chunk ≠ 0 ∧ Reaches memory (get memory chunk .next) rest

def reachesDecidable (memory : Memory) :
    (first : Nat) → (chunks : List Nat) → Decidable (Reaches memory first chunks)
  | first, [] => inferInstanceAs (Decidable (first = 0))
  | _, chunk :: rest =>
      haveI := reachesDecidable memory (get memory chunk .next) rest
      inferInstanceAs (Decidable (_ ∧ _ ∧ _))

instance (memory : Memory) (first : Nat) (chunks : List Nat) :
    Decidable (Reaches memory first chunks) := reachesDecidable memory first chunks

/-- The representation of the heap by the chunks that its head reaches. -/
structure Represents (heap : Heap) (chunks : List Nat) : Prop where
  reached : Reaches heap.memory heap.head chunks
  tiled : Tiling id (fun chunk => get heap.memory chunk .length) heap.heapStart chunks heap.heapEnd
  lengths : ∀ chunk ∈ chunks,
    get heap.memory chunk .length % 16 = 0 ∧ 48 ≤ get heap.memory chunk .length
  states : ∀ chunk ∈ chunks,
    get heap.memory chunk .state = stateFree ∨ get heap.memory chunk .state = stateUsed
  headPrev : heap.head ≠ 0 → get heap.memory heap.head .prev = 0
  backLinks : ∀ chunk ∈ chunks, get heap.memory chunk .next ≠ 0 →
    get heap.memory (get heap.memory chunk .next) .prev = chunk
  coalesced : ∀ chunk ∈ chunks, get heap.memory chunk .next ≠ 0 →
    ¬ (get heap.memory chunk .state = stateFree ∧
      get heap.memory (get heap.memory chunk .next) .state = stateFree)

def WellFormed (heap : Heap) : Prop := ∃ chunks, Represents heap chunks

/-- A pointer is the payload of a used chunk of the heap. -/
def LivePayload (heap : Heap) (ptr : Nat) : Prop :=
  ∃ chunks, Reaches heap.memory heap.head chunks ∧ ∃ chunk ∈ chunks,
    get heap.memory chunk .state = stateUsed ∧ ptr = chunk + headerSize

/-- The calls of a client; `granted` is the answer of `vallocs` if the call needs it. -/
inductive Call where
  | kmalloc (size : Nat) (granted : Bool)
  | kfree (ptr : Nat)
  deriving DecidableEq, Repr

/-- The heap after a call; `none` stands for a call that does not return. -/
def step : Option Heap → Call → Option Heap
  | none, _ => none
  | some heap, .kmalloc size granted => (kmalloc size granted heap).map Prod.snd
  | some heap, .kfree ptr => some (kfree ptr heap)

/-- The client asks for sizes up to `2 ^ 62` and frees live payloads or the null pointer. -/
def Legal : Option Heap → Call → Prop
  | none, _ => False
  | some _, .kmalloc size _ => 1 ≤ size ∧ size ≤ 2 ^ 62
  | some heap, .kfree ptr => ptr = 0 ∨ LivePayload heap ptr

/-- Both neighbours of a chunk are free. -/
def BetweenFree (memory : Memory) (chunk : Nat) : Prop :=
  (get memory chunk .prev ≠ 0 ∧ get memory (get memory chunk .prev) .state = stateFree) ∧
    get memory chunk .next ≠ 0 ∧ get memory (get memory chunk .next) .state = stateFree

instance (memory : Memory) (chunk : Nat) : Decidable (BetweenFree memory chunk) :=
  inferInstanceAs (Decidable (_ ∧ _))

/-- A call frees no chunk whose two neighbours are free. -/
def SparesBetween : Option Heap → Call → Prop
  | some heap, .kfree ptr => ptr ≠ 0 → ¬ BetweenFree heap.memory (sub64 ptr headerSize)
  | _, _ => True

/-- The links determine the chunks that they visit. -/
theorem reaches_unique {memory : Memory} {first : Nat} {left right : List Nat}
    (one : Reaches memory first left) (two : Reaches memory first right) : left = right := by
  induction left generalizing first right with
  | nil =>
      cases right with
      | nil => rfl
      | cons chunk rest => exact absurd (two.1.symm.trans one) two.2.1
  | cons chunk rest ih =>
      cases right with
      | nil => exact absurd (one.1.symm.trans two) one.2.1
      | cons other others =>
          have same : chunk = other := one.1.symm.trans two.1
          subst same
          rw [ih one.2.2 two.2.2]

/-- A linked segment is what its first pointer reaches. -/
theorem segment_reaches {memory : Memory} {holds : Chunk → Nat → Nat → Prop} {prev : Nat}
    {chunks : List Chunk} (segment : Segment Chunk.address holds prev chunks 0)
    (next : ∀ chunk ∈ chunks, ∀ left right, holds chunk left right →
      get memory chunk.address .next = right)
    (nonzero : ∀ chunk ∈ chunks, chunk.address ≠ 0) :
    Reaches memory (headAddress Chunk.address 0 chunks) (chunks.map Chunk.address) := by
  induction chunks generalizing prev with
  | nil => rfl
  | cons chunk rest ih =>
      refine ⟨rfl, nonzero chunk (by simp), ?_⟩
      rw [next chunk (by simp) _ _ segment.1]
      exact ih segment.2 (fun other member => next other (by simp [member]))
        fun other member => nonzero other (by simp [member])

/-- The links of a heap reach its chunks. -/
theorem Shape.reaches {heap : Heap} {chunks : List Chunk} (shape : Shape heap chunks) :
    Reaches heap.memory heap.head (chunks.map Chunk.address) := by
  rw [shape.head]
  exact segment_reaches shape.links (fun _ _ _ _ header => header.next)
    fun chunk member => shape.nonzero member

/-- The header of a listed chunk points to its neighbours. -/
theorem Shape.header {heap : Heap} {before after : List Chunk} {chunk : Chunk}
    (shape : Shape heap (before ++ chunk :: after)) :
    HeaderAt heap.memory chunk (lastAddress Chunk.address 0 before)
      (headAddress Chunk.address 0 after) :=
  ((segment_split _ _ _ _ _).mp shape.links).2.1

/-- The chunks of a heap tile it by the lengths in their headers. -/
theorem Shape.tiled {memory : Memory} {prev start stop : Nat} {chunks : List Chunk}
    (links : Links memory prev chunks 0) (tiles : Tiles start chunks stop) :
    Tiling id (fun chunk => get memory chunk .length) start (chunks.map Chunk.address) stop := by
  induction chunks generalizing prev start with
  | nil => exact tiles
  | cons chunk rest ih =>
      refine ⟨tiles.1, ?_⟩
      dsimp only
      rw [links.1.length]
      exact ih links.2 tiles.2

/-- The successor of a listed chunk is the next chunk of the list. -/
theorem Shape.next_cases {heap : Heap} {before after : List Chunk} {chunk : Chunk}
    (shape : Shape heap (before ++ chunk :: after)) :
    (after = [] ∧ get heap.memory chunk.address .next = 0) ∨
      ∃ right rest, after = right :: rest ∧ get heap.memory chunk.address .next = right.address ∧
        HeaderAt heap.memory right chunk.address (headAddress Chunk.address 0 rest) := by
  have links := ((segment_split _ _ _ _ _).mp shape.links).2.2
  cases after with
  | nil => exact Or.inl ⟨rfl, shape.header.next⟩
  | cons right rest => exact Or.inr ⟨right, rest, rfl, shape.header.next, links.1⟩

/-- A heap of some shape is well formed. -/
theorem Shape.wellFormed {heap : Heap} {chunks : List Chunk} (shape : Shape heap chunks) :
    WellFormed heap := by
  have split : ∀ address ∈ chunks.map Chunk.address, ∃ before chunk after,
      chunks = before ++ chunk :: after ∧ chunk.address = address := by
    intro address member
    obtain ⟨chunk, present, same⟩ := List.mem_map.mp member
    obtain ⟨before, after, whole⟩ := List.append_of_mem present
    exact ⟨before, chunk, after, whole, same⟩
  refine ⟨chunks.map Chunk.address, shape.reaches, Shape.tiled shape.links shape.tiles, ?_, ?_, ?_, ?_, ?_⟩
  · intro address member
    obtain ⟨before, chunk, after, whole, same⟩ := split address member
    subst whole same
    rw [shape.header.length]
    exact shape.sized chunk (by simp)
  · intro address member
    obtain ⟨before, chunk, after, whole, same⟩ := split address member
    subst whole same
    rw [shape.header.state, chunk.state_free_iff, chunk.state_used_iff]
    cases chunk.free <;> simp
  · intro present
    cases chunks with
    | nil => exact absurd shape.head present
    | cons chunk rest =>
        rw [shape.head]
        have listed : Shape heap ([] ++ chunk :: rest) := shape
        exact listed.header.prev
  · intro address member
    obtain ⟨before, chunk, after, whole, same⟩ := split address member
    subst whole same
    intro linked
    rcases shape.next_cases with ⟨_, last⟩ | ⟨right, rest, _, next, header⟩
    · exact absurd last linked
    · rw [next, header.prev]
  · intro address member
    obtain ⟨before, chunk, after, whole, same⟩ := split address member
    subst whole same
    intro linked both
    rcases shape.next_cases with ⟨_, last⟩ | ⟨right, rest, whole, next, header⟩
    · exact linked last
    · rw [next, shape.header.state, header.state, chunk.state_free_iff, right.state_free_iff] at both
      have apart := ((coalesced_split _ _ _).mp shape.coalesced).2.2.2 both.1
      rw [whole, headFree_cons, both.2] at apart
      simp at apart

/-- The predecessor of a listed chunk is the chunk before it. -/
theorem Shape.prev_cases {heap : Heap} {before after : List Chunk} {chunk : Chunk}
    (shape : Shape heap (before ++ chunk :: after)) :
    (before = [] ∧ get heap.memory chunk.address .prev = 0) ∨
      ∃ others left, before = others ++ [left] ∧ get heap.memory chunk.address .prev = left.address ∧
        get heap.memory left.address .state = left.state := by
  have back := shape.header.prev
  rcases before.eq_nil_or_concat with nil | ⟨others, left, same⟩
  · subst nil
    exact Or.inl ⟨rfl, back⟩
  · rw [List.concat_eq_append] at same
    subst same
    rw [lastAddress_append_singleton] at back
    have shifted : Shape heap (others ++ left :: chunk :: after) := by simpa using shape
    exact Or.inr ⟨others, left, rfl, back, shifted.header.state⟩

/-- The header words tell whether both neighbours of a listed chunk are free. -/
theorem Shape.betweenFree_iff {heap : Heap} {before after : List Chunk} {chunk : Chunk}
    (shape : Shape heap (before ++ chunk :: after)) :
    BetweenFree heap.memory chunk.address ↔ lastFree before = true ∧ headFree after = true := by
  have left : (get heap.memory chunk.address .prev ≠ 0 ∧
      get heap.memory (get heap.memory chunk.address .prev) .state = stateFree) ↔
      lastFree before = true := by
    rcases shape.prev_cases with ⟨empty, last⟩ | ⟨others, left, whole, prev, state⟩
    · simp [empty, last, lastFree]
    · have present := shape.nonzero (show left ∈ _ by simp [whole])
      rw [whole, prev, state, left.state_free_iff, lastFree_append_singleton]
      simp [present]
  have right : (get heap.memory chunk.address .next ≠ 0 ∧
      get heap.memory (get heap.memory chunk.address .next) .state = stateFree) ↔
      headFree after = true := by
    rcases shape.next_cases with ⟨empty, last⟩ | ⟨right, rest, whole, next, header⟩
    · simp [empty, last, headFree]
    · have present := shape.nonzero (show right ∈ _ by simp [whole])
      rw [whole, next, header.state, right.state_free_iff, headFree_cons]
      simp [present]
  rw [BetweenFree, left, right]

/-- A live payload belongs to a used chunk of the list. -/
theorem Shape.live_split {heap : Heap} {chunks : List Chunk} {ptr : Nat} (shape : Shape heap chunks)
    (live : LivePayload heap ptr) :
    ∃ before chunk after, chunks = before ++ chunk :: after ∧ chunk.free = false ∧
      ptr = chunk.address + headerSize := by
  obtain ⟨addresses, reached, address, member, used, pointer⟩ := live
  rw [reaches_unique reached shape.reaches] at member
  obtain ⟨chunk, present, same⟩ := List.mem_map.mp member
  obtain ⟨before, after, whole⟩ := List.append_of_mem present
  subst whole same
  rw [shape.header.state] at used
  exact ⟨before, chunk, after, rfl, chunk.state_used_iff.mp used, pointer⟩

/-- A payload pointer leads back to its chunk. -/
theorem Shape.payload_chunk {heap : Heap} {chunks : List Chunk} {chunk : Chunk}
    (shape : Shape heap chunks) (member : chunk ∈ chunks) :
    chunk.address + headerSize ≠ 0 ∧
      sub64 (chunk.address + headerSize) headerSize = chunk.address := by
  have size : headerSize = 32 := rfl
  have inside := (tiling_bounds shape.tiles).2 chunk member
  have room := shape.sized chunk member
  have bound := shape.stop
  refine ⟨by omega, ?_⟩
  rw [sub64_eq (by omega) (by omega)]
  omega

/-- The state between two calls: the heap is in shape. -/
def InShape (state : Option Heap) : Prop := ∃ heap chunks, state = some heap ∧ Shape heap chunks

/-- A legal call that spares the chunks between keeps a shape. -/
theorem inShape_step {state : Option Heap} {call : Call} (inside : InShape state)
    (legal : Legal state call) (spares : SparesBetween state call) : InShape (step state call) := by
  obtain ⟨heap, chunks, same, shape⟩ := inside
  subst same
  cases call with
  | kmalloc size granted =>
      obtain ⟨pointer, after, chunks', result, moves, _⟩ := kmalloc_moves granted shape legal.1 legal.2
      exact ⟨after, chunks', by simp [step, result], moves.shape⟩
  | kfree ptr =>
      rcases legal with null | live
      · exact ⟨heap, chunks, by simp [step, kfree, null], shape⟩
      · obtain ⟨before, chunk, after, whole, used, pointer⟩ := shape.live_split live
        subst whole pointer
        obtain ⟨present, address⟩ := shape.payload_chunk (show chunk ∈ _ by simp)
        have apart := spares present
        rw [address, shape.betweenFree_iff] at apart
        obtain ⟨chunks', moves⟩ := kfree_moves shape used apart
        exact ⟨_, chunks', rfl, moves.shape⟩

/-- Freeing a chunk between two free chunks leaves two free chunks side by side. -/
theorem kfree_between_breaks {heap : Heap} {before after : List Chunk} {chunk : Chunk}
    (shape : Shape heap (before ++ chunk :: after)) (used : chunk.free = false)
    (between : lastFree before = true ∧ headFree after = true) :
    ¬ WellFormed (kfree (chunk.address + headerSize) heap) := by
  obtain ⟨others, left, sameLeft, leftFree⟩ := lastFree_true between.1
  obtain ⟨right, rest, sameRight, rightFree⟩ := headFree_true between.2
  subst sameLeft sameRight
  rw [List.append_assoc, List.singleton_append] at shape
  obtain ⟨head, links⟩ := kfree_between shape used leftFree rightFree
  have leftPresent := shape.nonzero (show left ∈ _ by simp)
  have rightPresent := shape.nonzero (show right ∈ _ by simp)
  intro wellFormed
  obtain ⟨chunks, represents⟩ := wellFormed
  have walk := segment_reaches links (fun _ _ _ _ found => found.1) (by
    intro entry member
    rcases List.mem_append.mp member with old | later
    · exact shape.nonzero (by simp [old])
    · rcases List.mem_cons.mp later with here | last
      · rw [here]
        exact leftPresent
      · rcases List.mem_cons.mp last with same | behind
        · rw [same]
          exact rightPresent
        · exact shape.nonzero (by simp [behind]))
  have reached := represents.reached
  rw [head] at reached
  have same := reaches_unique reached walk
  obtain ⟨_, ⟨mergedNext, mergedState⟩, ⟨_, rightState⟩, _⟩ := (segment_split _ _ _ _ _).mp links
  have member : left.address ∈ chunks := by
    rw [same]
    simp
  apply represents.coalesced left.address member
  · rw [mergedNext]
    exact rightPresent
  · rw [mergedNext]
    exact ⟨mergedState, rightState.trans (right.state_free_iff.mpr rightFree)⟩

/-- A call that does not spare them leaves no well-formed heap. -/
theorem step_breaks {state : Option Heap} {call : Call} (inside : InShape state)
    (legal : Legal state call) (between : ¬ SparesBetween state call) :
    ¬ ∃ heap, step state call = some heap ∧ WellFormed heap := by
  obtain ⟨heap, chunks, same, shape⟩ := inside
  subst same
  cases call with
  | kmalloc size granted => exact absurd trivial between
  | kfree ptr =>
      rcases legal with null | live
      · exact absurd (fun present => absurd null present) between
      · obtain ⟨before, chunk, after, whole, used, pointer⟩ := shape.live_split live
        subst whole pointer
        obtain ⟨present, address⟩ := shape.payload_chunk (show chunk ∈ _ by simp)
        have free : BetweenFree heap.memory chunk.address := by
          by_contra apart
          apply between
          intro _
          rw [address]
          exact apart
        have broken := kfree_between_breaks shape used (shape.betweenFree_iff.mp free)
        intro found
        obtain ⟨heap', result, wellFormed⟩ := found
        rw [← Option.some.inj result] at wellFormed
        exact broken wellFormed

/-- The heap is well formed in every state of a run exactly if no call frees a chunk between two
free chunks. -/
theorem wellFormed_run_iff (heap : Heap) (positive : 0 < heap.nextVirt) (calls : List Call)
    (legal : Guarded step Legal (some (kmallocInit heap)) calls) :
    (∀ reached ∈ visited step (some (kmallocInit heap)) calls,
      ∃ heap, reached = some heap ∧ WellFormed heap) ↔
      Guarded step SparesBetween (some (kmallocInit heap)) calls := by
  have weaken (state : Option Heap) (inside : InShape state) :
      ∃ heap, state = some heap ∧ WellFormed heap := by
    obtain ⟨heap, chunks, same, shape⟩ := inside
    exact ⟨heap, same, shape.wellFormed⟩
  exact visited_iff_guarded weaken (fun _ _ => inShape_step) (fun _ _ => step_breaks)
    ⟨_, [], rfl, Shape.initial heap positive⟩ legal

/-- A heap whose first grant starts at the second page. -/
def bareHeap : Heap := ⟨⟨fun _ => 0⟩, 0, 0, 0, 0x1000⟩

/-- One block is allocated and freed. -/
theorem wellFormed_run_iff_single :
    let calls := [.kmalloc 16 true, .kfree 4128]
    0 < bareHeap.nextVirt ∧ Guarded step Legal (some (kmallocInit bareHeap)) calls ∧
      ((∀ reached ∈ visited step (some (kmallocInit bareHeap)) calls,
        ∃ heap, reached = some heap ∧ WellFormed heap) ↔
        Guarded step SparesBetween (some (kmallocInit bareHeap)) calls) := by
  have positive : 0 < bareHeap.nextVirt := by decide
  have legal : Guarded step Legal (some (kmallocInit bareHeap)) [.kmalloc 16 true, .kfree 4128] :=
    ⟨⟨by decide, by decide⟩, Or.inr ⟨[4096, 4144], by decide +kernel, 4096, by decide,
      by decide +kernel, rfl⟩, trivial⟩
  exact ⟨positive, legal, wellFormed_run_iff bareHeap positive _ legal⟩

/-- The second `kfree` of this run meets a free chunk on both sides. -/
theorem wellFormed_run_fails :
    let calls := [.kmalloc 16 true, .kmalloc 16 true, .kfree 4128, .kfree 4176]
    Guarded step Legal (some (kmallocInit bareHeap)) calls ∧
      ¬ ∀ reached ∈ visited step (some (kmallocInit bareHeap)) calls,
        ∃ heap, reached = some heap ∧ WellFormed heap := by
  refine ⟨⟨⟨by decide, by decide⟩, ⟨by decide, by decide⟩,
    Or.inr ⟨[4096, 4144, 4192], by decide +kernel, 4096, by decide, by decide +kernel, rfl⟩,
    Or.inr ⟨[4096, 4144, 4192], by decide +kernel, 4144, by decide, by decide +kernel, rfl⟩,
    trivial⟩, ?_⟩
  intro inside
  obtain ⟨heap, last, chunks, represents⟩ := inside
    (List.foldl step (some (kmallocInit bareHeap))
      [.kmalloc 16 true, .kmalloc 16 true, .kfree 4128, .kfree 4176])
    (by simp [visited])
  have heapSome : (List.foldl step (some (kmallocInit bareHeap))
      [.kmalloc 16 true, .kmalloc 16 true, .kfree 4128, .kfree 4176]).any (fun heap =>
        decide (Reaches heap.memory heap.head [4096, 4192] ∧ get heap.memory 4096 .next = 4192 ∧
          get heap.memory 4096 .state = stateFree ∧ get heap.memory 4192 .state = stateFree)) = true := by
    decide +kernel
  rw [last] at heapSome
  simp only [Option.any_some, decide_eq_true_eq] at heapSome
  obtain ⟨reached, next, left, right⟩ := heapSome
  have same := reaches_unique represents.reached reached
  apply represents.coalesced 4096 (by rw [same]; decide)
  · rw [next]
    decide
  · rw [next]
    exact ⟨left, right⟩

end ArchaOS.KernelHeap
