import ArchaOS.Proof.KernelHeap.Representation

namespace ArchaOS.KernelHeap

open Library

/-- A block that a client owns: the pointer that `kmalloc` returned and the requested size. -/
structure Block where
  ptr : Nat
  size : Nat
  deriving DecidableEq, Repr

def Block.Covers (block : Block) (address : Nat) : Prop :=
  block.ptr ≤ address ∧ address < block.ptr + block.size

/-- The heap together with the blocks that clients own. -/
structure Session where
  heap : Heap
  live : List Block

/-- What clients do: they call the allocator and store bytes. -/
inductive Action where
  | kmalloc (size : Nat) (granted : Bool)
  | kfree (ptr : Nat)
  | store (address : Nat) (value : UInt8)
  deriving DecidableEq, Repr

/-- The session after an action; `none` stands for a call that does not return. -/
def Session.act : Option Session → Action → Option Session
  | none, _ => none
  | some session, .kmalloc size granted =>
      (KernelHeap.kmalloc size granted session.heap).map fun result =>
        ⟨result.2, if result.1 = 0 then session.live else ⟨result.1, size⟩ :: session.live⟩
  | some session, .kfree ptr =>
      some ⟨KernelHeap.kfree ptr session.heap, session.live.filter fun block => block.ptr ≠ ptr⟩
  | some session, .store address value =>
      some { session with
        heap := { session.heap with memory := session.heap.memory.fill address 1 value } }

/-- Clients ask for sizes up to `2 ^ 62`, free live pointers and store into blocks they own. -/
def Session.Legal : Option Session → Action → Prop
  | none, _ => False
  | some _, .kmalloc size _ => 1 ≤ size ∧ size ≤ 2 ^ 62
  | some session, .kfree ptr => ∃ block ∈ session.live, block.ptr = ptr
  | some session, .store address _ => ∃ block ∈ session.live, block.Covers address

/-- The action frees no chunk whose two neighbours are free. -/
def Session.SparesBetween : Option Session → Action → Prop
  | some session, .kfree ptr => ¬ BetweenFree session.heap.memory (sub64 ptr headerSize)
  | _, _ => True

instance : ∀ state action, Decidable (Session.SparesBetween state action)
  | some session, .kfree ptr =>
      inferInstanceAs (Decidable (¬ BetweenFree session.heap.memory (sub64 ptr headerSize)))
  | none, _ => .isTrue trivial
  | some _, .kmalloc _ _ => .isTrue trivial
  | some _, .store _ _ => .isTrue trivial

/-- A chunk header that the `next` links reach from a pointer. -/
inductive Reachable (memory : Memory) (head : Nat) : Nat → Prop
  | first : head ≠ 0 → Reachable memory head head
  | next {chunk : Nat} : Reachable memory head chunk → get memory chunk .next ≠ 0 →
      Reachable memory head (get memory chunk .next)

/-- The live blocks are disjoint, lie inside the heap and contain no reachable header. -/
structure Isolated (session : Session) : Prop where
  disjoint : session.live.Pairwise fun left right =>
    ∀ address, ¬ (left.Covers address ∧ right.Covers address)
  inside : ∀ block ∈ session.live, session.heap.heapStart ≤ block.ptr ∧
    block.ptr + block.size ≤ session.heap.heapEnd
  headers : ∀ block ∈ session.live, ∀ chunk,
    Reachable session.heap.memory session.heap.head chunk → ∀ address, block.Covers address →
      ¬ (chunk ≤ address ∧ address < chunk + headerSize)

/-- A call keeps every byte of the blocks that are live before and after it. -/
def Session.KeepsPayloads : Option Session → Action → Prop
  | some _, .store _ _ => True
  | some session, call => ∀ after, Session.act (some session) call = some after →
      ∀ block ∈ session.live, block ∈ after.live → ∀ address, block.Covers address →
        after.heap.memory.byte address = session.heap.memory.byte address
  | none, _ => True

/-- The chunk that serves a block. -/
def Serves (block : Block) (chunk : Chunk) : Prop :=
  chunk.free = false ∧ block.ptr = chunk.address + headerSize ∧
    block.size + headerSize ≤ chunk.length

/-- The heap is in shape and every live block has a used chunk of its own. -/
structure Tracked (session : Session) (chunks : List Chunk) : Prop where
  shape : Shape session.heap chunks
  served : ∀ block ∈ session.live, ∃ chunk ∈ chunks, Serves block chunk
  distinct : session.live.Pairwise fun left right => left.ptr ≠ right.ptr

/-- The bytes of a block lie in its chunk, behind the header. -/
theorem Serves.covers {block : Block} {chunk : Chunk} {address : Nat} (serves : Serves block chunk)
    (covers : block.Covers address) :
    chunk.address + headerSize ≤ address ∧ address < chunk.address + chunk.length := by
  obtain ⟨_, pointer, room⟩ := serves
  obtain ⟨low, high⟩ := covers
  omega

/-- Every reachable header is the header of a listed chunk. -/
theorem reachable_listed {memory : Memory} {first chunk : Nat} {chunks : List Nat}
    (reaches : Reaches memory first chunks) (reachable : Reachable memory first chunk) :
    chunk ∈ chunks := by
  have closed : ∀ (first : Nat) (chunks : List Nat), Reaches memory first chunks →
      ∀ chunk ∈ chunks, get memory chunk .next ≠ 0 → get memory chunk .next ∈ chunks := by
    intro first chunks
    induction chunks generalizing first with
    | nil => simp
    | cons here rest ih =>
        intro reaches chunk member linked
        obtain ⟨_, _, later⟩ := reaches
        rcases List.mem_cons.mp member with same | old
        · subst same
          cases rest with
          | nil => exact absurd later linked
          | cons other others => simp [later.1]
        · exact List.mem_cons_of_mem _ (ih _ later chunk old linked)
  induction reachable with
  | first present =>
      cases chunks with
      | nil => exact absurd reaches present
      | cons other others => simp [reaches.1]
  | next _ linked ih => exact closed first chunks reaches _ ih linked

/-- Tracked blocks do not overlap and lie in used chunks. -/
theorem Tracked.isolated {session : Session} {chunks : List Chunk}
    (tracked : Tracked session chunks) : Isolated session := by
  have shape := tracked.shape
  refine ⟨?_, ?_, ?_⟩
  · apply tracked.distinct.imp_of_mem
    intro left right leftMember rightMember different address both
    obtain ⟨first, firstMember, firstServes⟩ := tracked.served left leftMember
    obtain ⟨second, secondMember, secondServes⟩ := tracked.served right rightMember
    have low := firstServes.covers both.1
    have high := secondServes.covers both.2
    have distinct : first ≠ second := by
      intro same
      apply different
      rw [firstServes.2.1, secondServes.2.1, same]
    have apart := tiles_apart shape.tiles shape.sized firstMember secondMember distinct
    omega
  · intro block member
    obtain ⟨chunk, present, _, pointer, room⟩ := tracked.served block member
    have inside := (tiling_bounds shape.tiles).2 chunk present
    omega
  · intro block member address reachable byte covers overlap
    obtain ⟨chunk, present, serves⟩ := tracked.served block member
    obtain ⟨low, high⟩ := serves.covers covers
    have listed := reachable_listed shape.reaches reachable
    obtain ⟨other, otherMember, same⟩ := List.mem_map.mp listed
    have outside := payload_outsideHeaders shape.tiles shape.sized present low high other otherMember
    omega

/-- A store into a live block reaches no header. -/
theorem Tracked.store {session : Session} {chunks : List Chunk} {block : Block} {address : Nat}
    (tracked : Tracked session chunks) (member : block ∈ session.live) (covers : block.Covers address)
    (value : UInt8) :
    Tracked { session with
      heap := { session.heap with memory := session.heap.memory.fill address 1 value } } chunks := by
  obtain ⟨chunk, present, serves⟩ := tracked.served block member
  obtain ⟨low, high⟩ := serves.covers covers
  refine ⟨tracked.shape.rewrite present ?_, tracked.served, tracked.distinct⟩
  intro other _ outside
  exact Memory.fill_outside (by omega)

/-- A request of a client keeps the blocks and adds the returned one. -/
theorem Tracked.kmalloc {session : Session} {chunks : List Chunk} {size : Nat} (granted : Bool)
    (tracked : Tracked session chunks) (positive : 1 ≤ size) (bounded : size ≤ 2 ^ 62) :
    ∃ after chunks', Session.act (some session) (.kmalloc size granted) = some after ∧
      Tracked after chunks' ∧ ∀ block ∈ session.live, ∀ address, block.Covers address →
        after.heap.memory.byte address = session.heap.memory.byte address := by
  obtain ⟨pointer, heap, chunks', result, moves, allocated⟩ :=
    kmalloc_moves granted tracked.shape positive bounded
  have kept : ∀ block ∈ session.live, ∃ chunk ∈ chunks', Serves block chunk := by
    intro block member
    obtain ⟨chunk, present, serves⟩ := tracked.served block member
    exact ⟨chunk, moves.used chunk present serves.1 trivial, serves⟩
  refine ⟨⟨heap, if pointer = 0 then session.live else ⟨pointer, size⟩ :: session.live⟩, chunks', ?_, ?_, ?_⟩
  · simp [Session.act, result]
  · by_cases null : pointer = 0
    · rw [if_pos null]
      exact ⟨moves.shape, kept, tracked.distinct⟩
    · rw [if_neg null]
      obtain ⟨chunk, present, used, payload, room, fresh⟩ := allocated.resolve_left null
      refine ⟨moves.shape, ?_, ?_⟩
      · intro block member
        rcases List.mem_cons.mp member with here | old
        · subst here
          exact ⟨chunk, present, used, payload, room⟩
        · exact kept block old
      · apply List.pairwise_cons.mpr
        refine ⟨?_, tracked.distinct⟩
        intro block member same
        obtain ⟨other, otherMember, otherUsed, otherPointer, _⟩ := tracked.served block member
        apply fresh other otherMember otherUsed
        dsimp only at same
        omega
  · intro block member address covers
    obtain ⟨chunk, present, serves⟩ := tracked.served block member
    obtain ⟨low, high⟩ := serves.covers covers
    exact moves.bytes chunk present serves.1 trivial address low high

/-- A free of a client keeps the other blocks. -/
theorem Tracked.kfree {session : Session} {chunks : List Chunk} {block : Block}
    (tracked : Tracked session chunks) (member : block ∈ session.live)
    (spares : ¬ BetweenFree session.heap.memory (sub64 block.ptr headerSize)) :
    ∃ after chunks', Session.act (some session) (.kfree block.ptr) = some after ∧
      Tracked after chunks' ∧ ∀ other ∈ session.live, other ∈ after.live → ∀ address,
        other.Covers address → after.heap.memory.byte address = session.heap.memory.byte address := by
  obtain ⟨chunk, present, serves⟩ := tracked.served block member
  obtain ⟨before, rest, whole⟩ := List.append_of_mem present
  subst whole
  obtain ⟨_, address⟩ := tracked.shape.payload_chunk present
  rw [serves.2.1, address, tracked.shape.betweenFree_iff] at spares
  obtain ⟨chunks', moves⟩ := kfree_moves tracked.shape serves.1 spares
  have apart : ∀ other ∈ session.live, other.ptr ≠ block.ptr → ∀ otherChunk, Serves other otherChunk →
      otherChunk ≠ chunk := by
    intro other otherMember different otherChunk otherServes same
    apply different
    rw [serves.2.1, otherServes.2.1, same]
  rw [serves.2.1] at apart ⊢
  generalize chunk.address + headerSize = pointer at apart moves ⊢
  refine ⟨⟨KernelHeap.kfree pointer session.heap, session.live.filter fun entry => entry.ptr ≠ pointer⟩,
    chunks', rfl, ⟨moves.shape, ?_, ?_⟩, ?_⟩
  · intro other otherMember
    obtain ⟨old, different⟩ := List.mem_filter.mp otherMember
    obtain ⟨otherChunk, otherPresent, otherServes⟩ := tracked.served other old
    refine ⟨otherChunk, moves.used otherChunk otherPresent otherServes.1 ?_, otherServes⟩
    exact apart other old (by simpa using different) otherChunk otherServes
  · exact tracked.distinct.filter _
  · intro other old otherMember byte covers
    have different := (List.mem_filter.mp otherMember).2
    obtain ⟨otherChunk, otherPresent, otherServes⟩ := tracked.served other old
    obtain ⟨low, high⟩ := otherServes.covers covers
    exact moves.bytes otherChunk otherPresent otherServes.1
      (apart other old (by simpa using different) otherChunk otherServes) byte low high

def InTrack (state : Option Session) : Prop :=
  ∃ session chunks, state = some session ∧ Tracked session chunks

/-- An action that spares chunks between free neighbours keeps track of the blocks and keeps their
bytes. -/
theorem inTrack_act {state : Option Session} {action : Action} (inside : InTrack state)
    (legal : Session.Legal state action) (spares : Session.SparesBetween state action) :
    InTrack (Session.act state action) ∧ Session.KeepsPayloads state action := by
  obtain ⟨session, chunks, same, tracked⟩ := inside
  subst same
  cases action with
  | kmalloc size granted =>
      obtain ⟨after, chunks', result, next, bytes⟩ := tracked.kmalloc granted legal.1 legal.2
      refine ⟨⟨after, chunks', result, next⟩, ?_⟩
      intro other found block member _ address covers
      rw [result] at found
      rw [← Option.some.inj found]
      exact bytes block member address covers
  | kfree ptr =>
      obtain ⟨block, member, pointer⟩ := legal
      subst pointer
      obtain ⟨after, chunks', result, next, bytes⟩ := tracked.kfree member spares
      refine ⟨⟨after, chunks', result, next⟩, ?_⟩
      intro other found entry old kept address covers
      rw [result] at found
      rw [← Option.some.inj found] at kept ⊢
      exact bytes entry old kept address covers
  | store address value =>
      obtain ⟨block, member, covers⟩ := legal
      exact ⟨⟨_, chunks, rfl, tracked.store member covers value⟩, trivial⟩

/-- At first no block is live. -/
theorem Tracked.initial (heap : Heap) (positive : 0 < heap.nextVirt) :
    Tracked ⟨kmallocInit heap, []⟩ [] where
  shape := Shape.initial heap positive
  served := by simp
  distinct := List.Pairwise.nil

/-- As long as no action frees a chunk between two free chunks, the live blocks stay isolated and
no call changes their bytes. -/
theorem isolated_run (heap : Heap) (positive : 0 < heap.nextVirt) (actions : List Action)
    (legal : Guarded Session.act Session.Legal (some ⟨kmallocInit heap, []⟩) actions)
    (spares : Guarded Session.act Session.SparesBetween (some ⟨kmallocInit heap, []⟩) actions) :
    (∀ reached ∈ visited Session.act (some ⟨kmallocInit heap, []⟩) actions,
      ∃ session, reached = some session ∧ Isolated session) ∧
      Guarded Session.act Session.KeepsPayloads (some ⟨kmallocInit heap, []⟩) actions := by
  have start : InTrack (some ⟨kmallocInit heap, []⟩) := ⟨_, [], rfl, Tracked.initial heap positive⟩
  have both := guarded_and.mpr ⟨legal, spares⟩
  have keeps (state : Option Session) (action : Action) (inside : InTrack state)
      (allowed : Session.Legal state action ∧ Session.SparesBetween state action) :=
    inTrack_act inside allowed.1 allowed.2
  constructor
  · intro reached member
    obtain ⟨session, chunks, same, tracked⟩ := visited_invariant
      (fun state action inside allowed => (keeps state action inside allowed).1) start both reached member
    exact ⟨session, same, tracked.isolated⟩
  · exact guarded_mono (fun state action inside allowed => (keeps state action inside allowed).1)
      (fun state action inside allowed => (keeps state action inside allowed).2) start both

/-- Two blocks are allocated, one is written to and the other freed. -/
theorem isolated_run_pair :
    let actions := [.kmalloc 16 true, .kmalloc 16 true, .store 4128 7, .kfree 4176]
    let start := some ⟨kmallocInit bareHeap, []⟩
    Guarded Session.act Session.Legal start actions ∧
      Guarded Session.act Session.SparesBetween start actions ∧
      (∀ reached ∈ visited Session.act start actions,
        ∃ session, reached = some session ∧ Isolated session) ∧
      Guarded Session.act Session.KeepsPayloads start actions := by
  have legal : Guarded Session.act Session.Legal (some ⟨kmallocInit bareHeap, []⟩)
      [.kmalloc 16 true, .kmalloc 16 true, .store 4128 7, .kfree 4176] :=
    ⟨⟨by decide, by decide⟩, ⟨by decide, by decide⟩,
      ⟨⟨4128, 16⟩, by decide +kernel, by unfold Block.Covers; decide⟩,
      ⟨⟨4176, 16⟩, by decide +kernel, rfl⟩, trivial⟩
  have spares : Guarded Session.act Session.SparesBetween (some ⟨kmallocInit bareHeap, []⟩)
      [.kmalloc 16 true, .kmalloc 16 true, .store 4128 7, .kfree 4176] :=
    by decide +kernel
  exact ⟨legal, spares, isolated_run bareHeap (by decide) _ legal spares⟩

/-- A stale header inside a live block receives a back link when the block behind it is freed. -/
theorem isolated_run_fails :
    let actions := [.kmalloc 16 true, .kmalloc 16 true, .kmalloc 16 true, .kmalloc 16 true,
      .kfree 4128, .kfree 4224, .kfree 4176, .kmalloc 64 true, .kfree 4272]
    let start := some ⟨kmallocInit bareHeap, []⟩
    Guarded Session.act Session.Legal start actions ∧
      ¬ ((∀ reached ∈ visited Session.act start actions,
          ∃ session, reached = some session ∧ Isolated session) ∧
        Guarded Session.act Session.KeepsPayloads start actions) := by
  dsimp only
  refine ⟨⟨⟨by decide, by decide⟩, ⟨by decide, by decide⟩, ⟨by decide, by decide⟩,
    ⟨by decide, by decide⟩, ⟨⟨4128, 16⟩, by decide +kernel, rfl⟩, ⟨⟨4224, 16⟩, by decide +kernel, rfl⟩,
    ⟨⟨4176, 16⟩, by decide +kernel, rfl⟩, ⟨by decide, by decide⟩,
    ⟨⟨4272, 16⟩, by decide +kernel, rfl⟩, trivial⟩, ?_⟩
  intro claim
  obtain ⟨_, _, _, _, _, _, _, _, keeps, _⟩ := claim.2
  have same := keeps _ rfl ⟨4128, 64⟩ (by decide +kernel) (by decide +kernel) 4152 (by unfold Block.Covers; decide)
  revert same
  decide +kernel

end ArchaOS.KernelHeap
