import ArchaOS.Proof.Demo.Frames
import ArchaOS.Proof.KernelHeap.Isolation

namespace ArchaOS.Demo

open Library Graphics KernelHeap
open Terminal (Font)

/-- Whatever is stored in live blocks and outside of the heap, the heap stays in shape. -/
theorem tracked_rewrite {session : Session} {chunks : List Chunk} {memory : Memory}
    (tracked : Tracked session chunks)
    (same : ∀ address, session.heap.heapStart ≤ address → address < session.heap.heapEnd →
      (∀ block ∈ session.live, ¬ block.Covers address) →
      memory.byte address = session.heap.memory.byte address) :
    Tracked ⟨{ session.heap with memory := memory }, session.live⟩ chunks := by
  have shape := tracked.shape
  refine ⟨{ shape with links := links_frame shape.links fun other otherMember field => ?_ },
    tracked.served, tracked.distinct⟩
  have inside := (tiling_bounds shape.tiles).2 other otherMember
  have room := shape.sized other otherMember
  apply get_congr
  intro address lower upper
  have size : headerSize = 32 := rfl
  refine same address (by omega) (by omega) ?_
  intro block member covers
  obtain ⟨chunk, present, serves⟩ := tracked.served block member
  obtain ⟨low, high⟩ := serves.covers covers
  have apart := payload_outsideHeaders shape.tiles shape.sized present low high other otherMember
  omega

/-- A request that is granted adds its block to the live ones. -/
theorem tracked_granted {session : Session} {chunks : List Chunk} {size pointer : Nat}
    {granted : Bool} {heap : Heap} (tracked : Tracked session chunks) (positive : 1 ≤ size)
    (bounded : size ≤ 2 ^ 62) (result : kmalloc size granted session.heap = some (pointer, heap))
    (given : pointer ≠ 0) :
    ∃ chunks', Tracked ⟨heap, ⟨pointer, size⟩ :: session.live⟩ chunks' ∧
      ∀ block ∈ session.live, ∀ address, block.Covers address →
        heap.memory.byte address = session.heap.memory.byte address := by
  obtain ⟨after, chunks', acted, next, bytes⟩ := tracked.kmalloc granted positive bounded
  rw [Session.act, result, Option.map_some, if_neg given] at acted
  rw [← Option.some.inj acted] at next bytes
  exact ⟨chunks', next, bytes⟩

/-- The two buffers of the show are live blocks of their own. -/
theorem allocateBuffers_tracked {session : Session} {chunks : List Chunk} {fbSize : Nat}
    {granted granted' : Bool} {backbufferAddr backgroundAddr : Nat} {heap : Heap}
    (tracked : Tracked session chunks) (bounded : fbSize ≤ 2 ^ 62)
    (allocated : allocateBuffers fbSize granted granted' session.heap =
      some (some (backbufferAddr, backgroundAddr), heap)) :
    ∃ chunks', Tracked ⟨heap, ⟨backgroundAddr, fbSize⟩ :: ⟨backbufferAddr, fbSize⟩ :: session.live⟩ chunks' ∧
      0 < fbSize ∧ ∀ block ∈ session.live, ∀ address, block.Covers address →
        heap.memory.byte address = session.heap.memory.byte address := by
  unfold allocateBuffers at allocated
  split at allocated
  · cases allocated
  · rename_i positive
    obtain ⟨⟨first, middle⟩, firstResult, allocated⟩ := Option.bind_eq_some_iff.mp allocated
    dsimp only at allocated
    split at allocated
    · cases allocated
    · rename_i firstGiven
      obtain ⟨⟨second, last⟩, secondResult, allocated⟩ := Option.bind_eq_some_iff.mp allocated
      dsimp only at allocated
      split at allocated
      · cases allocated
      · rename_i secondGiven
        cases allocated
        obtain ⟨_, firstTracked, firstBytes⟩ :=
          tracked_granted tracked (by omega) bounded firstResult firstGiven
        obtain ⟨chunks', secondTracked, secondBytes⟩ :=
          tracked_granted firstTracked (by omega) bounded secondResult secondGiven
        refine ⟨chunks', secondTracked, by omega, ?_⟩
        intro block member address covers
        rw [secondBytes block (List.mem_cons_of_mem _ member) address covers]
        exact firstBytes block member address covers

/-- After the show, the blocks of other clients hold what they held, and the heap is in shape. -/
structure Undisturbed (session : Session) (heap : Heap) (blocks : List Block) (memory : Memory) : Prop where
  bytes : ∀ block ∈ session.live, ∀ address, block.Covers address →
    memory.byte address = session.heap.memory.byte address
  isolated : Isolated ⟨{ heap with memory := memory }, blocks ++ session.live⟩

section Blocks

variable {session : Session} {chunks : List Chunk} {buffers : Buffers} {heap : Heap}
  (tracked : Tracked ⟨heap, ⟨buffers.backgroundAddr, buffers.fbSize⟩ ::
    ⟨buffers.backbufferAddr, buffers.fbSize⟩ :: session.live⟩ chunks)
  (below : buffers.framebuffer.address + buffers.fbSize ≤ heap.heapStart)
include tracked below

/-- Buffers in tracked blocks lie apart from each other. -/
theorem apart_of_tracked (proper : buffers.framebuffer.Proper) (positive : 0 < buffers.fbSize) :
    Apart buffers := by
  obtain ⟨disjoint, inside, _⟩ := tracked.isolated
  have background := inside _ List.mem_cons_self
  have backbuffer := inside _ (List.mem_cons_of_mem _ List.mem_cons_self)
  have first := (List.pairwise_cons.mp disjoint).1 _ List.mem_cons_self
  refine ⟨proper, ⟨by dsimp only at backbuffer; omega, by dsimp only at background; omega⟩, ?_⟩
  by_contra overlap
  refine first (max buffers.backgroundAddr buffers.backbufferAddr) ?_
  unfold Block.Covers
  dsimp only
  omega

/-- A memory that keeps the other bytes disturbs no live block. -/
theorem undisturbed_of_kept {memory : Memory} (kept : Kept buffers heap.memory memory)
    (bytes : ∀ block ∈ session.live, ∀ address, block.Covers address →
      heap.memory.byte address = session.heap.memory.byte address) :
    Undisturbed session heap [⟨buffers.backgroundAddr, buffers.fbSize⟩,
      ⟨buffers.backbufferAddr, buffers.fbSize⟩] memory := by
  obtain ⟨disjoint, inside, _⟩ := tracked.isolated
  obtain ⟨background, others⟩ := List.pairwise_cons.mp disjoint
  have backbuffer := (List.pairwise_cons.mp others).1
  constructor
  · intro block member address covers
    have place := inside block (List.mem_cons_of_mem _ (List.mem_cons_of_mem _ member))
    rw [← bytes block member address covers]
    refine kept.other address ?_ ?_ ?_
    · intro held
      have low := covers.1
      have high := held.2
      dsimp only at place
      omega
    · intro held
      exact backbuffer block member address ⟨held, covers⟩
    · intro held
      exact background block (List.mem_cons_of_mem _ member) address ⟨held, covers⟩
  · refine (tracked_rewrite tracked ?_).isolated
    intro address lower upper free
    refine kept.other address ?_ ?_ ?_
    · intro held
      have high := held.2
      dsimp only at lower
      omega
    · exact free _ (List.mem_cons_of_mem _ List.mem_cons_self)
    · exact free _ List.mem_cons_self

end Blocks

/-- The show on a heap in any state that clients can bring about. Whatever frames follow each other,
the screen ends with the last one alone: its edges in front of the picture that the screen had before
the show, and the report of this frame, which starts at the left edge from the second frame on. The
other blocks of the heap are left alone. -/
theorem showFrames_onHeap (first : Heap) (positive : 0 < first.nextVirt) (actions : List Action)
    (legal : Guarded Session.act Session.Legal (some ⟨kmallocInit first, []⟩) actions)
    (spares : Guarded Session.act Session.SparesBetween (some ⟨kmallocInit first, []⟩) actions)
    {session : Session} (reached : some session ∈ visited Session.act (some ⟨kmallocInit first, []⟩) actions)
    (buffers : Buffers) {granted granted' : Bool} {heap : Heap} (bounded : buffers.fbSize ≤ 2 ^ 62)
    (allocated : allocateBuffers buffers.fbSize granted granted' session.heap =
      some (some (buffers.backbufferAddr, buffers.backgroundAddr), heap))
    (proper : buffers.framebuffer.Proper)
    (below : buffers.framebuffer.address + buffers.fbSize ≤ heap.heapStart)
    (qemuTest : Nat) {fuel : Nat} (enough : 2 ^ 29 < fuel) (font : Font) (ticks : Nat)
    (frames : List Frame) (last : Frame)
    (near : ∀ frame ∈ frames ++ [last], Bounded frame.vertices) (cursorX cursorY : Nat) :
    ∃ after,
      showFrames buffers qemuTest fuel font ticks (frames ++ [last]) ⟨cursorX, cursorY, heap.memory⟩ =
        .ok after ∧
      Shown buffers font heap.memory ((frames.getLast?.map Frame.ticks).getD ticks)
        (if frames = [] then cursorX else 0) cursorY last after ∧
      Undisturbed session heap [⟨buffers.backgroundAddr, buffers.fbSize⟩,
        ⟨buffers.backbufferAddr, buffers.fbSize⟩] after.console.memory := by
  have start : InTrack (some ⟨kmallocInit first, []⟩) := ⟨_, [], rfl, Tracked.initial first positive⟩
  obtain ⟨_, chunks, same, tracked⟩ := visited_invariant
    (fun state action inside (allowed : Session.Legal state action ∧ Session.SparesBetween state action) =>
      (inTrack_act inside allowed.1 allowed.2).1) start (guarded_and.mpr ⟨legal, spares⟩) _ reached
  cases same
  obtain ⟨_, blocks, some, bytes⟩ := allocateBuffers_tracked tracked bounded allocated
  have apart := apart_of_tracked blocks below proper some
  obtain ⟨after, run, shown⟩ := apart.showFrames qemuTest enough font
    ⟨cursorX, cursorY, heap.memory⟩ ticks frames last near
  exact ⟨after, run, shown, undisturbed_of_kept blocks below (apart.shown_kept shown).1 bytes⟩

/-- Eight visible words of a screen below the heap, and the blocks behind the one of another client. -/
def smallBuffers : Buffers :=
  ⟨smallBuffer, 32, 4176, 4240, by decide, by decide, by decide, by decide⟩

/-- The vertices of one edge -/
def oneEdge : Vertices := fun vertex =>
  if vertex = 1 then some (0, 0) else if vertex = 2 then some (2, 1) else none

theorem oneEdge_bounded : Bounded oneEdge := by
  intro vertex place same
  unfold oneEdge at same
  unfold InRange
  split at same
  · cases same
    decide
  · split at same
    · cases same
      decide
    · cases same

/-- Another client has a block and has written to it. -/
def neighbour : List Action := [.kmalloc 16 true, .store 4130 9]

/-- Two frames next to the block of another client; the first one is empty. -/
theorem showFrames_onHeap_neighbour :
    let font : Font := ⟨fun _ => 0xFF, 1, 128, 1, 1, by decide, by decide⟩
    let start := some ⟨kmallocInit bareHeap, []⟩
    Guarded Session.act Session.Legal start neighbour ∧
      Guarded Session.act Session.SparesBetween start neighbour ∧
      ∃ session, neighbour.foldl Session.act start = some session ∧ session.live = [⟨4128, 16⟩] ∧
        ∃ heap, allocateBuffers 32 true true session.heap = some (some (4176, 4240), heap) ∧
        ∃ after, showFrames smallBuffers 0 (2 ^ 30) font 0 [⟨fun _ => none, 3⟩, ⟨oneEdge, 5⟩]
            ⟨1, 0, heap.memory⟩ = .ok after ∧
          Shown smallBuffers font heap.memory 3 0 0 ⟨oneEdge, 5⟩ after ∧
          Undisturbed session heap [⟨4240, 32⟩, ⟨4176, 32⟩] after.console.memory := by
  intro font start
  have legal : Guarded Session.act Session.Legal start neighbour :=
    ⟨⟨by decide, by decide⟩, ⟨⟨4128, 16⟩, by decide +kernel, by unfold Block.Covers; decide⟩, trivial⟩
  have spares : Guarded Session.act Session.SparesBetween start neighbour := by decide +kernel
  have answer : ((neighbour.foldl Session.act start).bind fun session =>
      (allocateBuffers 32 true true session.heap).map fun result =>
        (session.live, result.1, result.2.heapStart)) = some ([⟨4128, 16⟩], some (4176, 4240), 4096) := by
    decide +kernel
  obtain ⟨session, acted, answer⟩ := Option.bind_eq_some_iff.mp answer
  obtain ⟨⟨_, heap⟩, allocated, parts⟩ := Option.map_eq_some_iff.mp answer
  obtain ⟨live, parts⟩ := Prod.mk.inj parts
  obtain ⟨rfl, start⟩ := Prod.mk.inj parts
  have proper : smallBuffers.framebuffer.Proper := by
    unfold PixelBuffer.Proper
    decide
  have below : smallBuffers.framebuffer.address + smallBuffers.fbSize ≤ heap.heapStart := by
    dsimp only at start
    rw [start]
    decide
  have bounded : smallBuffers.fbSize ≤ 2 ^ 62 := by
    change 32 ≤ 2 ^ 62
    decide
  have near : ∀ frame ∈ [(⟨fun _ => none, 3⟩ : Frame)] ++ [⟨oneEdge, 5⟩], Bounded frame.vertices := by
    rw [List.forall_mem_append, List.forall_mem_singleton, List.forall_mem_singleton]
    exact ⟨(fun _ _ impossible => nomatch impossible), oneEdge_bounded⟩
  have reached := visited_last Session.act (some ⟨kmallocInit bareHeap, []⟩) neighbour
  rw [acted] at reached
  have shown := showFrames_onHeap bareHeap (by decide) neighbour legal spares reached smallBuffers bounded
    allocated proper below 0 (by decide : 2 ^ 29 < 2 ^ 30) font 0 [⟨fun _ => none, 3⟩] ⟨oneEdge, 5⟩ near 1 0
  exact ⟨legal, spares, session, acted, live, heap, allocated, shown⟩

end ArchaOS.Demo
