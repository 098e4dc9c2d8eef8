import ArchaOS.Proof.KernelHeap.Operations

namespace ArchaOS.KernelHeap

open Library

/-- `kfree` changes the state word before it merges. -/
theorem kfree_eq {heap : Heap} {chunk : Chunk} {prev next : Nat}
    (header : HeaderAt heap.memory chunk prev next) (used : chunk.free = false)
    (fits : chunk.address + headerSize < 2 ^ 64) :
    kfree (chunk.address + headerSize) heap =
      let memory := set heap.memory chunk.address .state stateFree
      let memory := if prev ≠ 0 then kmergeNext memory prev else memory
      { heap with memory := kmergeNext memory chunk.address } := by
  have size : headerSize = 32 := rfl
  have present : chunk.address + headerSize ≠ 0 := by omega
  have address : sub64 (chunk.address + headerSize) headerSize = chunk.address := by
    rw [sub64_eq (by omega) (by omega)]
    omega
  have state : get heap.memory chunk.address .state = stateUsed :=
    header.state.trans (chunk.state_used_iff.mpr used)
  have link (value : Nat) : get (set heap.memory chunk.address .state value) chunk.address .prev =
      prev := (get_set_field (by decide)).trans header.prev
  unfold kfree
  dsimp only
  rw [if_neg present, address, if_neg (fun other => other state), link]

section Freeing

variable {heap : Heap} {before after : List Chunk} {chunk : Chunk}

/-- Without a free predecessor the first merge of `kfree` does nothing. -/
theorem mergePrev_skip {memory : Memory} (links : Links memory 0 (before ++ chunk :: after) 0)
    (blocked : lastFree before = false) :
    (if lastAddress Chunk.address 0 before ≠ 0 then
      kmergeNext memory (lastAddress Chunk.address 0 before) else memory) = memory := by
  rcases before.eq_nil_or_concat with nil | ⟨others, left, same⟩
  · subst nil
    rfl
  · rw [List.concat_eq_append] at same
    subst same
    rw [lastAddress_append_singleton]
    rw [lastFree_append_singleton] at blocked
    have shifted : Links memory 0 (others ++ left :: chunk :: after) 0 := by simpa using links
    have header := ((segment_split _ _ _ _ _).mp shifted).2.1
    have skip := kmergeNext_skip memory left.address (Or.inl fun free => by
      rw [header.state, left.state_free_iff, blocked] at free
      simp at free)
    rw [skip, ite_self]

/-- Without a free successor `kmerge_next` does nothing. -/
theorem mergeNext_skip {memory : Memory} {address prev : Nat}
    (next : get memory address .next = headAddress Chunk.address 0 after)
    (links : Links memory prev after 0) (blocked : headFree after = false) :
    kmergeNext memory address = memory := by
  apply kmergeNext_skip
  right
  cases after with
  | nil => exact Or.inl next
  | cons right rest =>
      right
      have header := links.1
      rw [headFree_cons] at blocked
      intro free
      rw [next, headAddress_cons, header.state, right.state_free_iff, blocked] at free
      simp at free

/-- The used chunks other than the freed one stand before or after it. -/
theorem used_elsewhere {other : Chunk} (member : other ∈ before ++ chunk :: after)
    (different : other ≠ chunk) : other ∈ before ∨ other ∈ after := by
  rcases List.mem_append.mp member with old | rest
  · exact Or.inl old
  · rcases List.mem_cons.mp rest with here | later
    · exact absurd here different
    · exact Or.inr later

/-- The state word has no part in how the chunks cover the heap. -/
theorem tiles_freed {start stop : Nat} (tiles : Tiles start (before ++ chunk :: after) stop) :
    Tiles start (before ++ { chunk with free := true } :: after) stop := by
  apply (tiling_split _ _ _ _ _).mpr
  exact (tiling_split _ _ _ _ chunk).mp tiles

/-- Freeing a chunk keeps its size. -/
theorem sized_freed (sized : Sized (before ++ chunk :: after)) :
    Sized (before ++ { chunk with free := true } :: after) := by
  intro other member
  rcases List.mem_append.mp member with old | rest
  · exact sized other (by simp [old])
  · rcases List.mem_cons.mp rest with here | later
    · subst here
      exact sized chunk (by simp)
    · exact sized other (by simp [later])

/-- Two chunks cover the bytes of their union. -/
theorem tiles_merged {left right : Chunk} {free : Bool} (start stop : Nat)
    (tiles : Tiles start [left, right] stop) :
    Tiles start [⟨left.address, left.length + right.length, free⟩] stop := by
  obtain ⟨first, second, last⟩ := tiles
  refine ⟨first, ?_⟩
  change start + left.length + right.length = stop at last
  change start + (left.length + right.length) = stop
  omega

/-- Two chunks of the right sizes merge into one. -/
theorem sized_merged {left right : Chunk} {free : Bool} (sizedLeft : Sized [left])
    (sizedRight : Sized [right]) : Sized [⟨left.address, left.length + right.length, free⟩] := by
  intro other member
  have first := sizedLeft left (by simp)
  have second := sizedRight right (by simp)
  rw [List.mem_singleton.mp member]
  dsimp only
  omega

/-- Without a free predecessor `kfree` marks the chunk and merges it with its successor. -/
theorem kfree_ahead {start stop : Nat} (links : Links heap.memory 0 (before ++ chunk :: after) 0)
    (tiles : Tiles start (before ++ chunk :: after) stop) (roomy : Roomy (before ++ chunk :: after))
    (bound : stop < 2 ^ 64) (used : chunk.free = false) (blocked : lastFree before = false) :
    Links (set heap.memory chunk.address .state stateFree) 0
        (before ++ { chunk with free := true } :: after) 0 ∧
      kfree (chunk.address + headerSize) heap =
        { heap with
          memory := kmergeNext (set heap.memory chunk.address .state stateFree) chunk.address } := by
  obtain ⟨_, _, _, chunkHigh⟩ := tiles_around tiles roomy
  have room := roomy chunk (by simp)
  obtain ⟨_, header, _⟩ := (segment_split _ _ _ _ _).mp links
  have marked := links_setState true links tiles roomy
  have skipPrev := mergePrev_skip marked blocked
  simp only [Chunk.state, if_true] at marked skipPrev
  refine ⟨marked, ?_⟩
  rw [kfree_eq header used (by omega)]
  dsimp only
  rw [skipPrev]

/-- Without free neighbours `kfree` marks the chunk. -/
theorem kfree_apart {start stop : Nat} (links : Links heap.memory 0 (before ++ chunk :: after) 0)
    (tiles : Tiles start (before ++ chunk :: after) stop) (roomy : Roomy (before ++ chunk :: after))
    (bound : stop < 2 ^ 64) (used : chunk.free = false) (blockedBefore : lastFree before = false)
    (blockedAfter : headFree after = false) :
    Links (set heap.memory chunk.address .state stateFree) 0
        (before ++ { chunk with free := true } :: after) 0 ∧
      kfree (chunk.address + headerSize) heap =
        { heap with memory := set heap.memory chunk.address .state stateFree } := by
  obtain ⟨marked, freed⟩ := kfree_ahead links tiles roomy bound used blockedBefore
  obtain ⟨_, header, afterLinks⟩ := (segment_split _ _ _ _ _).mp marked
  have skipNext := mergeNext_skip header.next afterLinks blockedAfter
  dsimp only at skipNext
  rw [skipNext] at freed
  exact ⟨marked, freed⟩

/-- The freed chunk joins neither neighbour. -/
theorem kfree_alone (shape : Shape heap (before ++ chunk :: after)) (used : chunk.free = false)
    (blockedBefore : lastFree before = false) (blockedAfter : headFree after = false) :
    Moves heap (before ++ chunk :: after) (kfree (chunk.address + headerSize) heap)
      (before ++ { chunk with free := true } :: after) fun other => other ≠ chunk := by
  obtain ⟨beforeApart, afterApart, _, _⟩ := (coalesced_split _ _ _).mp shape.coalesced
  obtain ⟨marked, freed⟩ := kfree_apart shape.links shape.tiles shape.sized.roomy shape.stop used
    blockedBefore blockedAfter
  rw [freed]
  refine ⟨Shape.replace [chunk] [{ chunk with free := true }] shape marked
    (fun _ _ tiles => tiles) ?_ (by simp) (by simp) ?_, ?_, ?_⟩
  · intro other member
    rw [List.mem_singleton.mp member]
    exact shape.sized chunk (by simp)
  · apply (coalesced_split _ _ _).mpr
    exact ⟨beforeApart, afterApart, fun free => by simp [blockedBefore] at free, fun _ => blockedAfter⟩
  · intro other member _ different
    rcases used_elsewhere member different with old | later
    · simp [old]
    · simp [later]
  · intro other member _ _ address lower upper
    exact set_byte (payload_outsideHeaders shape.tiles shape.sized member lower upper chunk (by simp))

/-- The freed chunk joins its free successor. -/
theorem kfree_joinNext {right : Chunk} {rest : List Chunk}
    (shape : Shape heap (before ++ chunk :: right :: rest)) (used : chunk.free = false)
    (blocked : lastFree before = false) (rightFree : right.free = true) :
    Moves heap (before ++ chunk :: right :: rest) (kfree (chunk.address + headerSize) heap)
      (before ++ ⟨chunk.address, chunk.length + right.length, true⟩ :: rest)
      fun other => other ≠ chunk := by
  have positive := shape.start (by simp)
  obtain ⟨beforeApart, afterApart, _, _⟩ := (coalesced_split _ _ _).mp shape.coalesced
  obtain ⟨_, restApart, _, restUsed⟩ := (coalesced_split [] _ _).mp afterApart
  obtain ⟨marked, freed⟩ := kfree_ahead shape.links shape.tiles shape.sized.roomy shape.stop used blocked
  obtain ⟨links, bytes⟩ := kmergeNext_links marked (tiles_freed shape.tiles) (sized_freed shape.sized).roomy
    positive shape.stop rfl rightFree
  rw [freed]
  dsimp only at links bytes
  refine ⟨Shape.replace [chunk, right] [⟨chunk.address, chunk.length + right.length, true⟩] shape links tiles_merged
    (sized_merged (fun other member => shape.sized other (by simp [List.mem_singleton.mp member]))
      fun other member => shape.sized other (by simp [List.mem_singleton.mp member]))
    (by simp) (by simp) ?_, ?_, ?_⟩
  · apply (coalesced_split _ _ _).mpr
    exact ⟨beforeApart, restApart, fun free => by simp [blocked] at free, fun _ => restUsed rightFree⟩
  · intro other member otherUsed different
    rcases used_elsewhere member different with old | later
    · simp [old]
    · rcases List.mem_cons.mp later with here | last
      · simp [here, rightFree] at otherUsed
      · simp [last]
  · intro other member _ _ address lower upper
    have outside := payload_outsideHeaders shape.tiles shape.sized member lower upper
    have apart := outside chunk (by simp)
    dsimp only
    rw [bytes address ?_, set_byte apart]
    intro entry present
    rcases List.mem_append.mp present with old | rest
    · exact outside entry (by simp [old])
    · rcases List.mem_cons.mp rest with here | later
      · rw [here]
        exact apart
      · exact outside entry (by simp [later])

/-- The memory after the freed chunk has been joined to its free predecessor: the old header
stays behind inside the merged chunk. -/
theorem mergePrev_links {left : Chunk} {others : List Chunk}
    (shape : Shape heap (others ++ left :: chunk :: after)) (leftFree : left.free = true) :
    let memory := kmergeNext (set heap.memory chunk.address .state stateFree) left.address
    Links memory 0 (others ++ ⟨left.address, left.length + chunk.length, true⟩ :: after) 0 ∧
      HeaderAt memory { chunk with free := true } left.address (headAddress Chunk.address 0 after) ∧
      ∀ address, OutsideHeaders (others ++ left :: chunk :: after) address →
        memory.byte address = heap.memory.byte address := by
  have size : headerSize = 32 := rfl
  have positive := shape.start (by simp)
  have bound := shape.stop
  have shiftedLinks : Links heap.memory 0 ((others ++ [left]) ++ chunk :: after) 0 := by
    simpa using shape.links
  have shiftedTiles : Tiles heap.heapStart ((others ++ [left]) ++ chunk :: after) heap.heapEnd := by
    simpa using shape.tiles
  have shiftedSized : Sized ((others ++ [left]) ++ chunk :: after) := by simpa using shape.sized
  obtain ⟨low, high, _, chunkHigh⟩ := tiles_around shiftedTiles shiftedSized.roomy
  have room := shiftedSized chunk (by simp)
  have marked := links_setState true shiftedLinks shiftedTiles shiftedSized.roomy
  have freedHeader := ((segment_split _ _ _ _ _).mp marked).2.1
  rw [lastAddress_append_singleton] at freedHeader
  have markedLinks : Links (set heap.memory chunk.address .state stateFree) 0
      (others ++ left :: { chunk with free := true } :: after) 0 := by
    simpa [Chunk.state] using marked
  have markedTiles : Tiles heap.heapStart (others ++ left :: { chunk with free := true } :: after)
      heap.heapEnd := by simpa using tiles_freed shiftedTiles
  have markedSized : Sized (others ++ left :: { chunk with free := true } :: after) := by
    simpa using sized_freed shiftedSized
  obtain ⟨links, bytes⟩ := kmergeNext_links markedLinks markedTiles markedSized.roomy positive bound leftFree rfl
  refine ⟨links, ?_, ?_⟩
  · apply freedHeader.congr
    intro field
    apply get_congr
    intro address lower upper
    dsimp only at lower upper
    apply bytes
    intro entry present
    rcases List.mem_append.mp present with old | rest
    · have below := low entry (by simp [old])
      omega
    · rcases List.mem_cons.mp rest with here | later
      · have below := low entry (by simp [here])
        omega
      · have above := high entry later
        omega
  · intro address outside
    rw [bytes address ?_, set_byte (outside chunk (by simp))]
    intro entry present
    rcases List.mem_append.mp present with old | rest
    · exact outside entry (by simp [old])
    · rcases List.mem_cons.mp rest with here | later
      · exact outside entry (by simp [here])
      · exact outside entry (by simp [later])

/-- The freed chunk joins its free predecessor. -/
theorem kfree_joinPrev {left : Chunk} {others : List Chunk}
    (shape : Shape heap (others ++ left :: chunk :: after)) (used : chunk.free = false)
    (leftFree : left.free = true) (blocked : headFree after = false) :
    Moves heap (others ++ left :: chunk :: after) (kfree (chunk.address + headerSize) heap)
      (others ++ ⟨left.address, left.length + chunk.length, true⟩ :: after)
      fun other => other ≠ chunk := by
  have size : headerSize = 32 := rfl
  have inside := (tiling_bounds shape.tiles).2 chunk (by simp)
  have bound := shape.stop
  have room := shape.sized chunk (by simp)
  have leftPresent := shape.nonzero (show left ∈ _ by simp)
  have header := ((segment_split _ _ _ _ _).mp shape.links).2.2.1
  obtain ⟨beforeApart, afterApart, lastUsed, _⟩ := (coalesced_split _ _ _).mp shape.coalesced
  obtain ⟨_, restApart, _, _⟩ := (coalesced_split [] _ _).mp afterApart
  obtain ⟨links, freedHeader, bytes⟩ := mergePrev_links shape leftFree
  have afterLinks := ((segment_split _ _ _ _ _).mp links).2.2
  have skipNext := mergeNext_skip freedHeader.next afterLinks blocked
  rw [kfree_eq header used (by omega)]
  dsimp only at skipNext ⊢
  rw [if_pos leftPresent, skipNext]
  refine ⟨Shape.replace [left, chunk] [⟨left.address, left.length + chunk.length, true⟩] shape links tiles_merged
    (sized_merged (fun other member => shape.sized other (by simp [List.mem_singleton.mp member]))
      fun other member => shape.sized other (by simp [List.mem_singleton.mp member]))
    (by simp) (by simp) ?_, ?_, ?_⟩
  · apply (coalesced_split _ _ _).mpr
    exact ⟨beforeApart, restApart, fun free => by simp [lastUsed free] at leftFree, fun _ => blocked⟩
  · intro other member otherUsed different
    rcases List.mem_append.mp member with old | rest
    · simp [old]
    · rcases List.mem_cons.mp rest with here | later
      · simp [here, leftFree] at otherUsed
      · rcases List.mem_cons.mp later with same | last
        · exact absurd same different
        · simp [last]
  · intro other member _ _ address lower upper
    exact bytes address (payload_outsideHeaders shape.tiles shape.sized member lower upper)

/-- The chunk before is the last of those before. -/
theorem lastFree_true {chunks : List Chunk} (free : lastFree chunks = true) :
    ∃ others left, chunks = others ++ [left] ∧ left.free = true := by
  rcases chunks.eq_nil_or_concat with nil | ⟨others, left, same⟩
  · subst nil
    simp [lastFree] at free
  · rw [List.concat_eq_append] at same
    subst same
    exact ⟨others, left, rfl, by simpa using free⟩

/-- The chunk behind is the first of those behind. -/
theorem headFree_true {chunks : List Chunk} (free : headFree chunks = true) :
    ∃ right rest, chunks = right :: rest ∧ right.free = true := by
  cases chunks with
  | nil => simp [headFree] at free
  | cons right rest => exact ⟨right, rest, rfl, by simpa using free⟩

/-- `kfree` keeps the heap in shape unless both neighbours of the chunk are free. -/
theorem kfree_moves (shape : Shape heap (before ++ chunk :: after)) (used : chunk.free = false)
    (apart : ¬ (lastFree before = true ∧ headFree after = true)) :
    ∃ chunks', Moves heap (before ++ chunk :: after) (kfree (chunk.address + headerSize) heap) chunks'
      fun other => other ≠ chunk := by
  cases last : lastFree before with
  | false =>
      cases first : headFree after with
      | false => exact ⟨_, kfree_alone shape used last first⟩
      | true =>
          obtain ⟨right, rest, same, rightFree⟩ := headFree_true first
          subst same
          exact ⟨_, kfree_joinNext shape used last rightFree⟩
  | true =>
      cases first : headFree after with
      | true => exact absurd ⟨last, first⟩ apart
      | false =>
          obtain ⟨others, left, same, leftFree⟩ := lastFree_true last
          subst same
          rw [List.append_assoc, List.singleton_append] at shape ⊢
          exact ⟨_, kfree_joinPrev shape used leftFree first⟩

/-- With two free neighbours `kfree` joins the chunk to its predecessor and then lets the old
header absorb the successor, so two free chunks stay side by side. -/
theorem kfree_between {left right : Chunk} {others rest : List Chunk}
    (shape : Shape heap (others ++ left :: chunk :: right :: rest)) (used : chunk.free = false)
    (leftFree : left.free = true) (rightFree : right.free = true) :
    let chunks := others ++ ⟨left.address, left.length + chunk.length, true⟩ :: right :: rest
    let after := kfree (chunk.address + headerSize) heap
    after.head = headAddress Chunk.address 0 chunks ∧
      Segment Chunk.address (fun entry _ next => get after.memory entry.address .next = next ∧
        get after.memory entry.address .state = entry.state) 0 chunks 0 := by
  have size : headerSize = 32 := rfl
  have bound := shape.stop
  have shiftedTiles : Tiles heap.heapStart ((others ++ [left]) ++ chunk :: right :: rest)
      heap.heapEnd := by simpa using shape.tiles
  have shiftedSized : Sized ((others ++ [left]) ++ chunk :: right :: rest) := by
    simpa using shape.sized
  obtain ⟨low, high, _, chunkHigh⟩ := tiles_around shiftedTiles shiftedSized.roomy
  have room := shape.sized chunk (by simp)
  have leftPresent := shape.nonzero (show left ∈ _ by simp)
  have header := ((segment_split _ _ _ _ _).mp shape.links).2.2.1
  obtain ⟨links, freedHeader, _⟩ := mergePrev_links shape leftFree
  have afterLinks := ((segment_split _ _ _ _ _).mp links).2.2
  have above := high right (by simp)
  have chunkPositive := shape.nonzero (show chunk ∈ _ by simp)
  have nextFits : headAddress Chunk.address 0 rest < 2 ^ 64 :=
    head_fits ((tiling_split _ _ _ _ _).mp shiftedTiles).2.2 bound
  have merge := kmergeNext_eq freedHeader afterLinks.1 rfl rightFree (by dsimp only; omega)
    (by dsimp only; omega) (by dsimp only; omega) nextFits
  rw [kfree_eq header used (by omega)]
  dsimp only at merge ⊢
  rw [if_pos leftPresent, merge]
  refine ⟨by rw [shape.head]; cases others <;> rfl, segment_frame links ?_⟩
  intro entry member before next found
  obtain ⟨origin, present, different, sameAddress⟩ : ∃ origin ∈ others ++ left :: chunk :: right :: rest,
      origin ≠ chunk ∧ origin.address = entry.address := by
    have distinct (other : Chunk) (away : other.address + headerSize ≤ chunk.address ∨
        chunk.address + headerSize ≤ other.address) : other ≠ chunk := by
      intro same
      rw [same] at away
      omega
    rcases List.mem_append.mp member with old | later
    · exact ⟨entry, by simp [old], distinct _ (Or.inl (low entry (by simp [old])).2.2), rfl⟩
    · rcases List.mem_cons.mp later with here | last
      · exact ⟨left, by simp, distinct _ (Or.inl (low left (by simp)).2.2), by rw [here]⟩
      · refine ⟨entry, ?_, distinct _ (Or.inr (high entry last).2.1), rfl⟩
        rcases List.mem_cons.mp last with same | behind
        · simp [same]
        · simp [behind]
  have foundNext := found.next
  have foundState := found.state
  rw [← sameAddress] at foundNext foundState ⊢
  have originRoom := shape.sized origin present
  have apart := tiles_apart shape.tiles shape.sized present (show chunk ∈ _ by simp) different
  have kept (memory : Memory) (field : Field) (value : Nat) (target : Field) :
      get (set memory chunk.address target value) origin.address field =
        get memory origin.address field := get_set_apart (by omega)
  have relinked (memory : Memory) (field : Field) (other : field ≠ .prev) (back : Nat) :
      get (relink memory (headAddress Chunk.address 0 rest) back) origin.address field =
        get memory origin.address field := by
    cases rest with
    | nil => simp [relink]
    | cons last entries =>
        apply relink_field other
        by_cases same : origin = last
        · exact Or.inl (by rw [same, headAddress_cons])
        · have lastRoom := shape.sized last (by simp)
          have away := tiles_apart shape.tiles shape.sized present (show last ∈ _ by simp) same
          right
          rw [headAddress_cons]
          omega
  rw [relinked _ _ (by decide), relinked _ _ (by decide), kept, kept, kept, kept]
  exact ⟨foundNext, foundState⟩

end Freeing

end ArchaOS.KernelHeap
