import ArchaOS.Proof.KernelHeap.Shape

namespace ArchaOS.KernelHeap

open Library

/-- The parts that `kmalloc` leaves of a free chunk: a used chunk and, with enough room, a free
rest. -/
def carve (required : Nat) (chunk : Chunk) : List Chunk :=
  if required + 2 * headerSize ≤ chunk.length then
    [⟨chunk.address, required, false⟩,
      ⟨chunk.address + required, chunk.length - required, true⟩]
  else [⟨chunk.address, chunk.length, false⟩]

/-- A call moves the heap to new chunks and keeps the used chunks that satisfy `kept`, with the
bytes of their payloads. -/
structure Moves (heap : Heap) (chunks : List Chunk) (after : Heap) (chunks' : List Chunk)
    (kept : Chunk → Prop) : Prop where
  shape : Shape after chunks'
  used : ∀ chunk ∈ chunks, chunk.free = false → kept chunk → chunk ∈ chunks'
  bytes : ∀ chunk ∈ chunks, chunk.free = false → kept chunk → ∀ address,
    chunk.address + headerSize ≤ address → address < chunk.address + chunk.length →
      after.memory.byte address = heap.memory.byte address

/-- A payload byte lies in no header. -/
theorem payload_outsideHeaders {start stop address : Nat} {chunks : List Chunk} {chunk : Chunk}
    (tiles : Tiles start chunks stop) (sized : Sized chunks) (member : chunk ∈ chunks)
    (low : chunk.address + headerSize ≤ address) (high : address < chunk.address + chunk.length) :
    OutsideHeaders chunks address := by
  obtain ⟨before, after, same⟩ := List.append_of_mem member
  subst same
  obtain ⟨left, right, _⟩ := tiles_around tiles sized.roomy
  intro other present
  rcases List.mem_append.mp present with old | rest
  · have below := left other old
    omega
  · rcases List.mem_cons.mp rest with here | later
    · subst here
      omega
    · have above := right other later
      omega

/-- Stores into the payload of a chunk keep the heap in shape. -/
theorem Shape.rewrite {heap : Heap} {chunks : List Chunk} {chunk : Chunk} {memory : Memory}
    (shape : Shape heap chunks) (member : chunk ∈ chunks)
    (same : ∀ address, address < 2 ^ 64 →
      (address < chunk.address + headerSize ∨ chunk.address + chunk.length ≤ address) →
      memory.byte address = heap.memory.byte address) :
    Shape { heap with memory := memory } chunks := by
  refine { shape with links := links_frame shape.links fun other otherMember field => ?_ }
  have inside := (tiling_bounds shape.tiles).2 other otherMember
  have room := shape.sized other otherMember
  have stop := shape.stop
  apply get_congr
  intro address lower upper
  refine same address (by unfold headerSize at upper; omega) ?_
  by_contra payload
  have outside : OutsideHeaders chunks address :=
    payload_outsideHeaders shape.tiles shape.sized member (by omega) (by omega)
  have apart := outside other otherMember
  omega

/-- Two different chunks of one tiling do not meet. -/
theorem tiles_apart {start stop : Nat} {chunks : List Chunk} {first second : Chunk}
    (tiles : Tiles start chunks stop) (sized : Sized chunks) (memberFirst : first ∈ chunks)
    (memberSecond : second ∈ chunks) (different : first ≠ second) :
    first.address + first.length ≤ second.address ∨
      second.address + second.length ≤ first.address := by
  obtain ⟨before, after, same⟩ := List.append_of_mem memberFirst
  subst same
  obtain ⟨left, right, _⟩ := tiles_around tiles sized.roomy
  rcases List.mem_append.mp memberSecond with old | rest
  · exact Or.inr (left second old).2.1
  · rcases List.mem_cons.mp rest with here | later
    · exact absurd here.symm different
    · exact Or.inl (right second later).1

/-- Two lists have the right sizes exactly when each has. -/
theorem sized_append (first second : List Chunk) :
    Sized (first ++ second) ↔ Sized first ∧ Sized second := by
  exact List.forall_mem_append

/-- Chunks can be replaced by others that cover the same bytes. -/
theorem Shape.replace (middle middle' : List Chunk) {heap : Heap} {before after : List Chunk} {memory : Memory}
    (shape : Shape heap (before ++ (middle ++ after)))
    (links : Links memory 0 (before ++ (middle' ++ after)) 0)
    (cover : ∀ start stop, Tiles start middle stop → Tiles start middle' stop)
    (sized : Sized middle') (present : middle ≠ []) (present' : middle' ≠ [])
    (coalesced : Coalesced (before ++ (middle' ++ after))) :
    Shape { heap with memory := memory } (before ++ (middle' ++ after)) := by
  obtain ⟨first, beforeTiles, rest⟩ := (tiling_append _ _ _ _).mp shape.tiles
  obtain ⟨second, middleTiles, afterTiles⟩ := (tiling_append _ _ _ _).mp rest
  obtain ⟨sizedBefore, sizedRest⟩ := (sized_append _ _).mp shape.sized
  have nonempty : before ++ (middle ++ after) ≠ [] := by simp [present]
  have covered := cover first second middleTiles
  have firstAddress (parts : List Chunk) (some : parts ≠ []) (tiles : Tiles first parts second) :
      headAddress Chunk.address 0 (parts ++ after) = first := by
    cases parts with
    | nil => exact absurd rfl some
    | cons chunk others => exact tiles.1
  refine ⟨?_, links, ?_, ?_, coalesced, fun _ => shape.start nonempty, shape.stop,
    fun _ => shape.nextVirt nonempty, shape.nextPositive⟩
  · show heap.head = _
    rw [shape.head, headAddress_append, headAddress_append _ before, firstAddress middle present middleTiles,
      firstAddress middle' present' covered]
  · exact (tiling_append _ _ _ _).mpr ⟨first, beforeTiles, (tiling_append _ _ _ _).mpr
      ⟨second, covered, afterTiles⟩⟩
  · exact (sized_append _ _).mpr ⟨sizedBefore, (sized_append _ _).mpr
      ⟨sized, ((sized_append _ _).mp sizedRest).2⟩⟩

/-- The two parts of a cut chunk. -/
def cutParts (required : Nat) (chunk : Chunk) (flag : Bool) : List Chunk :=
  [⟨chunk.address, required, flag⟩, ⟨chunk.address + required, chunk.length - required, true⟩]

/-- The parts of a chunk tile its place. -/
theorem cutParts_tiles {chunk : Chunk} {required start stop : Nat} (fits : required ≤ chunk.length)
    (flag : Bool) (tiles : Tiles start [chunk] stop) :
    Tiles start (cutParts required chunk flag) stop := by
  have here : chunk.address = start := tiles.1
  have last : start + chunk.length = stop := tiles.2
  refine ⟨here, ?_, ?_⟩
  · dsimp only
    omega
  · change start + required + (chunk.length - required) = stop
    omega

/-- The parts of a chunk have the right sizes. -/
theorem cutParts_sized {chunk : Chunk} {required : Nat} (room : chunk.length % 16 = 0)
    (aligned : required % 16 = 0) (large : 48 ≤ required)
    (cut : required + 2 * headerSize ≤ chunk.length) (flag : Bool) :
    Sized (cutParts required chunk flag) := by
  have size : headerSize = 32 := rfl
  intro other member
  simp only [cutParts, List.mem_cons, List.not_mem_nil, or_false] at member
  rcases member with here | rest
  · subst here
    exact ⟨aligned, large⟩
  · subst rest
    dsimp only
    omega

/-- The end of `kmalloc` on a listed chunk. -/
theorem takeChunk_writes {heap : Heap} {chunk : Chunk} {required prev next : Nat}
    (header : HeaderAt heap.memory chunk prev next) (fits : chunk.address + headerSize < 2 ^ 64)
    (bounded : required + 2 * headerSize < 2 ^ 64) :
    takeChunk required chunk.address heap =
      (chunk.address + headerSize, { heap with
        memory := set (if required + 2 * headerSize ≤ chunk.length then
          ksplit heap.memory chunk.address required else heap.memory) chunk.address .state stateUsed }) := by
  have size : headerSize = 32 := rfl
  have split : kmallocMinSplit = 32 := rfl
  have threshold : add64 (add64 required headerSize) kmallocMinSplit = required + 2 * headerSize := by
    have inner : add64 required headerSize = required + headerSize := add64_eq (by omega)
    rw [inner, add64_eq (by omega)]
    omega
  unfold takeChunk
  rw [threshold, header.length, add64_eq fits]

section Taking

variable {heap : Heap} {before after : List Chunk} {chunk : Chunk}
  (shape : Shape heap (before ++ chunk :: after)) (free : chunk.free = true)
include free

/-- A used chunk stands before or behind a free one, so it stays when that one is replaced. -/
theorem used_kept (parts : List Chunk) {other : Chunk} (member : other ∈ before ++ chunk :: after)
    (used : other.free = false) : other ∈ before ++ (parts ++ after) := by
  rcases List.mem_append.mp member with old | rest
  · exact List.mem_append_left _ old
  · rcases List.mem_cons.mp rest with here | later
    · subst here
      simp [free] at used
    · exact List.mem_append_right _ (List.mem_append_right _ later)

include shape

/-- The payload of a used chunk does not meet a free chunk. -/
theorem Shape.payload_apart {other : Chunk} (member : other ∈ before ++ chunk :: after)
    (used : other.free = false) {address : Nat} (lower : other.address + headerSize ≤ address)
    (upper : address < other.address + other.length) :
    address < chunk.address ∨ chunk.address + chunk.length ≤ address := by
  have different : other ≠ chunk := by
    intro same
    simp [same, free] at used
  have apart := tiles_apart shape.tiles shape.sized member (by simp) different
  omega

/-- The parts of the free chunk that `kmalloc` cuts. -/
theorem cutChunk_moves {required : Nat} (aligned : required % 16 = 0) (large : 48 ≤ required)
    (cut : required + 2 * headerSize ≤ chunk.length) :
    Moves heap (before ++ chunk :: after)
      { heap with
        memory := set (ksplit heap.memory chunk.address required) chunk.address .state stateUsed }
      (before ++ (cutParts required chunk false ++ after)) fun _ => True := by
  have size : headerSize = 32 := rfl
  have room := shape.sized chunk (by simp)
  have fits : required ≤ chunk.length := by omega
  obtain ⟨beforeApart, afterApart, lastUsed, headUsed⟩ := (coalesced_split _ _ _).mp shape.coalesced
  obtain ⟨links, bytes⟩ := ksplit_links shape.links shape.tiles shape.sized.roomy (shape.start (by simp))
    shape.stop cut (by omega)
  have tiles : Tiles heap.heapStart (before ++ (cutParts required chunk chunk.free ++ after))
      heap.heapEnd := by
    obtain ⟨first, beforeTiles, rest⟩ := (tiling_append _ _ _ _).mp shape.tiles
    obtain ⟨second, middleTiles, afterTiles⟩ := (tiling_append _ _ [chunk] after).mp rest
    exact (tiling_append _ _ _ _).mpr ⟨first, beforeTiles, (tiling_append _ _ _ after).mpr
      ⟨second, cutParts_tiles fits _ middleTiles, afterTiles⟩⟩
  have sized : Sized (before ++ (cutParts required chunk chunk.free ++ after)) := by
    obtain ⟨sizedBefore, sizedRest⟩ := (sized_append _ _).mp shape.sized
    exact (sized_append _ _).mpr ⟨sizedBefore, (sized_append _ _).mpr
      ⟨cutParts_sized room.1 aligned large cut _, ((sized_append [chunk] after).mp sizedRest).2⟩⟩
  have marked := links_setState false links tiles sized.roomy
  refine ⟨Shape.replace [chunk] (cutParts required chunk false) shape marked
    (fun _ _ => cutParts_tiles fits false) (cutParts_sized room.1 aligned large cut false) (by simp)
    (by simp [cutParts]) ?_, ?_, ?_⟩
  · apply (coalesced_split _ _ _).mpr
    refine ⟨beforeApart, ?_, fun _ => rfl, fun taken => by simp at taken⟩
    apply (coalesced_split [] _ _).mpr
    exact ⟨by simp [Coalesced], afterApart, fun taken => by simp [lastFree] at taken,
      fun _ => headUsed free⟩
  · intro other member used _
    exact used_kept free _ member used
  · intro other member used _ address lower upper
    have outside := payload_outsideHeaders shape.tiles shape.sized member lower upper
    dsimp only
    rw [set_byte (outside chunk (by simp))]
    exact bytes address outside (shape.payload_apart free member used lower upper)

/-- The free chunk that `kmalloc` takes whole. -/
theorem wholeChunk_moves :
    Moves heap (before ++ chunk :: after)
      { heap with memory := set heap.memory chunk.address .state stateUsed }
      (before ++ ([⟨chunk.address, chunk.length, false⟩] ++ after)) fun _ => True := by
  obtain ⟨beforeApart, afterApart, _, _⟩ := (coalesced_split _ _ _).mp shape.coalesced
  have marked := links_setState false shape.links shape.tiles shape.sized.roomy
  refine ⟨Shape.replace [chunk] _ shape marked (fun _ _ tiles => tiles) ?_ (by simp)
    (by simp) ?_, ?_, ?_⟩
  · intro other member
    rw [List.mem_singleton.mp member]
    exact shape.sized chunk (by simp)
  · apply (coalesced_split _ _ _).mpr
    exact ⟨beforeApart, afterApart, fun _ => rfl, fun taken => by simp at taken⟩
  · intro other member used _
    exact used_kept free _ member used
  · intro other member used _ address lower upper
    have outside := payload_outsideHeaders shape.tiles shape.sized member lower upper
    exact set_byte (outside chunk (by simp))

/-- `kmalloc` turns a free chunk into a used one and a free rest. -/
theorem takeChunk_moves {required : Nat}
    (aligned : required % 16 = 0) (large : 48 ≤ required)
    (bounded : required + 2 * headerSize < 2 ^ 64) :
    Moves heap (before ++ chunk :: after) (takeChunk required chunk.address heap).2
      (before ++ (carve required chunk ++ after)) fun _ => True := by
  obtain ⟨_, _, _, chunkHigh⟩ := tiles_around shape.tiles shape.sized.roomy
  have bound := shape.stop
  have room := shape.sized.roomy chunk (by simp)
  obtain ⟨_, header, _⟩ := (segment_split _ _ _ _ _).mp shape.links
  rw [takeChunk_writes header (by omega) bounded]
  unfold carve
  dsimp only
  by_cases cut : required + 2 * headerSize ≤ chunk.length
  · rw [if_pos cut, if_pos cut]
    exact cutChunk_moves shape free aligned large cut
  · rw [if_neg cut, if_neg cut]
    exact wholeChunk_moves shape free

end Taking

/-- `vallocs` fails, or hands out the pages at the end of the heap. -/
theorem vallocs_cases (granted : Bool) (pages : Nat) (heap : Heap) :
    vallocs granted pages heap = (0, heap) ∨
      (heap.nextVirt + pages * pageSize < 2 ^ 64 ∧ vallocs granted pages heap =
        (heap.nextVirt, { heap with
          memory := heap.memory.fill heap.nextVirt (pages * pageSize) 0
          nextVirt := heap.nextVirt + pages * pageSize })) := by
  unfold vallocs
  split
  · rename_i success
    exact Or.inr ⟨success.2.2, rfl⟩
  · exact Or.inl rfl

/-- Clearing pages leaves the headers below. -/
theorem get_fill_apart {memory : Memory} {chunk start count : Nat} {value : UInt8} {field : Field}
    (apart : chunk + headerSize ≤ start) :
    get (memory.fill start count value) chunk field = get memory chunk field := by
  apply Memory.read_fill_apart
  have inside := field_offset_le field
  omega

/-- The chunks after new pages have been put behind the last one. -/
def extend (chunks : List Chunk) (address bytes : Nat) : List Chunk :=
  match chunks.getLast? with
  | some last =>
      if last.free then chunks.dropLast ++ [{ last with length := last.length + bytes }]
      else chunks ++ [⟨address, bytes, true⟩]
  | none => [⟨address, bytes, true⟩]

@[simp] theorem extend_nil (address bytes : Nat) : extend [] address bytes = [⟨address, bytes, true⟩] := rfl

/-- The heap grows at its last chunk. -/
theorem extend_append (before : List Chunk) (last : Chunk) (address bytes : Nat) :
    extend (before ++ [last]) address bytes =
      if last.free then before ++ [{ last with length := last.length + bytes }]
      else before ++ [last, ⟨address, bytes, true⟩] := by
  simp [extend]

/-- The new pages are part of a free chunk that is at least as long. -/
theorem extend_free (chunks : List Chunk) (address bytes : Nat) :
    ∃ chunk ∈ extend chunks address bytes, chunk.free = true ∧ bytes ≤ chunk.length := by
  rcases chunks.eq_nil_or_concat with rfl | ⟨before, last, same⟩
  · exact ⟨⟨address, bytes, true⟩, by simp, rfl, le_rfl⟩
  · rw [List.concat_eq_append] at same
    rw [same, extend_append]
    split
    · exact ⟨{ last with length := last.length + bytes }, by simp, by assumption, Nat.le_add_left _ _⟩
    · exact ⟨⟨address, bytes, true⟩, by simp, rfl, le_rfl⟩

/-- The used chunks stay used ones. -/
theorem extend_used (chunks : List Chunk) (address bytes : Nat) {chunk : Chunk}
    (member : chunk ∈ extend chunks address bytes) (used : chunk.free = false) : chunk ∈ chunks := by
  rcases chunks.eq_nil_or_concat with rfl | ⟨before, last, same⟩
  · rw [extend_nil, List.mem_singleton] at member
    simp [member] at used
  · rw [List.concat_eq_append] at same
    rw [same, extend_append] at member
    rw [same]
    split at member
    · rename_i free
      rcases List.mem_append.mp member with old | here
      · exact List.mem_append_left _ old
      · rw [List.mem_singleton.mp here] at used
        simp [free] at used
    · rw [List.append_cons, List.mem_append] at member
      rcases member with old | here
      · exact old
      · rw [List.mem_singleton.mp here] at used
        simp at used

/-- The first growth of the heap makes one free chunk of the granted pages. -/
theorem firstGrowth_shape (memory : Memory) {address bytes : Nat} (positive : 0 < address)
    (fits : address + bytes < 2 ^ 64) (aligned : bytes % 16 = 0) (large : 48 ≤ bytes) :
    let memory := set memory address .state stateFree
    let memory := set memory address .length bytes
    let memory := set memory address .next 0
    let memory := set memory address .prev 0
    Shape ⟨memory, address, address, address + bytes, address + bytes⟩ [⟨address, bytes, true⟩] := by
  dsimp only
  refine ⟨rfl, ⟨⟨?_, ?_, ?_, ?_⟩, trivial⟩, ⟨rfl, rfl⟩, ?_, by simp [Coalesced], fun _ => positive, fits,
    fun _ => rfl, by dsimp only; omega⟩
  · change get _ address _ = stateFree
    rw [get_set_field (by decide), get_set_field (by decide), get_set_field (by decide),
      get_set_same (by decide)]
  · change get _ address _ = bytes
    rw [get_set_field (by decide), get_set_field (by decide), get_set_same (by omega)]
  · change get _ address _ = 0
    rw [get_set_field (by decide), get_set_same (by decide)]
  · exact get_set_same (by decide)
  · intro chunk member
    rw [List.mem_singleton.mp member]
    exact ⟨aligned, large⟩

/-- Zeroed pages behind the heap keep its links. -/
theorem Shape.filled_links {heap : Heap} {chunks : List Chunk} (shape : Shape heap chunks)
    (bytes : Nat) : Links (heap.memory.fill heap.heapEnd bytes 0) 0 chunks 0 := by
  apply links_frame shape.links
  intro chunk member field
  have inside := (tiling_bounds shape.tiles).2 chunk member
  have room := shape.sized chunk member
  apply get_fill_apart
  unfold headerSize
  omega

/-- Clearing new pages leaves the last chunk the last one. -/
theorem lastChunk_filled {heap : Heap} {before : List Chunk} {last : Chunk}
    (shape : Shape heap (before ++ [last])) (bytes : Nat) :
    lastChunk (heap.memory.fill heap.heapEnd bytes 0) walkBound heap.head = some last.address := by
  rw [shape.head]
  exact lastChunk_spec (shape.filled_links bytes) (fun chunk member => shape.nonzero member)
    (Nat.le_of_lt shape.few)

section Growing

variable {heap : Heap} {before : List Chunk} {last : Chunk} {bytes : Nat} {memory : Memory}
  (shape : Shape heap (before ++ [last])) (fits : heap.heapEnd + bytes < 2 ^ 64)
  (aligned : bytes % 16 = 0) (large : 48 ≤ bytes)
include shape

/-- The chunks and the new pages tile the longer heap. -/
theorem Shape.grown_tiles (bytes : Nat) :
    Tiles heap.heapStart (before ++ [last, ⟨heap.heapEnd, bytes, true⟩]) (heap.heapEnd + bytes) := by
  have joined := (tiling_append heap.heapStart (heap.heapEnd + bytes) (before ++ [last])
    [(⟨heap.heapEnd, bytes, true⟩ : Chunk)]).mpr ⟨heap.heapEnd, shape.tiles, rfl, rfl⟩
  simpa using joined

/-- The bytes of a payload lie in no header and inside the old heap. -/
theorem Shape.payload_inside {chunk : Chunk} (member : chunk ∈ before ++ [last]) {address : Nat}
    (lower : chunk.address + headerSize ≤ address) (upper : address < chunk.address + chunk.length) :
    OutsideHeaders (before ++ [last]) address ∧ address < heap.heapEnd := by
  have inside := (tiling_bounds shape.tiles).2 chunk member
  exact ⟨payload_outsideHeaders shape.tiles shape.sized member lower upper, by omega⟩

include aligned large

/-- The chunk of the new pages has the right size. -/
theorem Shape.grown_sized : Sized (before ++ [last, ⟨heap.heapEnd, bytes, true⟩]) := by
  have joined := (sized_append (before ++ [last]) [⟨heap.heapEnd, bytes, true⟩]).mpr
    ⟨shape.sized, fun chunk member => by
      rw [List.mem_singleton.mp member]
      exact ⟨aligned, large⟩⟩
  simpa using joined

variable (links : Links memory 0 (before ++ [last, ⟨heap.heapEnd, bytes, true⟩]) 0)
  (same : ∀ address, OutsideHeaders (before ++ [last]) address → address < heap.heapEnd →
    memory.byte address = heap.memory.byte address)
include fits links same

/-- New pages behind a used chunk become a chunk of their own. -/
theorem growth_apart (used : last.free = false) :
    Moves heap (before ++ [last])
      ⟨memory, heap.head, heap.heapStart, heap.heapEnd + bytes, heap.heapEnd + bytes⟩
      (before ++ [last, ⟨heap.heapEnd, bytes, true⟩]) fun _ => True := by
  have positive := shape.start (by simp)
  obtain ⟨beforeApart, _, lastUsed, _⟩ := (coalesced_split before [] last).mp shape.coalesced
  refine ⟨⟨?_, links, shape.grown_tiles bytes, shape.grown_sized aligned large, ?_, fun _ => positive, fits,
    fun _ => rfl, by dsimp only; omega⟩, ?_, ?_⟩
  · change heap.head = _
    rw [shape.head]
    cases before <;> rfl
  · apply (coalesced_split _ _ _).mpr
    exact ⟨beforeApart, by simp [Coalesced], lastUsed, fun taken => by simp [used] at taken⟩
  · intro chunk member _ _
    rcases List.mem_append.mp member with old | here
    · simp [old]
    · simp [List.mem_singleton.mp here]
  · intro chunk member _ _ address lower upper
    obtain ⟨outside, below⟩ := shape.payload_inside member lower upper
    exact same address outside below

/-- New pages behind a free chunk are joined to it. -/
theorem growth_joined (free : last.free = true) :
    Moves heap (before ++ [last])
      ⟨kmergeNext memory last.address, heap.head, heap.heapStart, heap.heapEnd + bytes,
        heap.heapEnd + bytes⟩
      (before ++ [⟨last.address, last.length + bytes, true⟩]) fun _ => True := by
  have positive := shape.start (by simp)
  have tiles := shape.grown_tiles bytes
  obtain ⟨beforeApart, _, lastUsed, _⟩ := (coalesced_split before [] last).mp shape.coalesced
  obtain ⟨mergedLinks, mergedBytes⟩ := kmergeNext_links links tiles (shape.grown_sized aligned large).roomy
    positive fits free rfl
  refine ⟨⟨?_, mergedLinks, ?_, ?_, ?_, fun _ => positive, fits, fun _ => rfl, by dsimp only; omega⟩,
    ?_, ?_⟩
  · change heap.head = _
    rw [shape.head]
    cases before <;> rfl
  · obtain ⟨left, here, rest⟩ := (tiling_split _ _ _ _ _).mp tiles
    apply (tiling_split _ _ _ _ _).mpr
    refine ⟨left, ?_⟩
    change last.address + (last.length + bytes) = heap.heapEnd + bytes
    dsimp only at here
    omega
  · apply (sized_append _ _).mpr
    refine ⟨((sized_append _ _).mp shape.sized).1, ?_⟩
    intro chunk member
    have room := shape.sized last (by simp)
    rw [List.mem_singleton.mp member]
    dsimp only
    omega
  · apply (coalesced_split _ _ _).mpr
    exact ⟨beforeApart, by simp [Coalesced], fun taken => by simp [lastUsed taken] at free,
      fun _ => rfl⟩
  · intro chunk member used _
    rcases List.mem_append.mp member with old | here
    · simp [old]
    · rw [List.mem_singleton.mp here] at used
      simp [free] at used
  · intro chunk member _ _ address lower upper
    obtain ⟨outside, below⟩ := shape.payload_inside member lower upper
    exact (mergedBytes address outside).trans (same address outside below)

end Growing

/-- A later growth appends a free chunk and joins it to a free last chunk. -/
theorem laterGrowth_moves {heap : Heap} {before : List Chunk} {last : Chunk} {bytes : Nat}
    (shape : Shape heap (before ++ [last])) (fits : heap.heapEnd + bytes < 2 ^ 64)
    (aligned : bytes % 16 = 0) (large : 48 ≤ bytes) :
    let memory := heap.memory.fill heap.heapEnd bytes 0
    let memory := set memory heap.heapEnd .state stateFree
    let memory := set memory heap.heapEnd .length bytes
    let memory := set memory heap.heapEnd .next 0
    let memory := set memory heap.heapEnd .prev last.address
    let memory := set memory last.address .next heap.heapEnd
    let memory := if get memory last.address .state = stateFree then kmergeNext memory last.address
      else memory
    Moves heap (before ++ [last])
      ⟨memory, heap.head, heap.heapStart, heap.heapEnd + bytes, heap.heapEnd + bytes⟩
      (extend (before ++ [last]) heap.heapEnd bytes) fun _ => True := by
  obtain ⟨links, appended⟩ := append_links (shape.filled_links bytes) shape.tiles shape.sized fits
  obtain ⟨_, header, _⟩ := (segment_split _ _ _ _ _).mp links
  dsimp only at links appended header ⊢
  rw [header.state]
  generalize set (set (set (set (set (heap.memory.fill heap.heapEnd bytes 0) heap.heapEnd .state
    stateFree) heap.heapEnd .length bytes) heap.heapEnd .next 0) heap.heapEnd .prev last.address)
    last.address .next heap.heapEnd = memory at links appended ⊢
  have same (address : Nat) (outside : OutsideHeaders (before ++ [last]) address)
      (below : address < heap.heapEnd) : memory.byte address = heap.memory.byte address :=
    (appended address outside below).trans (Memory.fill_outside (Or.inl below))
  cases free : last.free with
  | false =>
      rw [if_neg fun same => by simp [last.state_free_iff.mp same] at free]
      rw [extend_append, if_neg (by simp [free])]
      exact growth_apart shape fits aligned large links same free
  | true =>
      rw [if_pos (last.state_free_iff.mpr free)]
      rw [extend_append, if_pos free, free]
      exact growth_joined shape fits aligned large links same free

/-- A heap in shape whose pages start at a page boundary. -/
structure Settled (heap : Heap) (chunks : List Chunk) : Prop extends Shape heap chunks where
  startAligned : chunks ≠ [] → heap.heapStart % pageSize = 0
  nextAligned : chunks = [] → heap.nextVirt % pageSize = 0

/-- `vallocs` grants the pages by which a request makes the heap grow. -/
def Grows (granted : Bool) (size : Nat) (heap : Heap) : Prop :=
  (vallocs granted (alignUp size pageSize / pageSize) heap).1 ≠ 0

instance (granted : Bool) (size : Nat) (heap : Heap) : Decidable (Grows granted size heap) :=
  inferInstanceAs (Decidable (_ ≠ _))

/-- `kmalloc_grow` ends: it fails and leaves the heap alone, or it extends the heap. -/
theorem kmallocGrow_cases {heap : Heap} {chunks : List Chunk} {size : Nat} (granted : Bool)
    (shape : Shape heap chunks)
    (whole : alignUp size pageSize / pageSize * pageSize = alignUp size pageSize)
    (aligned : alignUp size pageSize % 16 = 0) (large : 48 ≤ alignUp size pageSize) :
    (¬ Grows granted size heap ∧ kmallocGrow size granted heap = some (false, heap)) ∨
      ∃ after, Grows granted size heap ∧ kmallocGrow size granted heap = some (true, after) ∧
        Moves heap chunks after (extend chunks heap.nextVirt (alignUp size pageSize)) (fun _ => True) ∧
        (Settled heap chunks →
          Settled after (extend chunks heap.nextVirt (alignUp size pageSize))) := by
  unfold kmallocGrow Grows
  generalize alignUp size pageSize = bytes at whole aligned large ⊢
  dsimp only
  rcases vallocs_cases granted (bytes / pageSize) heap with failed | ⟨fits, success⟩
  · rw [failed]
    exact Or.inl ⟨fun granted => granted rfl, rfl⟩
  · have positive := shape.nextPositive
    have present : heap.nextVirt ≠ 0 := by omega
    rw [whole] at fits success
    rw [success]
    dsimp only
    rw [if_neg present]
    right
    rcases chunks.eq_nil_or_concat with nil | ⟨before, last, same⟩
    · subst nil
      have empty : heap.head = 0 := shape.head
      have grown := firstGrowth_shape (heap.memory.fill heap.nextVirt bytes 0) positive fits aligned large
      rw [if_pos empty, add64_eq fits]
      refine ⟨_, present, rfl, ⟨grown, by simp, by simp⟩, fun settled => ⟨grown, ?_, ?_⟩⟩
      · exact fun _ => settled.nextAligned rfl
      · simp
    · rw [List.concat_eq_append] at same
      subst same
      have next : heap.nextVirt = heap.heapEnd := shape.nextVirt (by simp)
      have headPresent : heap.head ≠ 0 := by
        rw [shape.head]
        cases before with
        | nil => exact shape.nonzero (show last ∈ _ by simp)
        | cons chunk others => exact shape.nonzero (show chunk ∈ _ by simp)
      have walk := lastChunk_filled shape bytes
      have moves := laterGrowth_moves shape (next ▸ fits) aligned large
      have nonempty : extend (before ++ [last]) heap.heapEnd bytes ≠ [] := by
        obtain ⟨chunk, member, _⟩ := extend_free (before ++ [last]) heap.heapEnd bytes
        exact List.ne_nil_of_mem member
      rw [next] at fits present ⊢
      rw [if_neg headPresent, if_neg (fun moved => moved rfl), walk, add64_eq fits]
      refine ⟨_, present, rfl, moves, fun settled => ⟨moves.shape, ?_, ?_⟩⟩
      · exact fun _ => settled.startAligned (by simp)
      · exact fun empty => absurd empty nonempty

/-- A growth by no page fails. -/
theorem kmallocGrow_none {heap : Heap} {size : Nat} (granted : Bool) (none : alignUp size pageSize = 0) :
    ¬ Grows granted size heap ∧ kmallocGrow size granted heap = some (false, heap) := by
  have failed : vallocs granted (alignUp size pageSize / pageSize) heap = (0, heap) := by
    rw [none, vallocs, if_neg]
    exact fun success => success.2.1 rfl
  unfold kmallocGrow Grows
  dsimp only
  rw [failed]
  exact ⟨fun granted => granted rfl, rfl⟩

/-- A move can be followed by another one. -/
theorem Moves.trans {first second third : Heap} {chunks chunks' chunks'' : List Chunk}
    {kept : Chunk → Prop} (left : Moves first chunks second chunks' kept)
    (right : Moves second chunks' third chunks'' kept) :
    Moves first chunks third chunks'' kept where
  shape := right.shape
  used := fun chunk member used keep => right.used chunk (left.used chunk member used keep) used keep
  bytes := fun chunk member used keep address lower upper =>
    (right.bytes chunk (left.used chunk member used keep) used keep address lower upper).trans
      (left.bytes chunk member used keep address lower upper)

end ArchaOS.KernelHeap
