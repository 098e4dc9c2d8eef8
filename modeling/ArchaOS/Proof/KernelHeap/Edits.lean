import ArchaOS.Proof.KernelHeap.Chunks

namespace ArchaOS.KernelHeap

open Library

/-- A byte lies in no header of the listed chunks. -/
def OutsideHeaders (chunks : List Chunk) (address : Nat) : Prop :=
  ∀ chunk ∈ chunks, address < chunk.address ∨ chunk.address + headerSize ≤ address

/-- Rewriting the state word of one chunk changes its status alone. -/
theorem links_setState {memory : Memory} {start stop : Nat} {before after : List Chunk}
    {chunk : Chunk} (free : Bool) (links : Links memory 0 (before ++ chunk :: after) 0)
    (tiles : Tiles start (before ++ chunk :: after) stop) (roomy : Roomy (before ++ chunk :: after)) :
    Links (set memory chunk.address .state ({ chunk with free := free } : Chunk).state) 0
      (before ++ { chunk with free := free } :: after) 0 := by
  obtain ⟨low, high, _⟩ := tiles_around tiles roomy
  obtain ⟨left, header, right⟩ := (segment_split _ _ _ _ _).mp links
  apply (segment_split _ _ _ _ _).mpr
  refine ⟨?_, ?_, ?_⟩
  · apply links_frame left
    intro other member field
    exact get_set_apart (Or.inl (low other member).2.2)
  · have fits : ({ chunk with free := free } : Chunk).state < 2 ^ 64 := by
      cases free <;> simp [Chunk.state, stateFree, stateUsed]
    exact ⟨get_set_same fits, (get_set_field (by decide)).trans header.length,
      (get_set_field (by decide)).trans header.next, (get_set_field (by decide)).trans header.prev⟩
  · apply links_frame right
    intro other member field
    exact get_set_apart (Or.inr (high other member).2.1)

/-- Redirecting the back link of the first chunk changes nothing else of a list. -/
theorem links_setPrev (prev : Nat) {memory : Memory} {target next stop : Nat} {chunk : Chunk}
    {rest : List Chunk} (links : Links memory prev (chunk :: rest) next)
    (tiles : Tiles chunk.address (chunk :: rest) stop) (roomy : Roomy (chunk :: rest))
    (fits : target < 2 ^ 64) :
    Links (set memory chunk.address .prev target) target (chunk :: rest) next := by
  have around : Tiles chunk.address ([] ++ chunk :: rest) stop := tiles
  obtain ⟨_, high, _⟩ := tiles_around around roomy
  obtain ⟨header, later⟩ := links
  refine ⟨?_, ?_⟩
  · exact ⟨(get_set_field (by decide)).trans header.state,
      (get_set_field (by decide)).trans header.length,
      (get_set_field (by decide)).trans header.next, get_set_same fits⟩
  · apply links_frame later
    intro other member field
    exact get_set_apart (Or.inr (high other member).2.1)

/-- The write that the functions make to the chunk behind the one that they change. -/
def relink (memory : Memory) (next back : Nat) : Memory :=
  if next ≠ 0 then set memory next .prev back else memory

section Relinking

variable {memory : Memory} {edge stop old back : Nat} {after : List Chunk}

/-- The address of the head fits into a word. -/
theorem head_fits (tiles : Tiles edge after stop) (bound : stop < 2 ^ 64) :
    headAddress Chunk.address 0 after < 2 ^ 64 := by
  cases after with
  | nil => simp
  | cons chunk others =>
      have inside := (tiling_bounds tiles).2 chunk (by simp)
      simp only [headAddress_cons]
      omega

/-- Relinking the head gives the chunks a new predecessor. -/
theorem relink_links (links : Links memory old after 0) (tiles : Tiles edge after stop)
    (roomy : Roomy after) (positive : 0 < edge) (fits : back < 2 ^ 64) :
    Links (relink memory (headAddress Chunk.address 0 after) back) back after 0 := by
  cases after with
  | nil => trivial
  | cons chunk others =>
      obtain ⟨rfl, later⟩ := tiles
      rw [relink, headAddress_cons, if_pos (by omega)]
      exact links_setPrev old links ⟨rfl, later⟩ roomy fits

/-- Relinking leaves the headers below. -/
theorem relink_below (tiles : Tiles edge after stop) {address : Nat} (below : address + headerSize ≤ edge)
    (field : Field) :
    get (relink memory (headAddress Chunk.address 0 after) back) address field =
      get memory address field := by
  unfold relink
  split
  · cases after with
    | nil => exact absurd rfl ‹_›
    | cons chunk others =>
        obtain ⟨rfl, _⟩ := tiles
        exact get_set_apart (Or.inl below)
  · rfl

/-- Relinking changes no field but `prev`. -/
theorem relink_field {next address : Nat} {field : Field} (other : field ≠ .prev)
    (apart : address = next ∨ address + headerSize ≤ next ∨ next + headerSize ≤ address) :
    get (relink memory next back) address field = get memory address field := by
  unfold relink
  split
  · rcases apart with same | away
    · rw [same, get_set_field other]
    · exact get_set_apart away
  · rfl

/-- Relinking changes no byte outside the headers. -/
theorem relink_byte {address : Nat} (outside : OutsideHeaders after address) :
    (relink memory (headAddress Chunk.address 0 after) back).byte address = memory.byte address := by
  unfold relink
  split
  · cases after with
    | nil => exact absurd rfl ‹_›
    | cons chunk others => exact set_byte (outside chunk (by simp))
  · rfl

end Relinking

/-- `kmerge_next` does nothing without a free successor. -/
theorem kmergeNext_skip (memory : Memory) (chunk : Nat)
    (blocked : get memory chunk .state ≠ stateFree ∨ get memory chunk .next = 0 ∨
      get memory (get memory chunk .next) .state ≠ stateFree) :
    kmergeNext memory chunk = memory := by
  unfold kmergeNext
  dsimp only
  split
  · rfl
  · split
    · rfl
    · rename_i present
      split
      · rfl
      · rename_i linked
        split
        · rfl
        · rename_i free
          rcases blocked with used | last | busy
          · exact absurd used present
          · exact absurd last linked
          · exact absurd busy free

/-- The writes of `kmerge_next` on two free neighbours. -/
theorem kmergeNext_eq {memory : Memory} {left right : Chunk} {prev back next : Nat}
    (leftHeader : HeaderAt memory left prev right.address)
    (rightHeader : HeaderAt memory right back next)
    (leftFree : left.free = true) (rightFree : right.free = true) (positive : 0 < left.address)
    (apart : left.address + headerSize ≤ right.address)
    (fits : left.length + right.length < 2 ^ 64) (nextFits : next < 2 ^ 64) :
    kmergeNext memory left.address =
      relink (set (set memory left.address .length (left.length + right.length))
        left.address .next next) next left.address := by
  have leftState : get memory left.address .state = stateFree :=
    leftHeader.state.trans (left.state_free_iff.mpr leftFree)
  have rightState : get memory right.address .state = stateFree :=
    rightHeader.state.trans (right.state_free_iff.mpr rightFree)
  have leftNonzero : left.address ≠ 0 := by omega
  have rightNonzero : right.address ≠ 0 := by omega
  have rightNext : get (set memory left.address .length (left.length + right.length))
      right.address .next = next := (get_set_apart (Or.inr apart)).trans rightHeader.next
  simp only [kmergeNext, leftNonzero, if_false, leftState, ne_eq, not_true_eq_false, leftHeader.next,
    rightNonzero, rightState, leftHeader.length, rightHeader.length, add64_eq fits, rightNext,
    get_set_same nextFits, relink]

/-- `kmerge_next` joins two free neighbours into one free chunk. -/
theorem kmergeNext_links {memory : Memory} {start stop : Nat} {before after : List Chunk}
    {left right : Chunk} (links : Links memory 0 (before ++ left :: right :: after) 0)
    (tiles : Tiles start (before ++ left :: right :: after) stop)
    (roomy : Roomy (before ++ left :: right :: after)) (positive : 0 < start) (bound : stop < 2 ^ 64)
    (leftFree : left.free = true) (rightFree : right.free = true) :
    Links (kmergeNext memory left.address) 0
        (before ++ ⟨left.address, left.length + right.length, true⟩ :: after) 0 ∧
      ∀ address, OutsideHeaders (before ++ left :: after) address →
        (kmergeNext memory left.address).byte address = memory.byte address := by
  obtain ⟨low, high, leftLow, _⟩ := tiles_around tiles roomy
  obtain ⟨leftLinks, leftHeader, rightHeader, afterLinks⟩ := (segment_split _ _ _ _ _).mp links
  obtain ⟨_, adjacent, afterTiles⟩ := (tiling_split _ _ _ _ _).mp tiles
  have size := roomy left (by simp)
  have rightHigh := high right (by simp)
  have apart : left.address + headerSize ≤ right.address := rightHigh.2.1
  have nextFits := head_fits afterTiles bound
  rw [kmergeNext_eq leftHeader rightHeader leftFree rightFree (by omega) apart (by omega) nextFits]
  generalize next : headAddress Chunk.address 0 after = target at *
  generalize written : set (set memory left.address .length (left.length + right.length)) left.address
    .next target = merged
  have mergedApart (other : Nat) (field : Field)
      (apart : other + headerSize ≤ left.address ∨ left.address + headerSize ≤ other) :
      get merged other field = get memory other field := by
    rw [← written, get_set_apart apart, get_set_apart apart]
  have mergedHeader : HeaderAt merged ⟨left.address, left.length + right.length, true⟩
      (lastAddress Chunk.address 0 before) target := by
    have fits : left.length + right.length < 2 ^ 64 := by omega
    have state : left.state = (⟨left.address, left.length + right.length, true⟩ : Chunk).state := by
      simp [Chunk.state, leftFree]
    rw [← written]
    refine ⟨?_, ?_, ?_, ?_⟩
    · rw [get_set_field (by decide), get_set_field (by decide), leftHeader.state, state]
    · rw [get_set_field (by decide), get_set_same fits]
    · rw [get_set_same nextFits]
    · rw [get_set_field (by decide), get_set_field (by decide), leftHeader.prev]
  subst next
  constructor
  · apply (segment_split _ _ _ _ _).mpr
    refine ⟨?_, ?_, ?_⟩
    · apply links_frame leftLinks
      intro other member field
      have below := (low other member).2.2
      rw [relink_below afterTiles (by omega), mergedApart _ _ (Or.inl below)]
    · apply mergedHeader.congr
      intro field
      dsimp only
      rw [relink_below afterTiles (by omega)]
    · have framed : Links merged right.address after 0 := by
        apply links_frame afterLinks
        intro other member field
        exact mergedApart _ _ (Or.inr (high other (by simp [member])).2.1)
      exact relink_links framed afterTiles (fun other member => roomy other (by simp [member])) (by omega)
        (by omega)
  · intro address outside
    have apartLeft := outside left (by simp)
    rw [relink_byte fun chunk member => outside chunk (by simp [member]), ← written,
      set_byte apartLeft, set_byte apartLeft]

/-- The header of a new free chunk. -/
def writeFree (memory : Memory) (address length prev next : Nat) : Memory :=
  let memory := set memory address .state stateFree
  let memory := set memory address .length length
  let memory := set memory address .prev prev
  set memory address .next next

section NewChunk

variable {memory : Memory} {address length prev next : Nat}

/-- Writing a header leaves the other headers. -/
theorem writeFree_apart {other : Nat} (field : Field)
    (apart : other + headerSize ≤ address ∨ address + headerSize ≤ other) :
    get (writeFree memory address length prev next) other field = get memory other field := by
  unfold writeFree
  rw [get_set_apart apart, get_set_apart apart, get_set_apart apart, get_set_apart apart]

/-- Writing a header changes no byte outside. -/
theorem writeFree_byte {other : Nat} (outside : other < address ∨ address + headerSize ≤ other) :
    (writeFree memory address length prev next).byte other = memory.byte other := by
  unfold writeFree
  rw [set_byte outside, set_byte outside, set_byte outside, set_byte outside]

/-- A written header holds the free chunk. -/
theorem writeFree_header (lengthFits : length < 2 ^ 64) (prevFits : prev < 2 ^ 64)
    (nextFits : next < 2 ^ 64) :
    HeaderAt (writeFree memory address length prev next) ⟨address, length, true⟩ prev next where
  state := by
    unfold writeFree
    rw [get_set_field (by decide), get_set_field (by decide), get_set_field (by decide)]
    exact get_set_same (by decide)
  length := by
    unfold writeFree
    rw [get_set_field (by decide), get_set_field (by decide)]
    exact get_set_same lengthFits
  next := get_set_same nextFits
  prev := by
    unfold writeFree
    rw [get_set_field (by decide)]
    exact get_set_same prevFits

end NewChunk

/-- The writes of `ksplit` on a chunk that leaves room for a second one. -/
theorem ksplit_eq {memory : Memory} {chunk : Chunk} {prev next length : Nat}
    (header : HeaderAt memory chunk prev next) (room : length + 2 * headerSize ≤ chunk.length)
    (enough : headerSize ≤ length) (fits : chunk.address + chunk.length < 2 ^ 64) :
    ksplit memory chunk.address length =
      let rest := chunk.address + length
      let memory := writeFree memory rest (chunk.length - length) chunk.address next
      set (set (relink memory next rest) chunk.address .next rest) chunk.address .length length := by
  have size : headerSize = 32 := rfl
  have rest : add64 chunk.address length = chunk.address + length := add64_eq (by omega)
  have apart (memory : Memory) (field target : Field) (value : Nat) :
      get (set memory (chunk.address + length) field value) chunk.address target =
        get memory chunk.address target := get_set_apart (by omega)
  have left : sub64 chunk.length length = chunk.length - length := sub64_eq (by omega) (by omega)
  simp only [ksplit, rest, apart, header.length, header.next, left, relink, writeFree]

/-- `ksplit` cuts a chunk into its first part and a free second part. -/
theorem ksplit_links {memory : Memory} {start stop length : Nat} {before after : List Chunk}
    {chunk : Chunk} (links : Links memory 0 (before ++ chunk :: after) 0)
    (tiles : Tiles start (before ++ chunk :: after) stop) (roomy : Roomy (before ++ chunk :: after))
    (positive : 0 < start) (bound : stop < 2 ^ 64)
    (room : length + 2 * headerSize ≤ chunk.length) (enough : headerSize ≤ length) :
    Links (ksplit memory chunk.address length) 0
        (before ++ ⟨chunk.address, length, chunk.free⟩ ::
          ⟨chunk.address + length, chunk.length - length, true⟩ :: after) 0 ∧
      ∀ address, OutsideHeaders (before ++ chunk :: after) address →
        (address < chunk.address ∨ chunk.address + chunk.length ≤ address) →
        (ksplit memory chunk.address length).byte address = memory.byte address := by
  have size : headerSize = 32 := rfl
  obtain ⟨low, high, chunkLow, chunkHigh⟩ := tiles_around tiles roomy
  obtain ⟨leftLinks, header, afterLinks⟩ := (segment_split _ _ _ _ _).mp links
  obtain ⟨_, afterTiles⟩ := (tiling_split _ _ _ _ _).mp tiles
  have nextFits := head_fits afterTiles bound
  rw [ksplit_eq header room enough (by omega)]
  dsimp only
  generalize next : headAddress Chunk.address 0 after = target at *
  have freshHeader : HeaderAt _ ⟨chunk.address + length, chunk.length - length, true⟩ chunk.address
      target := @writeFree_header memory _ _ _ _ (by omega) (by omega) nextFits
  have freshApart := @writeFree_apart memory (chunk.address + length) (chunk.length - length)
    chunk.address target
  have freshByte := @writeFree_byte memory (chunk.address + length) (chunk.length - length)
    chunk.address target
  generalize writeFree memory (chunk.address + length) (chunk.length - length) chunk.address
    target = fresh at *
  subst next
  have relinked : Links (relink fresh (headAddress Chunk.address 0 after) (chunk.address + length))
      (chunk.address + length) after 0 := by
    have framed : Links fresh chunk.address after 0 := by
      apply links_frame afterLinks
      intro entry member field
      have beyond := high entry member
      exact freshApart _ (by omega)
    exact relink_links framed afterTiles (fun entry member => roomy entry (by simp [member])) (by omega)
      (by omega)
  constructor
  · apply (segment_split _ _ _ _ _).mpr
    refine ⟨?_, ⟨?_, ?_, ?_, ?_⟩, ?_, ?_⟩
    · apply links_frame leftLinks
      intro entry member field
      have below := (low entry member).2.2
      rw [get_set_apart (Or.inl below), get_set_apart (Or.inl below),
        relink_below afterTiles (by omega), freshApart _ (by omega)]
    · rw [get_set_field (by decide), get_set_field (by decide), relink_below afterTiles (by omega),
        freshApart _ (by omega)]
      exact header.state
    · exact get_set_same (by omega)
    · rw [get_set_field (by decide)]
      exact get_set_same (by omega)
    · rw [get_set_field (by decide), get_set_field (by decide), relink_below afterTiles (by omega),
        freshApart _ (by omega)]
      exact header.prev
    · apply freshHeader.congr
      intro field
      dsimp only
      rw [get_set_apart (by omega), get_set_apart (by omega), relink_below afterTiles (by omega)]
    · apply links_frame relinked
      intro entry member field
      have beyond := high entry member
      rw [get_set_apart (by omega), get_set_apart (by omega)]
  · intro address outside beyond
    have apart := outside chunk (by simp)
    rw [set_byte apart, set_byte apart,
      relink_byte fun entry member => outside entry (by simp [member]), freshByte (by omega)]

/-- Linking a new last chunk extends the list by that chunk. -/
theorem append_links {memory : Memory} {start stop bytes : Nat} {before : List Chunk} {last : Chunk}
    (links : Links memory 0 (before ++ [last]) 0) (tiles : Tiles start (before ++ [last]) stop)
    (sized : Sized (before ++ [last])) (bound : stop + bytes < 2 ^ 64) :
    let memory' := set memory stop .state stateFree
    let memory' := set memory' stop .length bytes
    let memory' := set memory' stop .next 0
    let memory' := set memory' stop .prev last.address
    let memory' := set memory' last.address .next stop
    Links memory' 0 (before ++ [last, ⟨stop, bytes, true⟩]) 0 ∧
      ∀ address, OutsideHeaders (before ++ [last]) address → address < stop →
        memory'.byte address = memory.byte address := by
  have size : headerSize = 32 := rfl
  obtain ⟨low, _, lastLow, lastHigh⟩ := tiles_around tiles sized.roomy
  obtain ⟨leftLinks, header, _⟩ := (segment_split _ _ _ _ _).mp links
  have room := sized last (by simp)
  dsimp only
  constructor
  · apply (segment_split _ _ _ _ _).mpr
    refine ⟨?_, ⟨?_, ?_, ?_, ?_⟩, ⟨?_, ?_, ?_, ?_⟩, trivial⟩
    · apply links_frame leftLinks
      intro other member field
      have below := low other member
      rw [get_set_apart (by omega), get_set_apart (by omega), get_set_apart (by omega),
        get_set_apart (by omega), get_set_apart (by omega)]
    · rw [get_set_field (by decide), get_set_apart (by omega), get_set_apart (by omega),
        get_set_apart (by omega), get_set_apart (by omega)]
      exact header.state
    · rw [get_set_field (by decide), get_set_apart (by omega), get_set_apart (by omega),
        get_set_apart (by omega), get_set_apart (by omega)]
      exact header.length
    · exact get_set_same (by omega)
    · rw [get_set_field (by decide), get_set_apart (by omega), get_set_apart (by omega),
        get_set_apart (by omega), get_set_apart (by omega)]
      exact header.prev
    · change get _ stop _ = stateFree
      rw [get_set_apart (by omega), get_set_field (by decide), get_set_field (by decide),
        get_set_field (by decide), get_set_same (by decide)]
    · change get _ stop _ = bytes
      rw [get_set_apart (by omega), get_set_field (by decide), get_set_field (by decide),
        get_set_same (by omega)]
    · change get _ stop _ = 0
      rw [get_set_apart (by omega), get_set_field (by decide), get_set_same (by decide)]
    · change get _ stop _ = last.address
      rw [get_set_apart (by omega), get_set_same (by omega)]
  · intro address outside below
    have apart := outside last (by simp)
    rw [set_byte apart, set_byte (by omega), set_byte (by omega), set_byte (by omega),
      set_byte (by omega)]

end ArchaOS.KernelHeap
