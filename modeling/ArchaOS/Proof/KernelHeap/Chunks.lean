import ArchaOS.Construction.KernelHeap
import ArchaOS.Library.LinkedSegment

namespace ArchaOS.KernelHeap

open Library

/-- Every field lies in the header. -/
theorem field_offset_le (field : Field) : field.offset + 8 ≤ headerSize := by
  cases field <;> decide

/-- Different fields do not overlap. -/
theorem field_offset_apart {first second : Field} (different : first ≠ second) :
    first.offset + 8 ≤ second.offset ∨ second.offset + 8 ≤ first.offset := by
  cases first <;> cases second <;> first | exact absurd rfl different | decide

/-- A field is read back. -/
theorem get_set_same {memory : Memory} {chunk : Nat} {field : Field} {value : Nat}
    (fits : value < 2 ^ 64) : get (set memory chunk field value) chunk field = value := by
  rw [get, set, Memory.read_write_same]
  exact Nat.mod_eq_of_lt fits

/-- Setting a field keeps the other fields. -/
theorem get_set_field {memory : Memory} {chunk : Nat} {field other : Field} {value : Nat}
    (different : other ≠ field) :
    get (set memory chunk field value) chunk other = get memory chunk other := by
  apply Memory.read_write_apart
  have apart := field_offset_apart different
  omega

/-- A header write does not reach a header that stands apart. -/
theorem get_set_apart {memory : Memory} {chunk other : Nat} {field target : Field} {value : Nat}
    (apart : other + headerSize ≤ chunk ∨ chunk + headerSize ≤ other) :
    get (set memory chunk field value) other target = get memory other target := by
  apply Memory.read_write_apart
  have left := field_offset_le field
  have right := field_offset_le target
  omega

/-- A field is determined by the bytes of its header. -/
theorem get_congr {first second : Memory} {chunk : Nat} (field : Field)
    (same : ∀ address, chunk ≤ address → address < chunk + headerSize →
      first.byte address = second.byte address) :
    get first chunk field = get second chunk field := by
  apply Memory.read_congr
  intro address lower upper
  have inside := field_offset_le field
  exact same address (by omega) (by omega)

/-- Setting a field changes no byte outside the header. -/
theorem set_byte {memory : Memory} {chunk : Nat} {field : Field} {value address : Nat}
    (outside : address < chunk ∨ chunk + headerSize ≤ address) :
    (set memory chunk field value).byte address = memory.byte address := by
  apply Memory.write_outside
  have inside := field_offset_le field
  omega

/-- A chunk of the heap: its header address, its length with the header, and whether it is free. -/
structure Chunk where
  address : Nat
  length : Nat
  free : Bool
  deriving DecidableEq, Repr

def Chunk.state (chunk : Chunk) : Nat := if chunk.free then stateFree else stateUsed

/-- A chunk has the state of a free one exactly when it is free. -/
theorem Chunk.state_free_iff (chunk : Chunk) : chunk.state = stateFree ↔ chunk.free = true := by
  cases free : chunk.free <;> simp [Chunk.state, free, stateFree, stateUsed]

/-- A chunk has the state of a used one exactly when it is not free. -/
theorem Chunk.state_used_iff (chunk : Chunk) : chunk.state = stateUsed ↔ chunk.free = false := by
  cases free : chunk.free <;> simp [Chunk.state, free, stateFree, stateUsed]

/-- The memory holds the header of a chunk between two neighbours. -/
structure HeaderAt (memory : Memory) (chunk : Chunk) (prev next : Nat) : Prop where
  state : get memory chunk.address .state = chunk.state
  length : get memory chunk.address .length = chunk.length
  next : get memory chunk.address .next = next
  prev : get memory chunk.address .prev = prev

/-- A header depends only on its four words. -/
theorem HeaderAt.congr {first second : Memory} {chunk : Chunk} {prev next : Nat}
    (header : HeaderAt first chunk prev next)
    (same : ∀ field, get second chunk.address field = get first chunk.address field) :
    HeaderAt second chunk prev next where
  state := (same .state).trans header.state
  length := (same .length).trans header.length
  next := (same .next).trans header.next
  prev := (same .prev).trans header.prev

abbrev Links (memory : Memory) : Nat → List Chunk → Nat → Prop :=
  Segment Chunk.address (HeaderAt memory)

abbrev Tiles : Nat → List Chunk → Nat → Prop := Tiling Chunk.address Chunk.length

/-- Chunks keep the alignment and leave room for a header and a payload. -/
def Sized (chunks : List Chunk) : Prop := ∀ chunk ∈ chunks, chunk.length % 16 = 0 ∧ 48 ≤ chunk.length

/-- Every chunk has room for its header. -/
def Roomy (chunks : List Chunk) : Prop := ∀ chunk ∈ chunks, headerSize ≤ chunk.length

/-- Chunks of the right sizes have room for their headers. -/
theorem Sized.roomy {chunks : List Chunk} (sized : Sized chunks) : Roomy chunks := by
  intro chunk member
  have room := sized chunk member
  unfold headerSize
  omega

/-- No two neighbours are free. -/
def Coalesced (chunks : List Chunk) : Prop :=
  chunks.IsChain fun left right => ¬ (left.free = true ∧ right.free = true)

/-- The links hold in every memory that keeps the headers. -/
theorem links_frame {first second : Memory} {prev next : Nat} {chunks : List Chunk}
    (links : Links first prev chunks next)
    (same : ∀ chunk ∈ chunks, ∀ field,
      get second chunk.address field = get first chunk.address field) :
    Links second prev chunks next :=
  segment_frame links fun chunk member _ _ header => header.congr (same chunk member)

/-- The tiles before a chunk end at it and the tiles after a chunk start behind it. -/
theorem tiles_around {start stop : Nat} {before after : List Chunk} {chunk : Chunk}
    (tiles : Tiles start (before ++ chunk :: after) stop) (roomy : Roomy (before ++ chunk :: after)) :
    (∀ other ∈ before, start ≤ other.address ∧ other.address + other.length ≤ chunk.address ∧
      other.address + headerSize ≤ chunk.address) ∧
    (∀ other ∈ after, chunk.address + chunk.length ≤ other.address ∧
      chunk.address + headerSize ≤ other.address ∧ other.address + other.length ≤ stop) ∧
    start ≤ chunk.address ∧ chunk.address + chunk.length ≤ stop := by
  obtain ⟨left, right⟩ := (tiling_split _ _ _ _ _).mp tiles
  have low := tiling_bounds left
  have high := tiling_bounds right
  have size := roomy chunk (by simp)
  refine ⟨?_, ?_, low.1, high.1⟩
  · intro other member
    have inside := low.2 other member
    have room := roomy other (by simp [member])
    omega
  · intro other member
    have inside := high.2 other member
    omega

end ArchaOS.KernelHeap
