import ArchaOS.Library.ByteMemory

namespace ArchaOS.Library

/-- A store to a field of a record: the offset of the field, its size in bytes and the value. -/
structure FieldStore where
  offset : Nat
  size : Nat
  value : Nat
  deriving DecidableEq, Repr

namespace Memory

/-- The memory after stores to fields of the record at an address. -/
def storeFields (memory : Memory) (base : Nat) (fields : List FieldStore) : Memory :=
  fields.foldl (fun memory field => memory.write (base + field.offset) field.size field.value) memory

@[simp] theorem storeFields_nil (memory : Memory) (base : Nat) :
    memory.storeFields base [] = memory := rfl

@[simp] theorem storeFields_cons (memory : Memory) (base : Nat) (field : FieldStore)
    (rest : List FieldStore) : memory.storeFields base (field :: rest) =
      (memory.write (base + field.offset) field.size field.value).storeFields base rest := rfl

/-- Stores to a record leave the bytes outside of it alone. -/
theorem storeFields_outside {base extent : Nat} {fields : List FieldStore}
    (inside : ∀ field ∈ fields, field.offset + field.size ≤ extent) (memory : Memory) {other : Nat}
    (outside : other < base ∨ base + extent ≤ other) :
    (memory.storeFields base fields).byte other = memory.byte other := by
  induction fields generalizing memory with
  | nil => rfl
  | cons field rest ih =>
      have fits := inside field List.mem_cons_self
      rw [storeFields_cons, ih (fun next member => inside next (List.mem_cons_of_mem _ member)),
        write_outside (by omega)]

/-- Stores to other fields leave a field alone. -/
theorem read_storeFields_apart {base offset size : Nat} {fields : List FieldStore}
    (apart : ∀ field ∈ fields, offset + size ≤ field.offset ∨ field.offset + field.size ≤ offset)
    (memory : Memory) : (memory.storeFields base fields).read (base + offset) size =
      memory.read (base + offset) size := by
  induction fields generalizing memory with
  | nil => rfl
  | cons field rest ih =>
      have here := apart field List.mem_cons_self
      rw [storeFields_cons, ih (fun next member => apart next (List.mem_cons_of_mem _ member)),
        read_write_apart (by omega)]

/-- A field holds what has been stored in it when no later store overlaps it. -/
theorem read_storeFields {base : Nat} {fields : List FieldStore}
    (apart : fields.Pairwise fun first second =>
      first.offset + first.size ≤ second.offset ∨ second.offset + second.size ≤ first.offset)
    (memory : Memory) {field : FieldStore} (member : field ∈ fields) :
    (memory.storeFields base fields).read (base + field.offset) field.size =
      field.value % 256 ^ field.size := by
  induction fields generalizing memory with
  | nil => simp at member
  | cons first rest ih =>
      obtain ⟨here, later⟩ := List.pairwise_cons.mp apart
      rw [storeFields_cons]
      rcases List.mem_cons.mp member with same | old
      · rw [same, read_storeFields_apart here, read_write_same]
      · exact ih later _ old

end Memory

end ArchaOS.Library
