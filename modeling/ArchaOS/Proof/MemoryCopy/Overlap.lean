import ArchaOS.Construction.GlobalRegistry
import ArchaOS.Construction.Initramfs
import ArchaOS.Proof.Graphics.Moving

namespace ArchaOS.MemoryCopy

open Library Graphics

section Overlap

variable {dest src n : Nat} (upper : dest + n ≤ 2 ^ 64) (fits : src + n ≤ 2 ^ 64)
include upper fits

/-- A moved byte is the byte of the source before the move. -/
theorem memmove_inside (memory : Memory) {i : Nat} (inside : i < n) :
    (memmove dest src n memory).value.2.byte (dest + i) = memory.byte (src + i) := by
  rw [memmove_value upper fits]
  exact Memory.move_inside inside

/-- The other bytes stay. -/
theorem memmove_outside (memory : Memory) {other : Nat}
    (outside : other < dest ∨ dest + n ≤ other) :
    (memmove dest src n memory).value.2.byte other = memory.byte other := by
  rw [memmove_value upper fits]
  exact Memory.move_outside outside

/-- However the two ranges overlap, the destination holds the old bytes of the source afterwards, and
the rest of the memory is unchanged. -/
theorem memmove_overlapping (memory : Memory) :
    (memmove dest src n memory).value.1 = dest ∧
      (∀ i < n, (memmove dest src n memory).value.2.byte (dest + i) = memory.byte (src + i)) ∧
      ∀ other, other < dest ∨ dest + n ≤ other →
        (memmove dest src n memory).value.2.byte other = memory.byte other := by
  refine ⟨?_, ?_, ?_⟩
  · rw [memmove_value upper fits]
  · intro i inside
    exact memmove_inside upper fits memory inside
  · intro other outside
    exact memmove_outside upper fits memory outside

end Overlap

/-- A range that is moved up by one byte, onto itself. -/
theorem memmove_overlapping_up :
    (memmove 1 0 3 ⟨UInt8.ofNat⟩).value.1 = 1 ∧
      (∀ i < 3, (memmove 1 0 3 ⟨UInt8.ofNat⟩).value.2.byte (1 + i) = UInt8.ofNat (0 + i)) ∧
      ∀ other, other < 1 ∨ 1 + 3 ≤ other →
        (memmove 1 0 3 ⟨UInt8.ofNat⟩).value.2.byte other = UInt8.ofNat other :=
  memmove_overlapping (by decide) (by decide) ⟨UInt8.ofNat⟩

/-- `remove_at` closes its gap as the loops of `memmove` do. -/
theorem registryMemmove_eq {dest src n : Nat} (upper : dest + n ≤ 2 ^ 64) (fits : src + n ≤ 2 ^ 64)
    (memory : Memory) :
    GlobalRegistry.memmove memory dest src n = (memmove dest src n memory).value.2 := by
  rw [memmove_value upper fits]
  rfl

/-- The archive reader's name is moved in its buffer as the loops of `memmove` do, and nothing
outside the buffer changes. -/
theorem moveName_refines {memory : Memory} {address start count : Nat} {name name' : List UInt8}
    (fits : address + name.length ≤ 2 ^ 64) (holds : memory.Holds address name)
    (moved : FileSystem.moveName name start count = .ok name') :
    let after := (memmove address (address + start) count memory).value.2
    after.Holds address name' ∧
      ∀ other, other < address ∨ address + name.length ≤ other → after.byte other = memory.byte other := by
  rw [FileSystem.moveName] at moved
  split at moved
  · rename_i within
    rw [← Except.ok.inj moved, memmove_value (by omega) (by omega)]
    refine ⟨holds.move_front within, ?_⟩
    intro other outside
    exact Memory.move_outside (by omega)
  · cases moved

end ArchaOS.MemoryCopy
