import ArchaOS.Construction.PixelMemory

/-
This file models the two builds of memcpy in kernel/lib/string.c.
-/

namespace ArchaOS.MemoryCopy

open Library Graphics

/-- `rep movsb` with the direction flag clear; it ends with the destination register. -/
def repMovsb : Nat → Nat → Nat → Memory → Nat × Memory
  | 0, rdi, _, memory => (rdi, memory)
  | rcx + 1, rdi, rsi, memory =>
      repMovsb rcx (add64 rdi 1) (add64 rsi 1) (memory.store rdi (memory.byte rsi))

/-- The local variables of the other build, with the memory. -/
structure Copying where
  d : Nat
  s : Nat
  n : Nat
  memory : Memory

/-- `*(unaligned_u64 *)(d + offset) = *(const unaligned_u64 *)(s + offset)` -/
def Copying.moveWord (copying : Copying) (offset : Nat) : Copying :=
  { copying with
    memory := copying.memory.write (add64 copying.d offset) 8
      (copying.memory.read (add64 copying.s offset) 8) }

/-- `d += count; s += count; n -= count` -/
def Copying.advance (copying : Copying) (count : Nat) : Copying :=
  { copying with
    d := add64 copying.d count
    s := add64 copying.s count
    n := copying.n - count }

/-- `while (n >= 32)` -/
def copyLines (copying : Copying) : Copying :=
  if 32 ≤ copying.n then
    copyLines
      ((((copying.moveWord 0).moveWord 8).moveWord 16).moveWord 24 |>.advance 32)
  else copying
termination_by copying.n
decreasing_by
  change copying.n - 32 < copying.n
  omega

/-- `while (n >= 8)` -/
def copyWords (copying : Copying) : Copying :=
  if 8 ≤ copying.n then copyWords ((copying.moveWord 0).advance 8) else copying
termination_by copying.n
decreasing_by
  change copying.n - 8 < copying.n
  omega

/-- `memcpy` in the build that `QEMU_TEST` selects. -/
def memcpy (qemuTest dest src n : Nat) (memory : Memory) : Nat × Memory :=
  if qemuTest = 0 then repMovsb n dest src memory
  else
    let copying := copyWords (copyLines ⟨dest, src, n, memory⟩)
    (dest, (copyUp copying.n copying.d copying.s copying.memory).value)

end ArchaOS.MemoryCopy
