import ArchaOS.Construction.MemoryCopy

namespace ArchaOS.MemoryCopy

open Library Graphics Traced

/-- Two ranges of `n` bytes in the address space that have no byte in common. -/
structure Ranges (dest src n : Nat) : Prop where
  pointer : dest < 2 ^ 64
  destFits : dest + n ≤ 2 ^ 64
  srcFits : src + n ≤ 2 ^ 64
  apart : dest + n ≤ src ∨ src + n ≤ dest

/-- The first `stored` bytes have been copied, and the pointers stand behind the first `position` ones. -/
structure Copied (dest src n : Nat) (memory : Memory) (position stored : Nat) (copying : Copying) :
    Prop where
  count : copying.n = n - position
  pointers : position < n → copying.d = dest + position ∧ copying.s = src + position
  memory : copying.memory = memory.move dest src stored

@[simp] theorem Copying.advance_n (copying : Copying) (count : Nat) :
    (copying.advance count).n = copying.n - count := rfl

section Steps

variable {dest src n : Nat} (ranges : Ranges dest src n) {memory : Memory}
include ranges

/-- More bytes can be copied behind those that have been. -/
theorem Ranges.move_append {first second : Nat} (inside : first + second ≤ n) :
    (memory.move dest src first).move (dest + first) (src + first) second =
      memory.move dest src (first + second) := by
  have apart := ranges.apart
  exact Memory.move_append memory (by omega)

/-- A word is copied behind what has been copied. -/
theorem Ranges.moveWord {copying : Copying} {position offset : Nat}
    (copied : Copied dest src n memory position (position + offset) copying)
    (inside : position + offset + 8 ≤ n) :
    Copied dest src n memory position (position + (offset + 8)) (copying.moveWord offset) where
  count := copied.count
  pointers := copied.pointers
  memory := by
    have destFits := ranges.destFits
    have srcFits := ranges.srcFits
    obtain ⟨d, s⟩ := copied.pointers (by omega)
    have target : add64 copying.d offset = dest + (position + offset) := by
      rw [d, add64_eq (by omega), Nat.add_assoc]
    have origin : add64 copying.s offset = src + (position + offset) := by
      rw [s, add64_eq (by omega), Nat.add_assoc]
    rw [Copying.moveWord, target, origin, Memory.write_read, copied.memory, ranges.move_append inside,
      Nat.add_assoc]

/-- The pointers move on behind what has been copied. -/
theorem Ranges.advance {copying : Copying} {position count : Nat}
    (copied : Copied dest src n memory position (position + count) copying) (positive : 0 < count) :
    Copied dest src n memory (position + count) (position + count) (copying.advance count) where
  count := by
    rw [Copying.advance_n, copied.count, Nat.sub_sub]
  pointers := by
    intro more
    have destFits := ranges.destFits
    have srcFits := ranges.srcFits
    obtain ⟨d, s⟩ := copied.pointers (by omega)
    rw [Copying.advance, d, s, add64_eq (by omega), add64_eq (by omega), Nat.add_assoc, Nat.add_assoc]
    exact ⟨rfl, rfl⟩
  memory := copied.memory

/-- The loop over lines copies some of the bytes. -/
theorem Ranges.copyLines {copying : Copying} {position : Nat} (within : position ≤ n)
    (copied : Copied dest src n memory position position copying) :
    ∃ next ≤ n, Copied dest src n memory next next (copyLines copying) := by
  fun_induction MemoryCopy.copyLines copying generalizing position with
  | case1 copying enough ih =>
      have count := copied.count
      have here : Copied dest src n memory position (position + 0) copying := copied
      have first := ranges.moveWord here (by omega)
      have second := ranges.moveWord first (by omega)
      have third := ranges.moveWord second (by omega)
      have fourth := ranges.moveWord third (by omega)
      exact ih (by omega) (ranges.advance fourth (by omega))
  | case2 copying few => exact ⟨position, within, copied⟩

/-- The loop over words copies some of the bytes. -/
theorem Ranges.copyWords {copying : Copying} {position : Nat} (within : position ≤ n)
    (copied : Copied dest src n memory position position copying) :
    ∃ next ≤ n, Copied dest src n memory next next (copyWords copying) := by
  fun_induction MemoryCopy.copyWords copying generalizing position with
  | case1 copying enough ih =>
      have count := copied.count
      have here : Copied dest src n memory position (position + 0) copying := copied
      have moved := ranges.moveWord here (by omega)
      exact ih (by omega) (ranges.advance moved (by omega))
  | case2 copying few => exact ⟨position, within, copied⟩

/-- The byte loop copies what is left. -/
theorem Ranges.copyUp {copying : Copying} {position : Nat} (within : position ≤ n)
    (copied : Copied dest src n memory position position copying) :
    (copyUp copying.n copying.d copying.s copying.memory).value = memory.move dest src n := by
  induction left : copying.n generalizing copying position with
  | zero =>
      have whole : position = n := by
        have count := copied.count
        omega
      rw [Graphics.copyUp, value_pure, copied.memory, whole]
  | succ rest ih =>
      have count := copied.count
      obtain ⟨d, s⟩ := copied.pointers (by omega)
      have stored : copying.memory.store copying.d (copying.memory.byte copying.s) =
          memory.move dest src (position + 1) := by
        rw [Memory.store_eq_move, d, s, copied.memory, ranges.move_append (by omega)]
      have moved : Copied dest src n memory position (position + 1)
          { copying with memory := memory.move dest src (position + 1) } :=
        ⟨copied.count, copied.pointers, rfl⟩
      have next := ranges.advance moved Nat.one_pos
      have fewer : ({ copying with memory := memory.move dest src (position + 1) }.advance 1).n = rest := by
        rw [Copying.advance_n, left, Nat.add_sub_cancel]
      have last := ih (by omega) next fewer
      simp only [Graphics.copyUp, value_bind, loadByte, storeByte, stored]
      exact last

/-- The block build copies the source and returns the destination. -/
theorem Ranges.memcpy_blocks {qemuTest : Nat} (blocks : qemuTest ≠ 0) :
    memcpy qemuTest dest src n memory = (dest, memory.move dest src n) := by
  have start : Copied dest src n memory 0 0 ⟨dest, src, n, memory⟩ :=
    ⟨rfl, fun _ => ⟨rfl, rfl⟩, (Memory.move_zero memory dest src).symm⟩
  obtain ⟨lines, linesWithin, afterLines⟩ := ranges.copyLines (Nat.zero_le n) start
  obtain ⟨words, wordsWithin, afterWords⟩ := ranges.copyWords linesWithin afterLines
  rw [memcpy, if_neg blocks]
  exact Prod.ext rfl (ranges.copyUp wordsWithin afterWords)

end Steps

/-- `rep movsb` is the byte loop; its destination register ends behind the destination. -/
theorem repMovsb_eq (rcx rdi rsi : Nat) (memory : Memory) :
    (repMovsb rcx rdi rsi memory).2 = (copyUp rcx rdi rsi memory).value ∧
      (rdi < 2 ^ 64 → (repMovsb rcx rdi rsi memory).1 = add64 rdi rcx) := by
  induction rcx generalizing rdi rsi memory with
  | zero =>
      refine ⟨rfl, fun pointer => ?_⟩
      rw [repMovsb, add64_eq pointer, Nat.add_zero]
  | succ rcx ih =>
      obtain ⟨same, last⟩ := ih (add64 rdi 1) (add64 rsi 1) (memory.store rdi (memory.byte rsi))
      refine ⟨same, fun _ => ?_⟩
      rw [repMovsb, last (add64_lt _ _)]
      unfold add64
      omega

/-- The string build copies the source as well, but it returns the address behind the destination. -/
theorem Ranges.memcpy_string {dest src n : Nat} (ranges : Ranges dest src n) (memory : Memory) :
    memcpy 0 dest src n memory = (add64 dest n, memory.move dest src n) := by
  have start : Copied dest src n memory 0 0 ⟨dest, src, n, memory⟩ :=
    ⟨rfl, fun _ => ⟨rfl, rfl⟩, (Memory.move_zero memory dest src).symm⟩
  obtain ⟨same, last⟩ := repMovsb_eq n dest src memory
  rw [memcpy, if_pos rfl]
  exact Prod.ext (last ranges.pointer) (same.trans (ranges.copyUp (Nat.zero_le n) start))

/-- Both builds of `memcpy` leave the same memory, in which the destination holds the source and
everything else is as before, and both return the destination. -/
structure BuildsAgree (dest src n : Nat) (memory : Memory) : Prop where
  same : (memcpy 0 dest src n memory).2 = (memcpy 1 dest src n memory).2
  copied : ∀ i < n, (memcpy 0 dest src n memory).2.byte (dest + i) = memory.byte (src + i)
  outside : ∀ other, (other < dest ∨ dest + n ≤ other) →
    (memcpy 0 dest src n memory).2.byte other = memory.byte other
  stringReturns : (memcpy 0 dest src n memory).1 = dest
  blocksReturn : (memcpy 1 dest src n memory).1 = dest

/-- The builds agree exactly when there is nothing to copy. -/
theorem memcpy_agree_iff {dest src n : Nat} (ranges : Ranges dest src n) (memory : Memory) :
    BuildsAgree dest src n memory ↔ n = 0 := by
  have string := ranges.memcpy_string memory
  have blocks : memcpy 1 dest src n memory = (dest, memory.move dest src n) :=
    ranges.memcpy_blocks Nat.one_ne_zero
  constructor
  · intro agree
    have returned := agree.stringReturns
    have pointer := ranges.pointer
    have destFits := ranges.destFits
    have srcFits := ranges.srcFits
    have apart := ranges.apart
    rw [string] at returned
    change add64 dest n = dest at returned
    unfold add64 at returned
    omega
  · rintro rfl
    refine ⟨by rw [string, blocks], fun i inside => ?_, fun other outside => ?_, ?_, by rw [blocks]⟩
    · exact absurd inside (Nat.not_lt_zero i)
    · rw [string, Memory.move_outside outside]
    · rw [string]
      exact add64_eq ranges.pointer

/-- Nothing is copied, and then one byte. -/
theorem memcpy_agree_iff_bytes :
    BuildsAgree 0 8 0 ⟨fun _ => 0⟩ ∧ ¬ BuildsAgree 0 8 1 ⟨fun _ => 0⟩ := by
  constructor
  · exact (memcpy_agree_iff ⟨by decide, by decide, by decide, by decide⟩ _).mpr rfl
  · exact (memcpy_agree_iff ⟨by decide, by decide, by decide, by decide⟩ _).not.mpr (by decide)

/-- The string build returns the address behind a copied byte. -/
theorem memcpy_agree_fails : ¬ ∀ dest src n memory, Ranges dest src n → BuildsAgree dest src n memory := by
  intro agree
  have returned := (agree 0 8 1 ⟨fun _ => 0⟩ ⟨by decide, by decide, by decide, by decide⟩).stringReturns
  exact absurd returned (by decide)

end ArchaOS.MemoryCopy
