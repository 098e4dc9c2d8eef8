import ArchaOS.Construction.SyscallSetup
import ArchaOS.Proof.KernelHeap.Zeroing
import ArchaOS.Proof.Syscalls.Calls

namespace ArchaOS.Syscalls

open Library

/-- A slot of the table holds a service with some flags set. -/
def Registered (syscalls : Table) (id function : Nat) (flags : List Nat) : Prop :=
  id < syscallCount ∧ (syscalls id).function = function ∧
    ∀ flag ∈ flags, hasFlag (syscalls id).flags flag = true

/-- The configuration handler is the only entry, and its call registers the three services. -/
structure CleanStart (services : Services) (configMode : Nat) (syscalls : Table) : Prop where
  configured : Registered syscalls 2049 configMode [flagExists, flagWriteProtected]
  empty : ∀ id < syscallCount, id ≠ 2049 → syscalls id = ⟨0, 0, 0⟩
  assigns : Registered (syscallConfigMode services syscalls) 2046 services.assignSyscallUsermode
    [flagExists]
  removes : Registered (syscallConfigMode services syscalls) 2047 services.removeSyscallUsermode
    [flagExists]
  returns : Registered (syscallConfigMode services syscalls) 2048 services.returnSyscallUsermode
    [flagExists]
  others : ∀ id < syscallCount, id ∉ [2046, 2047, 2048] →
    syscallConfigMode services syscalls id = syscalls id

/-- The number of the configuration handler is refused, so that only the cleared bytes change. -/
theorem initSyscalls_eq {eax : Nat} (supported : hasCpuMsr eax = true) (address configMode : Nat)
    (memory : Memory) :
    initSyscalls eax address configMode memory =
      (true, tableAt (KernelHeap.memset memory address 0 syscallCount) address) := by
  have refused : 2049 ≥ syscallCount ∨ configMode = 0 := Or.inl (by decide)
  unfold initSyscalls
  rw [if_neg (by simp [supported])]
  simp only [assignSyscall, if_pos refused]

/-- A removal clears the flags of a slot inside the table. -/
theorem removeSyscall_low {id : Nat} (low : id < syscallCount) (syscalls : Table) :
    (removeSyscall id syscalls).2 = Function.update syscalls id { syscalls id with flags := 0 } := by
  rw [removeSyscall, if_neg (not_le.mpr low)]

/-- An assignment fills a slot that is not in use. -/
theorem assignSyscall_free {id function : Nat} (low : id < syscallCount) (present : function ≠ 0)
    (flags : Nat) {syscalls : Table} (free : hasFlag (syscalls id).flags flagExists = false) :
    (assignSyscall id function flags syscalls).2 =
      Function.update syscalls id ⟨id, flags, function⟩ := by
  have accepted : ¬ (id ≥ syscallCount ∨ function = 0) := by
    rw [not_or, not_le]
    exact ⟨low, present⟩
  rw [assignSyscall_eq, assignSyscallHandler]
  simp only [accepted, free, if_false, Bool.false_eq_true]

/-- The configuration routine fills the slots of two services; the number of the third is refused. -/
theorem syscallConfigMode_eq (services : Services) (syscalls : Table) :
    syscallConfigMode services syscalls =
      Function.update
        (Function.update syscalls 2046
          ⟨2046, flagExists ||| flagKernelOnly, services.assignSyscallUsermode⟩)
        2047 ⟨2047, flagExists ||| flagKernelOnly, services.removeSyscallUsermode⟩ := by
  have low : 2046 < syscallCount ∧ 2047 < syscallCount ∧ ¬ 2048 < syscallCount := by decide
  have third (table : Table) : (removeSyscall 2048 table).2 = table := by
    rw [removeSyscall, if_pos (not_lt.mp low.2.2)]
  have refused (table : Table) (function flags : Nat) :
      (assignSyscall 2048 function flags table).2 = table := by
    rw [assignSyscall, if_pos (Or.inl (not_lt.mp low.2.2))]
  unfold syscallConfigMode
  simp only [third, refused, removeSyscall_low low.1, removeSyscall_low low.2.1]
  rw [assignSyscall_free low.1 services.assignPresent _ (by simp),
    assignSyscall_free low.2.1 services.removePresent _ (by simp)]
  funext id
  by_cases last : id = 2047
  · subst last
    simp
  by_cases first : id = 2046
  · subst first
    simp
  · simp [last, first]

section Slots

variable {address : Nat} (inside : address + syscallCount * handlerSize ≤ 2 ^ 64)
include inside

/-- The length that `memset` gets is the number of slots, not the number of their bytes. -/
theorem memset_array (memory : Memory) {offset : Nat} (low : offset < syscallCount * handlerSize) :
    (KernelHeap.memset memory address 0 syscallCount).byte (address + offset) =
      if offset < syscallCount then 0 else memory.byte (address + offset) := by
  have size : syscallCount * handlerSize = 49152 := rfl
  have count : syscallCount = 2048 := rfl
  have distance : sub64 (address + offset) address = offset := by
    rw [sub64_eq (by omega) (by omega)]
    omega
  rw [KernelHeap.memset_byte (by omega) (by omega) (by omega), distance]

/-- The slots behind the cleared bytes keep what they held. -/
theorem initSyscalls_kept {eax : Nat} (supported : hasCpuMsr eax = true) (configMode : Nat)
    (memory : Memory) {id : Nat} (low : id < syscallCount) (high : syscallCount ≤ id * handlerSize) :
    (initSyscalls eax address configMode memory).2 id = tableAt memory address id := by
  have size : handlerSize = 24 := rfl
  have total : syscallCount * handlerSize = 24 * 2048 := rfl
  have count : syscallCount = 2048 := rfl
  have slot : id * handlerSize = 24 * id := Nat.mul_comm _ _
  rw [initSyscalls_eq supported]
  have same (field : Nat) (within : field + 8 ≤ handlerSize) :
      (KernelHeap.memset memory address 0 syscallCount).read (address + id * handlerSize + field) 8 =
        memory.read (address + id * handlerSize + field) 8 := by
    apply Memory.read_congr
    intro other lower upper
    have offset : other = address + (other - address) := by omega
    rw [offset, memset_array inside memory (by omega), if_neg (by omega)]
  have first := same 0 (by omega)
  rw [Nat.add_zero] at first
  simp only [tableAt, first, same 8 (by omega), same 16 (by omega)]

/-- The table is empty afterwards exactly when the bytes behind the cleared ones were zero before. -/
theorem initSyscalls_empty_iff {eax : Nat} (supported : hasCpuMsr eax = true) (configMode : Nat)
    (memory : Memory) :
    (∀ id < syscallCount, (initSyscalls eax address configMode memory).2 id = ⟨0, 0, 0⟩) ↔
      ∀ offset < syscallCount * handlerSize, syscallCount ≤ offset →
        memory.byte (address + offset) = 0 := by
  have size : handlerSize = 24 := rfl
  have total : syscallCount * handlerSize = 24 * 2048 := rfl
  have count : syscallCount = 2048 := rfl
  rw [initSyscalls_eq supported]
  constructor
  · intro empty offset low high
    have slot := empty (offset / 24) (by omega)
    simp only [tableAt, size, SyscallHandler.mk.injEq, Memory.read_eq_zero_iff] at slot
    have zero : (KernelHeap.memset memory address 0 syscallCount).byte (address + offset) = 0 := by
      obtain ⟨id, flags, function⟩ := slot
      have place : address + offset = address + offset / 24 * 24 + offset % 24 := by omega
      rw [place]
      rcases Nat.lt_or_ge (offset % 24) 8 with first | later
      · exact id _ first
      rcases Nat.lt_or_ge (offset % 24) 16 with second | last
      · have byte := flags (offset % 24 - 8) (by omega)
        rwa [Nat.add_assoc, Nat.add_sub_cancel' later] at byte
      · have byte := function (offset % 24 - 16) (by omega)
        rwa [Nat.add_assoc, Nat.add_sub_cancel' last] at byte
    rwa [memset_array inside memory low, if_neg (by omega)] at zero
  · intro zero id low
    have slot : id * handlerSize = 24 * id := Nat.mul_comm _ _
    have clear (offset : Nat) (within : offset < syscallCount * handlerSize) :
        (KernelHeap.memset memory address 0 syscallCount).byte (address + offset) = 0 := by
      rw [memset_array inside memory within]
      split
      · rfl
      · exact zero offset within (by omega)
    have field (start : Nat) (within : start + 8 ≤ handlerSize) :
        (KernelHeap.memset memory address 0 syscallCount).read (address + id * handlerSize + start) 8 =
          0 := by
      rw [Memory.read_eq_zero_iff]
      intro offset low
      rw [Nat.add_assoc, Nat.add_assoc]
      exact clear _ (by omega)
    have first := field 0 (by omega)
    rw [Nat.add_zero] at first
    simp only [tableAt, first, field 8 (by omega), field 16 (by omega)]

end Slots

/-- What the configuration routine registers, whatever the table holds: the first two services. -/
theorem syscallConfigMode_registers (services : Services) (syscalls : Table) :
    Registered (syscallConfigMode services syscalls) 2046 services.assignSyscallUsermode [flagExists] ∧
      Registered (syscallConfigMode services syscalls) 2047 services.removeSyscallUsermode [flagExists] ∧
      ¬ Registered (syscallConfigMode services syscalls) 2048 services.returnSyscallUsermode
        [flagExists] ∧
      ∀ id < syscallCount, id ∉ [2046, 2047, 2048] →
        syscallConfigMode services syscalls id = syscalls id := by
  have exists_ : ∀ flag ∈ [flagExists], hasFlag (flagExists ||| flagKernelOnly) flag = true := by decide
  rw [syscallConfigMode_eq]
  refine ⟨⟨by decide, ?_, ?_⟩, ⟨by decide, ?_, ?_⟩, fun third => absurd third.1 (by decide), ?_⟩
  · simp
  · simpa using exists_
  · simp
  · simpa using exists_
  · intro id _ other
    simp only [List.mem_cons, List.not_mem_nil, or_false, not_or] at other
    rw [Function.update_of_ne other.2.1, Function.update_of_ne other.1]

/-- Without the feature the table stays as it is, and with it the call never leaves a clean start: the
handler is not registered, the slots are empty only if the bytes that are not cleared were zero, and of
the services the third is not registered. -/
theorem cleanStart_iff (services : Services) (eax address configMode : Nat) (memory : Memory) :
    let table := (initSyscalls eax address configMode memory).2
    (((initSyscalls eax address configMode memory).1 = true → CleanStart services configMode table) ↔
        hasCpuMsr eax = false) ∧
      (hasCpuMsr eax = true →
        ¬ Registered table 2049 configMode [flagExists, flagWriteProtected] ∧
        (address + syscallCount * handlerSize ≤ 2 ^ 64 →
          ((∀ id < syscallCount, table id = ⟨0, 0, 0⟩) ↔
            ∀ offset < syscallCount * handlerSize, syscallCount ≤ offset →
              memory.byte (address + offset) = 0) ∧
          ∀ id < syscallCount, syscallCount ≤ id * handlerSize → table id = tableAt memory address id) ∧
        Registered (syscallConfigMode services table) 2046 services.assignSyscallUsermode [flagExists] ∧
        Registered (syscallConfigMode services table) 2047 services.removeSyscallUsermode [flagExists] ∧
        ¬ Registered (syscallConfigMode services table) 2048 services.returnSyscallUsermode
          [flagExists] ∧
        ∀ id < syscallCount, id ∉ [2046, 2047, 2048] →
          syscallConfigMode services table id = table id) := by
  intro table
  have outside : ¬ Registered table 2049 configMode [flagExists, flagWriteProtected] := fun handler =>
    absurd handler.1 (by decide)
  constructor
  · cases supported : hasCpuMsr eax with
    | false => simp [initSyscalls, supported]
    | true =>
        refine iff_of_false ?_ (by decide)
        intro clean
        rw [initSyscalls_eq supported] at clean
        exact absurd (clean rfl).configured.1 (by decide)
  · intro supported
    refine ⟨outside, ?_, syscallConfigMode_registers services table⟩
    intro inside
    refine ⟨initSyscalls_empty_iff inside supported configMode memory, ?_⟩
    intro id low high
    exact initSyscalls_kept inside supported configMode memory low high

/-- On a processor that supports the feature, a zero array stays without a configuration handler. -/
theorem cleanStart_fails :
    ¬ ∀ (services : Services) (eax address configMode : Nat) (memory : Memory),
      (initSyscalls eax address configMode memory).1 = true →
        CleanStart services configMode (initSyscalls eax address configMode memory).2 := by
  intro clean
  have start := clean ⟨1, 2, 3, by decide, by decide, by decide⟩ 13 4096 4 ⟨fun _ => 0⟩
    (by rw [initSyscalls_eq (by decide)])
  exact absurd start.configured.1 (by decide)

end ArchaOS.Syscalls
