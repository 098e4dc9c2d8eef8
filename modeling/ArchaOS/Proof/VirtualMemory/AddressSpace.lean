import ArchaOS.Proof.PhysicalMemory.InitialPages
import ArchaOS.Proof.VirtualMemory.Supply

namespace ArchaOS.VirtualMemory

open Library PhysicalMemory RadixTree

/-- The kernel is linked at one megabyte, the firmware aligns its ranges to pages, and the loader
places everything that it hands over in the lower half of the address space. -/
structure LinkedMachine extends LoadedMachine where
  kernelPhysical : boot.kernelPhysicalAddressStart = 0x100000
  kernelVirtual : boot.kernelVirtualAddress = 0x100000
  aligned : ∀ index, (boot.map.descriptor index).physicalStart % pageSize = 0
  stackLow : rsp < 2 ^ 47
  codeLow : rip < 2 ^ 47
  framebufferLow : boot.framebufferBase < 2 ^ 47
  initramfsLow : boot.initramfsAddress < 2 ^ 47
  bootLow : bootAddr < 2 ^ 47
  mapLow : boot.memoryMap + boot.map.size ≤ 2 ^ 47

/-- A page is mapped to itself. -/
def selfMapping (page : Nat) : Mapping := ⟨page * pageSize, page * pageSize⟩

/-- `map_range` maps every page that it touches to itself when it is given equal addresses. -/
theorem mem_identityPages {base size : Nat} (fits : base + size ≤ 2 ^ 47) (mapping : Mapping) :
    mapping ∈ (identityRange base size).pages ↔
      ∃ page, base / pageSize ≤ page ∧ page * pageSize < base + size ∧ mapping = selfMapping page := by
  refine (mem_rangePages rfl fits fits mapping).trans ?_
  constructor
  · rintro ⟨i, low, rfl⟩
    refine ⟨base / pageSize + i, Nat.le_add_right _ _, ?_, ?_⟩
    · have whole := Nat.div_add_mod' base pageSize
      rw [Nat.add_mul]
      omega
    · rw [selfMapping]
  · rintro ⟨page, above, below, rfl⟩
    refine ⟨page - base / pageSize, ?_, ?_⟩
    · have whole := Nat.div_add_mod' base pageSize
      have ordered := Nat.mul_le_mul_right pageSize above
      rw [Nat.sub_mul]
      omega
    · rw [Nat.add_sub_of_le above, selfMapping]

/-- The passthru window maps every page below the end of memory. -/
theorem mem_passthruPages {top : Nat} (low : top ≤ 2 ^ 47) (mapping : Mapping) :
    mapping ∈ (⟨0, passthruBase, top⟩ : Range).pages ↔
      ∃ page, page * pageSize < top ∧ mapping = ⟨page * pageSize, getVirtAddr (page * pageSize)⟩ := by
  have total : mappedSize 0 top = top := by
    change add64 top 0 = top
    exact add64_eq (by omega)
  have base : passthruBase &&& pageMask = passthruBase := rfl
  unfold Range.pages rangePages
  rw [total, base]
  constructor
  · intro member
    obtain ⟨i, below, rfl⟩ := List.mem_map.mp member
    rw [List.mem_range] at below
    refine ⟨i, ?_, ?_⟩
    · unfold pageSize at *
      omega
    · unfold getVirtAddr
      unfold pageSize at *
      rw [Nat.zero_and, add64_eq (by omega), Nat.zero_add, add64, add64, Nat.add_comm]
  · rintro ⟨page, below, rfl⟩
    refine List.mem_map.mpr ⟨page, ?_, ?_⟩
    · rw [List.mem_range]
      unfold pageSize at *
      omega
    · unfold getVirtAddr
      unfold pageSize at *
      rw [Nat.zero_and, add64_eq (by omega), Nat.zero_add, add64, add64, Nat.add_comm]

/-- The pages around a low address are mapped to themselves, also where they wrap around. -/
theorem mem_aroundPages {pointer before count : Nat} (low : pointer < 2 ^ 47) (small : before ≤ 16)
    (few : count ≤ 32) {mapping : Mapping}
    (member : mapping ∈ (identityRange (sub64 (pointer &&& pageMask) (before * pageSize))
      (count * pageSize)).pages) :
    ∃ page, mapping = selfMapping page ∧
      (page < 2 ^ 35 + 32 ∨ (2 ^ 52 - 16 ≤ page ∧ page < 2 ^ 52)) := by
  have aligned : ∃ first, sub64 (pointer &&& pageMask) (before * pageSize) = first * pageSize ∧
      first < 2 ^ 52 ∧ (first + before = pointer / pageSize ∨
        first + before = pointer / pageSize + 2 ^ 52) := by
    rw [pageMask_low (by omega)]
    unfold sub64 pageSize
    refine ⟨(pointer / 0x1000 + (2 ^ 52 - before)) % 2 ^ 52, by omega, by omega, by omega⟩
  obtain ⟨first, base, bound, place⟩ := aligned
  rw [base] at member
  have whole : first * pageSize &&& pageMask = first * pageSize := by
    unfold pageSize at *
    rw [pageMask_low (by omega)]
    unfold pageSize
    omega
  have total : mappedSize (first * pageSize) (count * pageSize) = count * pageSize := by
    unfold mappedSize
    rw [whole]
    unfold sub64 add64 pageSize
    omega
  unfold Range.pages identityRange rangePages at member
  dsimp only at member
  rw [total, whole] at member
  obtain ⟨i, below, rfl⟩ := List.mem_map.mp member
  rw [List.mem_range] at below
  refine ⟨(first + i) % 2 ^ 52, ?_, ?_⟩
  · have sum : add64 (first * pageSize) (i * pageSize) = (first + i) % 2 ^ 52 * pageSize := by
      unfold add64 pageSize
      omega
    rw [sum]
    rfl
  · unfold pageSize at *
    omega

section Keys

variable {address page : Nat}

/-- A page that is mapped to itself holds its own addresses. -/
theorem selfMapping_match (low : address < 2 ^ 47)
    (place : page < 2 ^ 35 + 32 ∨ (2 ^ 52 - 16 ≤ page ∧ page < 2 ^ 52))
    (same : pageKey address = pageKey (page * pageSize)) : page = address / pageSize := by
  unfold pageKey pageSize at *
  omega

/-- The passthru window reaches a low address only by wrapping around. -/
theorem passthru_match_low (low : address < 2 ^ 47) (small : page < 2 ^ 35)
    (same : pageKey address = pageKey (getVirtAddr (page * pageSize))) :
    page = address / pageSize + 2 ^ 19 := by
  unfold pageKey getVirtAddr add64 passthruBase pageSize at *
  omega

/-- The window holds every address at one place. -/
theorem passthru_match (low : address < 2 ^ 47) (small : page < 2 ^ 35)
    (same : pageKey (getVirtAddr address) = pageKey (getVirtAddr (page * pageSize))) :
    page = address / pageSize := by
  unfold pageKey getVirtAddr add64 passthruBase pageSize at *
  omega

/-- An address of the window is mapped to itself only by wrapping around. -/
theorem passthru_match_self (low : address < 2 ^ 47) (small : page < 2 ^ 35)
    (same : pageKey (getVirtAddr address) = pageKey (page * pageSize)) :
    address / pageSize = page + 2 ^ 19 := by
  unfold pageKey getVirtAddr add64 passthruBase pageSize at *
  omega

/-- An address of the window lies in the page of its frame. -/
theorem passthru_key :
    pageKey (getVirtAddr address) = pageKey (getVirtAddr (address / pageSize * pageSize)) := by
  unfold pageKey getVirtAddr add64 passthruBase pageSize
  omega

/-- The frames that wrap around to an address lie above the end of memory. -/
theorem passthru_above {top : Nat} (aligned : top % pageSize = 0) (above : top ≤ address + 2 ^ 31)
    (wrapped : page = address / pageSize + 2 ^ 19) : top ≤ page * pageSize := by
  unfold pageSize at *
  omega

/-- The window keeps the offset in the page. -/
theorem getVirtAddr_offset : getVirtAddr address % pageSize = address % pageSize := by
  unfold getVirtAddr add64 passthruBase pageSize
  omega

/-- The addresses of the window are usable. -/
theorem getVirtAddr_canonical (low : address < 2 ^ 47) : canonical (getVirtAddr address) = true := by
  unfold canonical getVirtAddr add64 passthruBase
  simp only [Bool.or_eq_true, Bool.and_eq_true, decide_eq_true_eq]
  omega

end Keys

/-- A frame that is found fits into an entry. -/
theorem lookup_lt {vmm : Vmm} {pml4 address frame : Nat}
    (found : lookup vmm pml4 address = some frame) : frame < 2 ^ 52 := by
  rw [lookup_eq, Option.bind_eq_some_iff] at found
  obtain ⟨entry, _, named⟩ := found
  unfold present at named
  split at named
  · cases named
  · rw [← Option.some.inj named, addrMask_eq]
    omega

/-- An address that is translated to itself lies in the lower half. -/
theorem translate_self_lt {vmm : Vmm} {address : Nat} (found : translate vmm address = some address) :
    address < 2 ^ 47 := by
  unfold translate at found
  split at found
  · rename_i usable
    obtain ⟨frame, look, same⟩ := Option.map_eq_some_iff.mp found
    have bound := lookup_lt look
    unfold canonical at usable
    simp only [Bool.or_eq_true, Bool.and_eq_true, decide_eq_true_eq] at usable
    unfold pageSize at same
    omega
  · cases found

/-- A frame and the offset in its page make the translation of a canonical address. -/
theorem translate_eq {vmm : Vmm} {pml4 address frame : Nat} (cr3 : vmm.cr3 = pml4)
    (top : pml4 &&& pteAddrMask = pml4) (usable : canonical address = true)
    (found : lookup vmm pml4 address = some frame) :
    translate vmm address = some (frame + address % pageSize) := by
  rw [translate, if_pos usable, cr3, top, found]
  rfl

/-- The addresses of the lower half are usable. -/
theorem canonical_low {address : Nat} (low : address < 2 ^ 47) : canonical address = true := by
  unfold canonical
  simp only [Bool.or_eq_true, Bool.and_eq_true, decide_eq_true_eq]
  omega

/-- The tables keep every mapping that `init_vmm` was asked to make. -/
structure KeepsMappings (machine : LinkedMachine) (vmm : Vmm) : Prop where
  kernel : ∀ b < machine.boot.kernelSize,
    translate vmm (machine.boot.kernelVirtualAddress + b) =
      some (machine.boot.kernelPhysicalAddressStart + b)
  framebuffer : ∀ address, machine.boot.framebufferBase ≤ address →
    address < machine.boot.framebufferBase + machine.boot.framebufferSize →
    translate vmm address = some address
  initramfs : ∀ address, machine.boot.initramfsAddress ≤ address →
    address < machine.boot.initramfsAddress + machine.boot.initramfsSize →
    translate vmm address = some address
  passthru : ∀ p < vmm.pmm.maxPhysicalAddress, translate vmm (getVirtAddr p) = some p

/-- The kernel, the framebuffer and the initramfs. -/
def LinkedMachine.loadedRanges (machine : LinkedMachine) : List Range :=
  [⟨machine.boot.kernelPhysicalAddressStart, machine.boot.kernelVirtualAddress,
      machine.boot.kernelSize⟩,
    identityRange machine.boot.framebufferBase machine.boot.framebufferSize,
    identityRange machine.boot.initramfsAddress machine.boot.initramfsSize]

/-- The part of low memory that the passthru window wraps over is free of every loaded range and of
every range that `init_vmm` maps after the window, and the loaded ranges end in the lower half. -/
structure LinkedMachine.Apart (machine : LinkedMachine) : Prop where
  low : ∀ range ∈ machine.loadedRanges, 0 < range.size → range.phys + range.size ≤ 2 ^ 47
  loaded : ∀ range ∈ machine.loadedRanges, 0 < range.size → machine.top ≤ range.phys + 2 ^ 31
  late : ∀ range ∈ machine.lateRanges, 0 < range.size + range.phys % pageSize →
    machine.top ≤ range.phys + 2 ^ 31

section Machine

variable (machine : LinkedMachine)

/-- Memory ends at a page. -/
theorem LinkedMachine.top_aligned : machine.top % pageSize = 0 := by
  refine topAddress_keeps (fun top => top % pageSize = 0) rfl ?_
  intro desc member conventional
  obtain ⟨index, _, rfl⟩ := List.mem_map.mp member
  have aligned := machine.aligned index
  unfold add64 mul64
  unfold pageSize at *
  omega

/-- The interrupt controller lies below four gigabytes. -/
theorem Machine.apicBase_le (machine : Machine) : machine.apicBase ≤ 2 ^ 32 := by
  have bits : (machine.apicRecord >>> 12) &&& 0xFFFFF ≤ 0xFFFFF := Nat.and_le_right
  unfold Machine.apicBase
  rw [Nat.shiftLeft_eq]
  omega

/-- Every range after the passthru window is mapped to itself and ends in the lower half. -/
theorem LinkedMachine.lateRanges_low
    (fits : machine.boot.initramfsAddress + machine.boot.initramfsSize ≤ 2 ^ 47) :
    ∀ range ∈ machine.lateRanges, range = identityRange range.phys range.size ∧
      range.phys + range.size ≤ 2 ^ 47 := by
  have bootLow := machine.bootLow
  have mapLow := machine.mapLow
  intro range member
  unfold Machine.lateRanges at member
  rcases List.mem_cons.mp member with rfl | member
  · exact ⟨rfl, fits⟩
  · rcases List.mem_append.mp member with apic | member
    · unfold Machine.apicRanges at apic
      split at apic
      · rcases List.mem_append.mp apic with conventional | controller
        · obtain ⟨desc, kept, rfl⟩ := List.mem_map.mp conventional
          obtain ⟨listed, type⟩ := List.mem_filter.mp kept
          obtain ⟨index, _, rfl⟩ := List.mem_map.mp listed
          have low := machine.low index (of_decide_eq_true type)
          refine ⟨rfl, ?_⟩
          unfold identityRange
          dsimp only
          rw [mul64_eq (by omega)]
          exact low
        · rw [List.mem_singleton] at controller
          subst controller
          have bound := machine.apicBase_le
          refine ⟨rfl, ?_⟩
          unfold identityRange
          dsimp only
          omega
      · cases apic
    · rcases List.mem_cons.mp member with rfl | member
      · refine ⟨rfl, ?_⟩
        unfold identityRange
        dsimp only
        rw [pageMask_low (by omega)]
        unfold pageSize
        omega
      · rw [List.mem_singleton] at member
        subst member
        refine ⟨rfl, ?_⟩
        have offset : machine.boot.memoryMap &&& (pageSize - 1) = machine.boot.memoryMap % 2 ^ 12 :=
          Nat.and_two_pow_sub_one_eq_mod _ 12
        unfold identityRange
        dsimp only
        rw [pageMask_low (by omega), offset, add64_eq (by omega)]
        unfold pageSize
        omega

/-- The pages after the window are mapped to themselves. -/
theorem LinkedMachine.mem_latePages
    (fits : machine.boot.initramfsAddress + machine.boot.initramfsSize ≤ 2 ^ 47) {mapping : Mapping}
    (member : mapping ∈ machine.lateRanges.flatMap Range.pages) :
    ∃ range ∈ machine.lateRanges, ∃ page, range.phys / pageSize ≤ page ∧
      page * pageSize < range.phys + range.size ∧ page < 2 ^ 35 ∧ mapping = selfMapping page := by
  obtain ⟨range, listed, inside⟩ := List.mem_flatMap.mp member
  obtain ⟨same, low⟩ := machine.lateRanges_low fits range listed
  rw [same, mem_identityPages low] at inside
  obtain ⟨page, above, below, rfl⟩ := inside
  refine ⟨range, listed, page, above, below, ?_, rfl⟩
  unfold pageSize at below
  omega

/-- Every range before the passthru window is mapped to itself. -/
theorem LinkedMachine.mem_earlyPages
    (kernelFits : 0x100000 + machine.boot.kernelSize ≤ 2 ^ 47)
    (framebufferFits : machine.boot.framebufferBase + machine.boot.framebufferSize ≤ 2 ^ 47)
    {mapping : Mapping} (member : mapping ∈ machine.earlyRanges.flatMap Range.pages) :
    ∃ page, mapping = selfMapping page ∧
      (page < 2 ^ 35 + 32 ∨ (2 ^ 52 - 16 ≤ page ∧ page < 2 ^ 52)) := by
  obtain ⟨range, listed, inside⟩ := List.mem_flatMap.mp member
  unfold Machine.earlyRanges at listed
  have identity {base size : Nat} (fits : base + size ≤ 2 ^ 47)
      (inside : mapping ∈ (identityRange base size).pages) : ∃ page, mapping = selfMapping page ∧
        (page < 2 ^ 35 + 32 ∨ (2 ^ 52 - 16 ≤ page ∧ page < 2 ^ 52)) := by
    obtain ⟨page, _, below, rfl⟩ := (mem_identityPages fits mapping).mp inside
    refine ⟨page, rfl, Or.inl ?_⟩
    unfold pageSize at below
    omega
  simp only [List.mem_cons, List.not_mem_nil, or_false] at listed
  rcases listed with rfl | rfl | rfl | rfl
  · rw [machine.kernelPhysical, machine.kernelVirtual] at inside
    exact identity kernelFits inside
  · exact mem_aroundPages machine.stackLow (by decide) (by decide) inside
  · rw [show pageSize * 10 = 10 * pageSize from Nat.mul_comm _ _] at inside
    have one : 1 * pageSize = pageSize := Nat.one_mul _
    rw [← one] at inside
    exact mem_aroundPages machine.codeLow (by decide) (by decide) inside
  · exact identity framebufferFits inside

end Machine

/-- The loaded ranges end in the lower half. -/
structure LinkedMachine.Fits (machine : LinkedMachine) : Prop where
  kernel : 0x100000 + machine.boot.kernelSize ≤ 2 ^ 47
  framebuffer : machine.boot.framebufferBase + machine.boot.framebufferSize ≤ 2 ^ 47
  initramfs : machine.boot.initramfsAddress + machine.boot.initramfsSize ≤ 2 ^ 47

/-- Every loaded range ends in the lower half. -/
theorem LinkedMachine.Fits.low {machine : LinkedMachine} (fits : machine.Fits) :
    ∀ range ∈ machine.loadedRanges, range.phys + range.size ≤ 2 ^ 47 := by
  intro range listed
  simp only [LinkedMachine.loadedRanges, List.mem_cons, List.not_mem_nil, or_false] at listed
  rcases listed with rfl | rfl | rfl
  · dsimp only
    rw [machine.kernelPhysical]
    exact fits.kernel
  · exact fits.framebuffer
  · exact fits.initramfs

/-- Ranges that lie apart end in the lower half. -/
theorem LinkedMachine.Apart.fits {machine : LinkedMachine} (apart : machine.Apart) : machine.Fits := by
  have kernel := apart.low _ (show _ ∈ machine.loadedRanges from List.mem_cons_self)
  have framebuffer := apart.low (identityRange machine.boot.framebufferBase machine.boot.framebufferSize)
    (by simp [LinkedMachine.loadedRanges])
  have initramfs := apart.low (identityRange machine.boot.initramfsAddress machine.boot.initramfsSize)
    (by simp [LinkedMachine.loadedRanges])
  have framebufferLow := machine.framebufferLow
  have initramfsLow := machine.initramfsLow
  dsimp only [identityRange] at kernel framebuffer initramfs
  rw [machine.kernelPhysical] at kernel
  refine ⟨?_, ?_, ?_⟩ <;> omega

section Mapped

variable {machine : LinkedMachine} {pml4 : Nat} {first last : Vmm} (valid : Tables pml4 first)
  (mapped : mapPages pml4 first ((machine.ranges machine.top).flatMap Range.pages) = .ok last)
  (fits : machine.Fits)
include valid mapped fits

omit valid mapped fits in
/-- The pages are mapped before the window, in it and after it. -/
theorem LinkedMachine.pages_eq : (machine.ranges machine.top).flatMap Range.pages =
    machine.earlyRanges.flatMap Range.pages ++
      ((⟨0, passthruBase, machine.top⟩ : Range).pages ++ machine.lateRanges.flatMap Range.pages) := by
  unfold Machine.ranges
  rw [List.flatMap_append, List.flatMap_cons]

/-- An address above the part that the passthru window wraps over is mapped to itself. -/
theorem lookup_self {address : Nat} (low : address < 2 ^ 47) (above : machine.top ≤ address + 2 ^ 31)
    (hit : selfMapping (address / pageSize) ∈ (machine.ranges machine.top).flatMap Range.pages) :
    lookup last pml4 address = some (address / pageSize * pageSize) := by
  have aligned := machine.top_aligned
  have topLow := machine.top_le
  have masked : address / pageSize * pageSize &&& pteAddrMask = address / pageSize * pageSize :=
    addrMask_page (by unfold pageSize; omega)
  refine mapPages_lookup valid mapped ?_ (Or.inr ⟨_, hit, ?_⟩)
  · intro mapping member same
    rw [LinkedMachine.pages_eq] at member
    rcases List.mem_append.mp member with early | member
    · obtain ⟨page, rfl, place⟩ := machine.mem_earlyPages fits.kernel fits.framebuffer early
      rw [selfMapping_match low place same]
      exact masked
    · rcases List.mem_append.mp member with window | late
      · obtain ⟨page, below, rfl⟩ := (mem_passthruPages topLow mapping).mp window
        have here := passthru_match_low low (by unfold pageSize at below; omega) same
        exact absurd below (not_lt.mpr (passthru_above aligned above here))
      · obtain ⟨_, _, page, _, _, small, rfl⟩ := machine.mem_latePages fits.initramfs late
        rw [selfMapping_match low (Or.inl (by omega)) same]
        exact masked
  · exact pageKey_start

/-- The page of an address below the end of memory is mapped in the passthru window when no page of a
later range takes its place. -/
theorem lookup_window {p : Nat} (below : p < machine.top)
    (late : ∀ range ∈ machine.lateRanges, ∀ page, range.phys / pageSize ≤ page →
      page * pageSize < range.phys + range.size → p / pageSize ≠ page + 2 ^ 19) :
    lookup last pml4 (getVirtAddr p) = some (p / pageSize * pageSize) := by
  have topLow := machine.top_le
  rw [LinkedMachine.pages_eq, mapPages_append, bind_eq_ok] at mapped
  obtain ⟨middle, early, mapped⟩ := mapped
  obtain ⟨valid, _⟩ := mapPages_spec valid early
  refine mapPages_lookup valid mapped ?_ (Or.inr ⟨⟨p / pageSize * pageSize,
    getVirtAddr (p / pageSize * pageSize)⟩, ?_, passthru_key⟩)
  · intro mapping member same
    rcases List.mem_append.mp member with window | later
    · obtain ⟨page, inside, rfl⟩ := (mem_passthruPages topLow mapping).mp window
      have small : page < 2 ^ 35 := by
        unfold pageSize at inside
        omega
      rw [passthru_match (by omega) small same]
      exact addrMask_page (by unfold pageSize; omega)
    · obtain ⟨range, listed, page, start, inside, small, rfl⟩ :=
        machine.mem_latePages fits.initramfs later
      exact absurd (passthru_match_self (by omega) small same) (late range listed page start inside)
  · refine List.mem_append.mpr (Or.inl ((mem_passthruPages topLow _).mpr ⟨p / pageSize, ?_, rfl⟩))
    unfold pageSize
    omega

/-- The window keeps its pages when no later range starts in the part of low memory that it wraps
over. -/
theorem lookup_passthru {p : Nat} (below : p < machine.top)
    (late : ∀ range ∈ machine.lateRanges, 0 < range.size + range.phys % pageSize →
      machine.top ≤ range.phys + 2 ^ 31) :
    lookup last pml4 (getVirtAddr p) = some (p / pageSize * pageSize) := by
  have aligned := machine.top_aligned
  refine lookup_window valid mapped fits below fun range listed page start inside here => ?_
  have clash := late range listed (by unfold pageSize at *; omega)
  unfold pageSize at *
  omega

/-- The first page of a range after the passthru window is mapped to itself. -/
theorem lookup_late {range : Range} (listed : range ∈ machine.lateRanges)
    (nonempty : 0 < range.size + range.phys % pageSize) :
    lookup last pml4 (range.phys / pageSize * pageSize) =
      some (range.phys / pageSize * pageSize) := by
  obtain ⟨same, low⟩ := machine.lateRanges_low fits.initramfs range listed
  have start : range.phys / pageSize * pageSize < 2 ^ 47 := by
    unfold pageSize at *
    omega
  rw [LinkedMachine.pages_eq, ← List.append_assoc, mapPages_append, bind_eq_ok] at mapped
  obtain ⟨middle, before, mapped⟩ := mapped
  obtain ⟨valid, _⟩ := mapPages_spec valid before
  refine mapPages_lookup valid mapped ?_ (Or.inr ⟨selfMapping (range.phys / pageSize), ?_, rfl⟩)
  · intro mapping member same
    obtain ⟨_, _, page, _, _, small, rfl⟩ := machine.mem_latePages fits.initramfs member
    have here := selfMapping_match start (Or.inl (by omega)) same
    rw [page_quotient] at here
    rw [here]
    exact addrMask_page (by unfold pageSize; omega)
  · refine List.mem_flatMap.mpr ⟨range, listed, ?_⟩
    rw [same, mem_identityPages low]
    refine ⟨range.phys / pageSize, le_rfl, ?_, rfl⟩
    unfold pageSize at *
    omega

end Mapped

section Booted

variable {machine : LinkedMachine} {pml4 : Nat} {first last : Vmm} (valid : Tables pml4 first)
  (mapped : mapPages pml4 first ((machine.ranges machine.top).flatMap Range.pages) = .ok last)
  (booted : Booted pml4 { last with cr3 := pml4 })
  (top : last.pmm.maxPhysicalAddress = machine.top)
include valid mapped booted top

omit top in
/-- A loaded range above the part that the passthru window wraps over is mapped to itself. -/
theorem translate_loaded (fits : machine.Fits) {base size : Nat} (small : base + size ≤ 2 ^ 47)
    (listed : identityRange base size ∈ machine.ranges machine.top)
    (above : 0 < size → machine.top ≤ base + 2 ^ 31) {address : Nat} (start : base ≤ address)
    (finish : address < base + size) :
    translate { last with cr3 := pml4 } address = some address := by
  have nonempty : 0 < size := by omega
  have low : address < 2 ^ 47 := by omega
  have higher : machine.top ≤ address + 2 ^ 31 := by
    have bound := above nonempty
    omega
  have hit : selfMapping (address / pageSize) ∈ (machine.ranges machine.top).flatMap Range.pages := by
    refine List.mem_flatMap.mpr ⟨_, listed, ?_⟩
    rw [mem_identityPages small]
    refine ⟨address / pageSize, Nat.div_le_div_right start, ?_, rfl⟩
    exact lt_of_le_of_lt (Nat.div_mul_le_self _ _) finish
  have found := lookup_self valid mapped fits low higher hit
  rw [translate_eq rfl booted.root (canonical_low low) found, Nat.div_add_mod']

/-- When the ranges lie apart, every mapping is kept. -/
theorem keepsMappings_of_apart (apart : machine.Apart) :
    KeepsMappings machine { last with cr3 := pml4 } := by
  have fits := apart.fits
  have topLow := machine.top_le
  have kernelAbove := apart.loaded _ (show _ ∈ machine.loadedRanges from List.mem_cons_self)
  have framebufferAbove := apart.loaded
    (identityRange machine.boot.framebufferBase machine.boot.framebufferSize)
    (by simp [LinkedMachine.loadedRanges])
  have initramfsAbove := apart.loaded
    (identityRange machine.boot.initramfsAddress machine.boot.initramfsSize)
    (by simp [LinkedMachine.loadedRanges])
  have kernelListed : identityRange 0x100000 machine.boot.kernelSize ∈
      machine.ranges machine.top := by
    have first : (⟨machine.boot.kernelPhysicalAddressStart, machine.boot.kernelVirtualAddress,
        machine.boot.kernelSize⟩ : Range) ∈ machine.ranges machine.top := List.mem_cons_self
    rwa [machine.kernelPhysical, machine.kernelVirtual] at first
  dsimp only [identityRange] at kernelAbove framebufferAbove initramfsAbove
  rw [machine.kernelPhysical] at kernelAbove
  refine ⟨?_, ?_, ?_, ?_⟩
  · intro b below
    rw [machine.kernelVirtual, machine.kernelPhysical]
    exact translate_loaded valid mapped booted fits fits.kernel kernelListed kernelAbove
      (Nat.le_add_right _ _) (by omega)
  · intro address start finish
    refine translate_loaded valid mapped booted fits fits.framebuffer ?_ framebufferAbove start finish
    simp [Machine.ranges, Machine.earlyRanges]
  · intro address start finish
    refine translate_loaded valid mapped booted fits fits.initramfs ?_ initramfsAbove start finish
    simp [Machine.ranges, Machine.lateRanges]
  · intro p below
    dsimp only at below
    rw [top] at below
    have found := lookup_passthru valid mapped fits below apart.late
    rw [translate_eq rfl booted.root (getVirtAddr_canonical (by omega)) found, getVirtAddr_offset,
      Nat.div_add_mod']

omit valid mapped booted in
/-- The passthru window wraps over low addresses. -/
theorem KeepsMappings.wraps (keeps : KeepsMappings machine { last with cr3 := pml4 }) {address : Nat}
    (below : address + 2 ^ 31 < machine.top) :
    translate { last with cr3 := pml4 } address = some (address + 2 ^ 31) := by
  have topLow := machine.top_le
  have window := keeps.passthru (address + 2 ^ 31) (by
    dsimp only
    rw [top]
    exact below)
  have wrapped : getVirtAddr (address + 2 ^ 31) = address := by
    unfold getVirtAddr add64 passthruBase
    omega
  rw [wrapped] at window
  exact window

/-- When every mapping is kept, the ranges lie apart. -/
theorem apart_of_keepsMappings (keeps : KeepsMappings machine { last with cr3 := pml4 }) :
    machine.Apart := by
  have aligned := machine.top_aligned
  have framebufferLow := machine.framebufferLow
  have initramfsLow := machine.initramfsLow
  have ends {base size : Nat} (kept : ∀ address, base ≤ address → address < base + size →
      translate { last with cr3 := pml4 } address = some address) (low : base ≤ 2 ^ 47) :
      base + size ≤ 2 ^ 47 := by
    by_contra beyond
    have outside := translate_self_lt (kept (2 ^ 47) low (by omega))
    omega
  have starts {base size : Nat} (kept : ∀ address, base ≤ address → address < base + size →
      translate { last with cr3 := pml4 } address = some address) (nonempty : 0 < size) :
      machine.top ≤ base + 2 ^ 31 := by
    by_contra below
    have window := keeps.wraps top (not_le.mp below)
    rw [kept base le_rfl (by omega), Option.some.injEq] at window
    omega
  have kernel : ∀ address, 0x100000 ≤ address → address < 0x100000 + machine.boot.kernelSize →
      translate { last with cr3 := pml4 } address = some address := by
    intro address start finish
    have kept := keeps.kernel (address - 0x100000) (by omega)
    rwa [machine.kernelVirtual, machine.kernelPhysical, Nat.add_sub_of_le start] at kept
  have fits : machine.Fits := ⟨ends kernel (by decide), ends keeps.framebuffer (by omega),
    ends keeps.initramfs (by omega)⟩
  refine ⟨fun range listed _ => fits.low range listed, ?_, ?_⟩
  · intro range listed nonempty
    simp only [LinkedMachine.loadedRanges, List.mem_cons, List.not_mem_nil, or_false] at listed
    rcases listed with rfl | rfl | rfl
    · dsimp only
      rw [machine.kernelPhysical]
      exact starts kernel nonempty
    · exact starts keeps.framebuffer nonempty
    · exact starts keeps.initramfs nonempty
  · intro range listed nonempty
    by_contra below
    have low := (machine.lateRanges_low fits.initramfs range listed).2
    have start : range.phys / pageSize * pageSize < 2 ^ 47 ∧
        range.phys / pageSize * pageSize + 2 ^ 31 < machine.top := by
      unfold pageSize at *
      omega
    have window := keeps.wraps top start.2
    have found := lookup_late valid mapped fits listed nonempty
    rw [translate_eq rfl booted.root (canonical_low start.1) found, Option.some.injEq] at window
    unfold pageSize at window
    omega

end Booted

/-- The tables of `init_vmm` keep every mapping exactly when the passthru window wraps over none of
the loaded ranges and of the ranges that are mapped after it. -/
theorem keepsMappings_iff (machine : LinkedMachine) (old : PackedBits.Bytes)
    (frames : Nat → Fin 512 → Nat) (uefiCr3 : Nat) (start : Pmm) (vmm : Vmm)
    (booted : initMemory machine.toMachine old frames uefiCr3 start = .ok vmm) :
    KeepsMappings machine vmm ↔ machine.Apart := by
  obtain ⟨pml4, first, last, valid, _, mapped, rfl, top, booted⟩ := initMemory_spec booted
  exact ⟨apart_of_keepsMappings valid mapped booted top, keepsMappings_of_apart valid mapped booted top⟩

/-- Two gigabytes of memory from two megabytes on. -/
def twoGigabytesMap : FirmwareMap where
  size := 48
  descriptorSize := 48
  descriptor := fun _ => ⟨efiConventionalMemory, 0x200000, 2 ^ 19⟩
  aligned := fun _ => rfl
  stride := by decide
  fits := fun _ => by decide

/-- A machine with two gigabytes of memory and a local interrupt controller. -/
def twoGigabytes : LinkedMachine where
  boot :=
    { framebufferBase := 0xC0000000, framebufferSize := 0x1000, memoryMap := 0x191000,
      map := twoGigabytesMap.toMemoryMap, kernelPhysicalAddressStart := 0x100000,
      kernelVirtualAddress := 0x100000, kernelSize := 0x10000, initramfsAddress := 0x180000,
      initramfsSize := 0x1000 }
  bootAddr := 0x190000
  rsp := 0x1A8000
  rip := 0x101000
  cpuidEdx := 0x200
  apicRecord := 0xFEE00900
  low := by
    intro _ _
    change 0x200000 + 2 ^ 19 * pageSize ≤ 2 ^ 47
    decide
  kernelPhysical := rfl
  kernelVirtual := rfl
  aligned := by
    intro _
    change 0x200000 % pageSize = 0
    decide
  stackLow := by decide
  codeLow := by decide
  framebufferLow := by decide
  initramfsLow := by decide
  bootLow := by decide
  mapLow := by decide

/-- Conventional memory from two megabytes on. -/
def flatMap (pages : Nat) (few : pages ≤ 2 ^ 19) : FirmwareMap where
  size := 48
  descriptorSize := 48
  descriptor := fun _ => ⟨efiConventionalMemory, 0x200000, pages⟩
  aligned := by
    intro _
    dsimp only
    decide
  stride := by decide
  fits := by
    intro _
    dsimp only
    unfold pageSize
    omega

/-- A machine like the one with two gigabytes, with another amount of memory and another place of the
initramfs. -/
def flatMachine (pages initramfs : Nat) (few : pages ≤ 2 ^ 19) (below : initramfs < 2 ^ 21) :
    LinkedMachine where
  boot :=
    { framebufferBase := 0xC0000000, framebufferSize := 0x1000, memoryMap := 0x191000,
      map := (flatMap pages few).toMemoryMap, kernelPhysicalAddressStart := 0x100000,
      kernelVirtualAddress := 0x100000, kernelSize := 0x10000, initramfsAddress := initramfs,
      initramfsSize := 0x1000 }
  bootAddr := 0x190000
  rsp := 0x1A8000
  rip := 0x101000
  cpuidEdx := 0x200
  apicRecord := 0xFEE00900
  low := by
    intro _ _
    change 0x200000 + pages * pageSize ≤ 2 ^ 47
    unfold pageSize
    omega
  kernelPhysical := rfl
  kernelVirtual := rfl
  aligned := (flatMap pages few).aligned
  stackLow := by decide
  codeLow := by decide
  framebufferLow := twoGigabytes.framebufferLow
  initramfsLow := by
    dsimp only
    omega
  bootLow := by decide
  mapLow := by
    change 0x191000 + 48 ≤ 2 ^ 47
    decide

section Flat

variable {pages initramfs : Nat} (few : pages ≤ 2 ^ 19) (below : initramfs < 2 ^ 21)

/-- The map has one descriptor. -/
theorem flatMap_descriptors : (flatMap pages few).toMemoryMap.descriptors =
    [⟨efiConventionalMemory, 0x200000, pages⟩] := by
  have one : (flatMap pages few).toMemoryMap.entries = 1 := by
    change 48 / 48 = 1
    decide
  rw [MemoryMap.descriptors, one]
  rfl

/-- The ranges of the machine in the order in which they are mapped. -/
theorem flatMachine_ranges (top : Nat) : (flatMachine pages initramfs few below).ranges top =
    [identityRange 0x100000 0x10000, identityRange 0x198000 0x20000, identityRange 0x100000 0xA000,
      identityRange 0xC0000000 0x1000, ⟨0, passthruBase, top⟩, identityRange initramfs 0x1000,
      identityRange 0x200000 (mul64 pages pageSize), identityRange 0xFEE00000 0x4000,
      identityRange 0x190000 0x1000, identityRange 0x191000 48] := by
  have conventional : conventionalRanges (flatMachine pages initramfs few below).boot.map.descriptors =
      [identityRange 0x200000 (mul64 pages pageSize)] :=
    congrArg conventionalRanges (flatMap_descriptors few)
  have apic : (flatMachine pages initramfs few below).supportApic = true :=
    (by decide : twoGigabytes.supportApic = true)
  have base : (flatMachine pages initramfs few below).apicBase = 0xFEE00000 :=
    (by decide : twoGigabytes.apicBase = 0xFEE00000)
  have early : (flatMachine pages initramfs few below).earlyRanges = [identityRange 0x100000 0x10000,
      identityRange 0x198000 0x20000, identityRange 0x100000 0xA000, identityRange 0xC0000000 0x1000] :=
    (rfl : twoGigabytes.earlyRanges = _)
  have boot : (flatMachine pages initramfs few below).bootAddr &&& pageMask = 0x190000 :=
    (by decide : 0x190000 &&& pageMask = 0x190000)
  have firmware : (flatMachine pages initramfs few below).boot.memoryMap &&& pageMask = 0x191000 :=
    (by decide : 0x191000 &&& pageMask = 0x191000)
  have length : add64 (flatMachine pages initramfs few below).boot.map.size
      ((flatMachine pages initramfs few below).boot.memoryMap &&& (pageSize - 1)) = 48 :=
    (by decide : add64 48 (0x191000 &&& (pageSize - 1)) = 48)
  rw [Machine.ranges, Machine.lateRanges, Machine.apicRanges, apic, conventional, early, base, boot,
    firmware, length]
  rfl

/-- Memory ends behind its pages. -/
theorem flatMap_top : (flatMap pages few).toMemoryMap.descriptors.foldl topAddress 0 =
    0x200000 + pages * pageSize := by
  rw [flatMap_descriptors]
  change max 0 (add64 0x200000 (mul64 pages pageSize)) = _
  rw [Nat.zero_max, mul64_eq (by unfold pageSize; omega), add64_eq (by unfold pageSize; omega)]

/-- The bitmap is a little longer than 64 KiB at most. -/
theorem flatMap_bitmap : bitmapSize (flatMap pages few).toMemoryMap ≤ 65600 := by
  rw [bitmapSize, flatMap_top]
  unfold pageSize
  omega

/-- The pages behind the bitmap are free, and the pages below the memory are not. -/
theorem flatMap_pages {initial : Pmm} (initialised : Initialised (flatMap pages few).toMemoryMap initial)
    {page : Nat} :
    (0x211 ≤ page → page < 0x200 + pages → pageUsed initial page = false) ∧
      (page < 0x200 → pageUsed initial page = true) := by
  have free := initialised.initialPages
  have listed : (⟨efiConventionalMemory, 0x200000, pages⟩ : EfiMemoryDescriptor) ∈
      (flatMap pages few).toMemoryMap.descriptors := by
    rw [flatMap_descriptors, List.mem_singleton]
  have only {desc : EfiMemoryDescriptor} (member : desc ∈ (flatMap pages few).toMemoryMap.descriptors) :
      desc = ⟨efiConventionalMemory, 0x200000, pages⟩ := by
    rwa [flatMap_descriptors, List.mem_singleton] at member
  constructor
  · intro lower upper
    have covered : EfiMemoryDescriptor.Covers ⟨efiConventionalMemory, 0x200000, pages⟩ page := by
      refine ⟨rfl, ?_, ?_⟩
      · unfold pageSize
        dsimp only
        omega
      · unfold pageSize
        dsimp only
        omega
    have low := free.conventional _ listed page covered
    refine (free.free page low).mpr ⟨by omega, ⟨_, listed, covered⟩, ?_⟩
    rintro ⟨byte, above, below, same⟩
    have size := free.sizeofBitmap.trans_le (flatMap_bitmap few)
    obtain ⟨_, home, inMap, _, _, address⟩ := initialised.bitmapAddr
    rw [only inMap] at address
    rw [address] at above below
    unfold pageSize at same
    dsimp only at above below
    omega
  · intro below
    rcases Nat.lt_or_ge page initial.maxPages with inside | outside
    · cases held : pageUsed initial page with
      | true => rfl
      | false =>
          obtain ⟨_, ⟨desc, inMap, _, start, _⟩, _⟩ := (free.free page inside).mp held
          rw [only inMap] at start
          unfold pageSize at start
          dsimp only at start
          omega
    · rw [pageUsed, if_pos outside]

/-- With enough memory the page manager starts with a supply of pages. -/
theorem flatMap_supplied (many : 2 ^ 16 ≤ pages) (old : PackedBits.Bytes) (start : Pmm) :
    ∃ initial, initPmm (flatMap pages few).toMemoryMap old start = .ok initial ∧
      initial.maxPhysicalAddress = 0x200000 + pages * pageSize ∧ Supplied (2 ^ 15) initial := by
  have housed : ∃ desc ∈ (flatMap pages few).toMemoryMap.descriptors,
      desc.Houses (flatMap pages few).toMemoryMap := by
    rw [flatMap_descriptors]
    refine ⟨_, List.mem_singleton.mpr rfl, rfl, ?_, (flatMap_bitmap few).trans ?_⟩
    · dsimp only
      decide
    · dsimp only
      unfold pageSize
      omega
  obtain ⟨initial, result⟩ := initPmm_returns old start housed
  have initialised := initPmm_initialised result
  refine ⟨initial, result, initialised.maxPhysicalAddress.trans (flatMap_top few), initialised.ready,
    ?_, ?_⟩
  · rw [initialised.pageUsed]
    simp
  · rw [initialised.initialPages.freePages]
    have inside : Finset.Ico 1024 (1024 + 2 ^ 15) ⊆
        (Finset.range initial.maxPages).filter fun page => pageUsed initial page = false := by
      intro page member
      obtain ⟨lower, upper⟩ := Finset.mem_Ico.mp member
      have free := (flatMap_pages few initialised).1 (show 0x211 ≤ page by omega) (by omega)
      exact Finset.mem_filter.mpr ⟨Finset.mem_range.mpr (free_lt free), free⟩
    have count := Finset.card_le_card inside
    rw [Nat.card_Ico] at count
    omega

end Flat

/-- The regions of two megabytes in the lowest four gigabytes and in the highest two. -/
def lowAndHighRegions : Finset Nat := Finset.range 2048 ∪ Finset.Ico (2 ^ 27 - 1024) (2 ^ 27)

/-- There are at most 3072 of these regions. -/
theorem lowAndHighRegions_card : lowAndHighRegions.card ≤ 3072 := by
  have count := Finset.card_union_le (Finset.range 2048) (Finset.Ico (2 ^ 27 - 1024) (2 ^ 27))
  rw [Finset.card_range, Nat.card_Ico] at count
  exact count.trans (by decide)

/-- A range below four gigabytes that is mapped to itself lies in these regions. -/
theorem identity_region {base size : Nat} (fits : base + size ≤ 2 ^ 32) {mapping : Mapping}
    (member : mapping ∈ (identityRange base size).pages) :
    mapping.virt / 2 ^ 21 % 2 ^ 27 ∈ lowAndHighRegions := by
  obtain ⟨page, _, below, rfl⟩ := (mem_identityPages (by omega) mapping).mp member
  refine Finset.mem_union_left _ (Finset.mem_range.mpr ?_)
  unfold selfMapping
  dsimp only
  omega

/-- The passthru window of little memory lies in these regions. -/
theorem passthru_region {top : Nat} (low : top ≤ 0x80200000) {mapping : Mapping}
    (member : mapping ∈ (⟨0, passthruBase, top⟩ : Range).pages) :
    mapping.virt / 2 ^ 21 % 2 ^ 27 ∈ lowAndHighRegions := by
  obtain ⟨page, below, rfl⟩ := (mem_passthruPages (by omega) mapping).mp member
  unfold lowAndHighRegions getVirtAddr add64 passthruBase
  rw [Finset.mem_union, Finset.mem_range, Finset.mem_Ico]
  unfold pageSize at *
  dsimp only
  omega

/-- A range below four gigabytes does not wrap around. -/
theorem identityRange_fits {base size : Nat} (fits : base + size ≤ 2 ^ 32) :
    (identityRange base size).Fits := by
  unfold Range.Fits identityRange mappedSize
  dsimp only
  rw [pageMask_low (by omega), sub64_eq (Nat.div_mul_le_self _ _) (by omega)]
  unfold add64 pageSize
  omega

/-- Every range of the machine lies in the regions that have tables for sure. -/
theorem flatMachine_regions {pages initramfs : Nat} (few : pages ≤ 2 ^ 19) (below : initramfs < 2 ^ 21) :
    ∀ range ∈ (flatMachine pages initramfs few below).ranges (0x200000 + pages * pageSize), range.Fits ∧
      ∀ mapping ∈ range.pages, mapping.virt / 2 ^ 21 % 2 ^ 27 ∈ lowAndHighRegions := by
  have identity {base size : Nat} (fits : base + size ≤ 2 ^ 32) : (identityRange base size).Fits ∧
      ∀ mapping ∈ (identityRange base size).pages, mapping.virt / 2 ^ 21 % 2 ^ 27 ∈ lowAndHighRegions :=
    ⟨identityRange_fits fits, fun _ => identity_region fits⟩
  have low : 0x200000 + pages * pageSize ≤ 0x80200000 := by
    unfold pageSize
    omega
  have window : (⟨0, passthruBase, 0x200000 + pages * pageSize⟩ : Range).Fits ∧
      ∀ mapping ∈ (⟨0, passthruBase, 0x200000 + pages * pageSize⟩ : Range).pages,
        mapping.virt / 2 ^ 21 % 2 ^ 27 ∈ lowAndHighRegions := by
    refine ⟨?_, fun _ => passthru_region low⟩
    unfold Range.Fits mappedSize
    dsimp only
    rw [Nat.zero_and]
    unfold add64 sub64 pageSize at *
    omega
  have length : mul64 pages pageSize = pages * pageSize := mul64_eq (by unfold pageSize; omega)
  rw [flatMachine_ranges, length]
  simp only [List.forall_mem_cons, List.not_mem_nil, false_implies, implies_true, and_true]
  exact ⟨identity (by decide), identity (by decide), identity (by decide), identity (by decide), window,
    identity (by omega), identity (by omega), identity (by decide), identity (by decide),
    identity (by decide)⟩

/-- A machine with enough memory boots and has pages left. -/
theorem flatMachine_boots {pages initramfs : Nat} (few : pages ≤ 2 ^ 19) (many : 2 ^ 16 ≤ pages)
    (below : initramfs < 2 ^ 21) (frames : Nat → Fin 512 → Nat) :
    ∃ vmm, initMemory (flatMachine pages initramfs few below).toMachine (fun _ => 0#8) frames 0
      blankPmm = .ok vmm ∧
      Supplied (2 ^ 14) vmm.pmm := by
  have idle : (palloc blankPmm).1 = 0 := rfl
  obtain ⟨initial, made, top, supplied⟩ := flatMap_supplied few many (fun _ => 0#8)
    ((List.range 15).foldl (fun pmm i => pfree (i * 0x1000) pmm) (palloc blankPmm).2)
  obtain ⟨pmm, tested, layout, supplied⟩ := testPpmFunc_returns idle made
    (show Supplied (2 ^ 15 - 1 + 1) initial from supplied)
  have highest : pmm.maxPhysicalAddress = 0x200000 + pages * pageSize :=
    layout.maxPhysicalAddress.trans top
  have small : ∀ page, pageUsed pmm page = false → page < 2 ^ 40 := by
    intro page free
    have inside := free_lt free
    rw [supplied.ready.maxPages, highest] at inside
    unfold pageSize at inside
    omega
  have count := lowAndHighRegions_card
  have enough : lowAndHighRegions.card * 3 + 2 ^ 14 + 4 ≤ 2 ^ 15 - 1 + 1 := by
    generalize lowAndHighRegions.card = regions at count ⊢
    omega
  have ranges := flatMachine_regions few below
  rw [← highest] at ranges
  obtain ⟨vmm, booted, spare⟩ := initVmm_returns
    (show ∀ page, pageUsed (⟨pmm, frames, kheapBase, 0⟩ : Vmm).pmm page = false → page < 2 ^ 40
      from small)
    (show Supplied (lowAndHighRegions.card * 3 + 2 ^ 14 + 4) pmm from supplied.less enough)
    (fun range listed => (ranges range listed).1) (fun range listed => (ranges range listed).2)
  refine ⟨vmm, ?_, spare⟩
  rw [initMemory, bind_eq_ok]
  exact ⟨pmm, tested, booted⟩

/-- A machine with one gigabyte of memory. -/
def oneGigabyte : LinkedMachine := flatMachine (2 ^ 18) 0x180000 (by decide) (by decide)

/-- With one gigabyte of memory the machine boots. -/
theorem oneGigabyte_boots : ∃ first, initMemory oneGigabyte.toMachine (fun _ => 0#8) (fun _ _ => 0) 0
    blankPmm = .ok first ∧ Supplied (2 ^ 14) first.pmm :=
  flatMachine_boots (show 2 ^ 18 ≤ 2 ^ 19 by decide) (by decide) (by decide) fun _ _ => 0

/-- What the machine loads ends in the lower half. -/
theorem flatMachine_fits {pages initramfs : Nat} (few : pages ≤ 2 ^ 19) (below : initramfs < 2 ^ 21) :
    (flatMachine pages initramfs few below).Fits :=
  ⟨(by decide : 0x100000 + 0x10000 ≤ 2 ^ 47), (by decide : 0xC0000000 + 0x1000 ≤ 2 ^ 47),
    (by omega : initramfs + 0x1000 ≤ 2 ^ 47)⟩

theorem oneGigabyte_fits : oneGigabyte.Fits := flatMachine_fits (by decide) (by decide)

theorem oneGigabyte_top : oneGigabyte.top = 0x200000 + 2 ^ 18 * pageSize :=
  flatMap_top (show 2 ^ 18 ≤ 2 ^ 19 by decide)

/-- With two gigabytes of memory the machine boots. -/
theorem twoGigabytes_boots : ∃ vmm, initMemory twoGigabytes.toMachine (fun _ => 0#8) (fun _ _ => 0) 0
    blankPmm = .ok vmm ∧ Supplied (2 ^ 14) vmm.pmm :=
  flatMachine_boots (show 2 ^ 19 ≤ 2 ^ 19 from le_rfl) (by decide) (show 0x180000 < 2 ^ 21 by decide)
    fun _ _ => 0

/-- A machine with two gigabytes of memory. -/
theorem keepsMappings_iff_twoGigabytes :
    ∃ vmm, initMemory twoGigabytes.toMachine (fun _ => 0#8) (fun _ _ => 0) 0 blankPmm = .ok vmm ∧
      (KeepsMappings twoGigabytes vmm ↔ twoGigabytes.Apart) := by
  obtain ⟨vmm, booted, _⟩ := twoGigabytes_boots
  exact ⟨vmm, booted, keepsMappings_iff twoGigabytes (fun _ => 0#8) (fun _ _ => 0) 0 blankPmm vmm booted⟩

/-- With two gigabytes of memory the passthru window wraps over the kernel. -/
theorem twoGigabytes_loses_kernel :
    ∃ vmm, initMemory twoGigabytes.toMachine (fun _ => 0#8) (fun _ _ => 0) 0 blankPmm = .ok vmm ∧
      ¬ KeepsMappings twoGigabytes vmm := by
  obtain ⟨vmm, booted, _⟩ := twoGigabytes_boots
  refine ⟨vmm, booted, ?_⟩
  obtain ⟨pml4, first, last, valid, _, mapped, rfl, top, booted⟩ := initMemory_spec booted
  intro keeps
  have apart := apart_of_keepsMappings valid mapped booted top keeps
  have kernel := apart.loaded _ (show _ ∈ twoGigabytes.loadedRanges from List.mem_cons_self)
  revert kernel
  decide

end ArchaOS.VirtualMemory
