import ArchaOS.Proof.VirtualMemory.WrappedTable

namespace ArchaOS.VirtualMemory

open Library PhysicalMemory RadixTree

/-- A sequence of `map_page` makes the tables on its own ways only. -/
theorem mapPages_walks {pml4 : Nat} {vmm after : Vmm} {mappings : List Mapping}
    (valid : Tables pml4 vmm) (result : mapPages pml4 vmm mappings = .ok after)
    {target : List (Fin 512)} (short : target.length < 4)
    (apart : ∀ mapping ∈ mappings, target ∉ upperPaths mapping.virt) :
    walk present after.frames pml4 target = walk present vmm.frames pml4 target := by
  have turn (state : Vmm) (mapping : Mapping) (next : Vmm) (member : mapping ∈ mappings)
      (kept : Tables pml4 state ∧
        walk present state.frames pml4 target = walk present vmm.frames pml4 target)
      (turned : mapPage mapping.phys mapping.virt pml4 state = .ok next) :
      Tables pml4 next ∧
        walk present next.frames pml4 target = walk present vmm.frames pml4 target :=
    ⟨(mapPage_spec kept.1 turned).1,
      (mapPage_walks kept.1 turned short (apart mapping member)).trans kept.2⟩
  exact (foldlM_keeps turn ⟨valid, rfl⟩ result).2

/-- A machine with memory above two gigabytes, whose last page wraps around onto the initramfs. -/
def highMemory : LinkedMachine := flatMachine 0x7FE81 0x80000 (by decide) (by decide)

/-- What the machine loads ends in the lower half. -/
theorem highMemory_fits : highMemory.Fits := flatMachine_fits (by decide) (by decide)

/-- Memory ends behind page 0x80080. -/
theorem highMemory_top : highMemory.top = 0x80081 * pageSize :=
  (flatMap_top (show 0x7FE81 ≤ 2 ^ 19 by decide)).trans (by decide)

/-- The initramfs is mapped after the passthru window. -/
theorem highMemory_lateRanges : highMemory.lateRanges =
    [identityRange 0x80000 0x1000, identityRange 0x200000 (mul64 0x7FE81 pageSize),
      identityRange 0xFEE00000 0x4000, identityRange 0x190000 0x1000, identityRange 0x191000 48] := by
  have ranges : highMemory.ranges 0 = _ := flatMachine_ranges (by decide) (by decide) 0
  simpa [Machine.ranges, Machine.earlyRanges] using congrArg (List.drop 5) ranges

section Boot

variable {vmm first last : Vmm} {page : Nat}
  (made : Made highMemory.toLoadedMachine vmm page first last)
include made

/-- The window reaches every page but the last. -/
theorem highMemory_reached {p : Nat} (inside : p < 0x80081) (good : p ≠ 0x80080) :
    lookup last (page * pageSize) (getVirtAddr (p * pageSize)) = some (p * pageSize) := by
  have below : p * pageSize < highMemory.top := by
    rw [highMemory_top]
    unfold pageSize
    omega
  have found := lookup_window made.valid made.mapped highMemory_fits below fun range listed other start
      finish => by
    rw [highMemory_lateRanges] at listed
    rw [page_quotient]
    have length : mul64 0x7FE81 pageSize = 0x7FE81000 := by decide
    rw [length] at listed
    simp only [List.mem_cons, List.not_mem_nil, or_false] at listed
    unfold pageSize identityRange at *
    rcases listed with rfl | rfl | rfl | rfl | rfl <;> dsimp only at start finish <;> omega
  rwa [page_quotient] at found

/-- The address of the last page in the window leads to the initramfs. -/
theorem highMemory_wraps :
    lookup last (page * pageSize) (getVirtAddr (0x80080 * pageSize)) = some (0x80 * pageSize) := by
  have listed : identityRange 0x80000 0x1000 ∈ highMemory.lateRanges := by
    rw [highMemory_lateRanges]
    exact List.mem_cons_self
  have found := lookup_late made.valid made.mapped highMemory_fits listed (by decide)
  have address : getVirtAddr (0x80080 * pageSize) = 0x80 * pageSize := by decide
  rw [address]
  exact found

/-- No range has tables for the heap. -/
theorem highMemory_bare {index : Nat} (low : index < windowPages) :
    walk present last.frames (page * pageSize) (tableOf (slot index)) = none := by
  have place := slot_region_eq low
  unfold windowPages at low
  unfold kheapBase passthruBase pageSize at low
  refine (mapPages_walks made.valid made.mapped (by simp [tableOf]) fun mapping member inside => ?_).trans
    (made.bare _ (by simp [tableOf]) fun inside => ?_)
  · obtain ⟨range, listed, member⟩ := List.mem_flatMap.mp member
    have top : highMemory.top = 0x200000 + 0x7FE81 * pageSize := highMemory_top.trans (by decide)
    rw [top] at listed
    have region := (flatMachine_regions (show 0x7FE81 ≤ 2 ^ 19 by decide)
      (show 0x80000 < 2 ^ 21 by decide) range listed).2 mapping member
    have same : tableOf (slot index) = tableOf mapping.virt := by
      simpa [upperPaths, tableOf] using inside
    rw [← tableOf_inj same, place, lowAndHighRegions, Finset.mem_union, Finset.mem_range,
      Finset.mem_Ico] at region
    omega
  · have zero : tableOf 0 = [0, 0, 0] := by decide
    have same : tableOf (slot index) = tableOf 0 := by
      rw [zero]
      simpa [tableOf] using inside
    have regions := tableOf_inj same
    rw [place] at regions
    omega

end Boot

/-- After the start the last frame wraps. -/
theorem highMemory_wrapped {first : Vmm}
    (result : initMemory highMemory.toMachine (fun _ => 0#8) (fun _ _ => 3) 0 blankPmm = .ok first)
    (left : 0 < first.pmm.freePages) : ∃ pml4, Booted pml4 first ∧
      pageUsed first.pmm 0x80 = true ∧ Wrapped pml4 0x80080 0x80 first 0 first := by
  obtain ⟨pmm, page, start, last, tested, made, rfl⟩ := initMemory_made
    (show initMemory highMemory.toLoadedMachine.toMachine _ _ _ _ = _ from result)
  obtain ⟨initial, initialised, layout, ready, same⟩ := testPpmFunc_spec tested
  have booted := made.booted
  have few : 0x7FE81 ≤ 2 ^ 19 := by decide
  have size : pmm.maxPages = 0x80081 := by
    have top : pmm.maxPhysicalAddress = 0x80081 * pageSize :=
      (layout.maxPhysicalAddress.trans initialised.maxPhysicalAddress).trans highMemory_top
    rw [ready.maxPages, top, page_quotient]
  have lastFree : pageUsed pmm 0x80080 = false :=
    (same _).trans ((flatMap_pages few initialised).1 (by decide) (by decide))
  have lowUsed : pageUsed pmm 0x80 = true :=
    (same _).trans ((flatMap_pages few initialised).2 (by decide))
  have closed (state : Pmm) (keeps : KeepsLast 0x80080 state) : KeepsLast 0x80080 (palloc state).2 :=
    keeps.palloc
  have keeps : KeepsLast 0x80080 last.pmm := by
    refine mapPages_paid closed made.mapped ?_
    rw [made.paid]
    exact pallocs_paid closed 4 ⟨ready, size, Or.inl lastFree⟩
  have idle := keeps.free left
  have apart : 0x80080 ≠ page := by
    rintro rfl
    have taken : pageUsed last.pmm 0x80080 = true := made.all.used 0x80080 (by
      change pageUsed (markUsed pmm 0x80080) 0x80080 = true
      rw [pageUsed_markUsed, decide_eq_true rfl, Bool.true_or])
    rw [idle] at taken
    cases taken
  have held : pageUsed (markUsed pmm page) 0x80 = true := by
    rw [pageUsed_markUsed, lowUsed, Bool.or_true]
  have inside : last.pmm.maxPages = 0x80081 := keeps.size
  have covered : Covered (fun page => page = 0x80080) { last with cr3 := page * pageSize } := by
    refine ⟨fun other low good => ?_, fun other same => same ▸ idle⟩
    have below : other < 0x80081 := low.trans_eq inside
    exact translate_passthru booted.root (by omega) (highMemory_reached made below good)
  have wraps := highMemory_wraps made
  have data : ¬ IsTable last (page * pageSize) (0x80 * pageSize) := by
    intro table
    obtain ⟨_, _, walks⟩ := addRoot_tables made.small page
    have free := made.root
    rcases made.all.fresh _ table with ⟨path, _, reached⟩ | unused
    · rw [walks] at reached
      split at reached
      · rw [pages_inj (Option.some.inj reached)] at free
        cases lowUsed.symm.trans free
      · cases reached
    · rw [page_quotient] at unused
      cases held.symm.trans unused
  refine ⟨page * pageSize, booted, made.all.used 0x80 held, booted.invariant.toStanding, keeps, covered,
    ?_, wraps, data, fun index low _ => highMemory_bare made low⟩
  exact (made.all.contents 0x80080 idle).trans (clear_other _ (frames_apart apart))

/-- The kernel, its stack and the framebuffer stay mapped. -/
theorem highMemory_early {old : PackedBits.Bytes} {frames : Nat → Fin 512 → Nat} {uefiCr3 : Nat}
    {pages : Pmm} {first : Vmm}
    (result : initMemory highMemory.toMachine old frames uefiCr3 pages = .ok first) {range : Range}
    (listed : range ∈ highMemory.earlyRanges) {address : Nat} (start : range.phys ≤ address)
    (finish : address < range.phys + range.size) : translate first address = some address := by
  obtain ⟨pml4, _, last, valid, _, mapped, rfl, _, booted⟩ :=
    initMemory_spec (show initMemory highMemory.toLoadedMachine.toMachine _ _ _ _ = _ from result)
  have top := highMemory_top
  unfold pageSize at top
  have all : range ∈ highMemory.ranges highMemory.top := List.mem_append_left _ listed
  have early : highMemory.earlyRanges = [identityRange 0x100000 0x10000, identityRange 0x198000 0x20000,
      identityRange 0x100000 0xA000, identityRange 0xC0000000 0x1000] := rfl
  rw [early] at listed
  have loaded {base size : Nat} (small : 0x100000 ≤ base ∧ base + size ≤ 2 ^ 47)
      (same : range = identityRange base size) :
      translate { last with cr3 := pml4 } address = some address := by
    subst same
    exact translate_loaded valid mapped booted highMemory_fits small.2 all (fun _ => by omega) start finish
  simp only [List.mem_cons, List.not_mem_nil, or_false] at listed
  rcases listed with same | same | same | same <;> exact loaded (by decide) same

def highMemoryPlaced : PlacedMachine := ⟨highMemory, highMemory_fits⟩

end ArchaOS.VirtualMemory
