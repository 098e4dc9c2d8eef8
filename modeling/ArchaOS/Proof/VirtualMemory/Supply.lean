import ArchaOS.Proof.VirtualMemory.Startup

namespace ArchaOS.VirtualMemory

open Library PhysicalMemory RadixTree

/-- The manager is initialised, page zero is not free, and some pages are. -/
structure Supplied (pages : Nat) (pmm : Pmm) : Prop where
  ready : Ready pmm
  zero : pageUsed pmm 0 = true
  enough : pages ≤ pmm.freePages

/-- `palloc` takes one of the free pages. -/
theorem Supplied.palloc {pages : Nat} {pmm : Pmm} (supplied : Supplied (pages + 1) pmm) :
    (palloc pmm).1 ≠ 0 ∧ Supplied pages (palloc pmm).2 := by
  have enough := supplied.enough
  rcases palloc_cases supplied.ready with ⟨page, inside, free, _, taken⟩ | ⟨full, _⟩
  · have nonzero : page ≠ 0 := by
      rintro rfl
      rw [supplied.zero] at free
      cases free
    have marked : (markUsed pmm page).freePages = sub64 pmm.freePages 1 := by
      simp [markUsed, not_le.mpr inside, free]
    have few := supplied.ready.counted.few
    have bound := PackedBits.clearBelow_card_le pmm.bitmap pmm.maxPages
    rw [← supplied.ready.counted.freePages] at bound
    rw [taken]
    refine ⟨?_, ⟨supplied.ready.markUsed page, ?_, ?_⟩⟩
    · dsimp only
      unfold pageSize
      omega
    · rw [pageUsed_markUsed, supplied.zero, Bool.or_true]
    · dsimp only
      rw [marked, sub64_eq (by omega) (by omega)]
      omega
  · have none := supplied.ready.counted.freePages_eq
    simp only [full, Bool.true_eq_false, Finset.filter_false, Finset.card_empty] at none
    omega

/-- A supply has room for its pages. -/
theorem Supplied.room {pages : Nat} {pmm : Pmm} (supplied : Supplied pages pmm) : Room pages pmm := by
  intro taken low
  induction taken generalizing pages pmm with
  | zero =>
      obtain ⟨rest, rfl⟩ : ∃ rest, pages = rest + 1 := ⟨pages - 1, by omega⟩
      exact supplied.palloc.1
  | succ taken ih =>
      obtain ⟨rest, rfl⟩ : ∃ rest, pages = rest + 1 := ⟨pages - 1, by omega⟩
      exact ih supplied.palloc.2 (by omega)

/-- Calls of `palloc` take from the supply. -/
theorem Supplied.pallocs {pages count : Nat} {pmm : Pmm} (supplied : Supplied (pages + count) pmm) :
    Supplied pages (pallocs count pmm) := by
  induction count generalizing pmm with
  | zero => exact supplied
  | succ count ih => exact ih supplied.palloc.2

/-- The paths of the tables above an address. -/
def upperPaths (address : Nat) : Finset (List (Fin 512)) :=
  {[pml4Index address], [pml4Index address, pdptIndex address],
    [pml4Index address, pdptIndex address, pdIndex address]}

/-- The paths of the tables above some regions of two megabytes. -/
def regionPaths (regions : Finset Nat) : Finset (List (Fin 512)) :=
  regions.biUnion fun region => upperPaths (region * 2 ^ 21)

/-- A region needs at most three tables. -/
theorem regionPaths_card (regions : Finset Nat) : (regionPaths regions).card ≤ regions.card * 3 :=
  Finset.card_biUnion_le_card_mul _ _ _ fun _ _ => Finset.card_le_three

/-- Addresses of one region of two megabytes share their tables. -/
theorem upperIndex_region {address other : Nat}
    (same : address / 2 ^ 21 % 2 ^ 27 = other / 2 ^ 21 % 2 ^ 27) :
    pml4Index address = pml4Index other ∧ pdptIndex address = pdptIndex other ∧
      pdIndex address = pdIndex other := by
  have index (shift : Nat) (bound : shift = 39 ∨ shift = 30 ∨ shift = 21) :
      tableIndex shift address = tableIndex shift other := by
    rw [Fin.ext_iff, tableIndex_val, tableIndex_val]
    rcases bound with rfl | rfl | rfl <;> omega
  exact ⟨index 39 (by simp), index 30 (by simp), index 21 (by simp)⟩

/-- The tables of an address are among those of its region. -/
theorem upperPaths_subset {regions : Finset Nat} {address : Nat}
    (member : address / 2 ^ 21 % 2 ^ 27 ∈ regions) : upperPaths address ⊆ regionPaths regions := by
  have same : upperPaths address = upperPaths (address / 2 ^ 21 % 2 ^ 27 * 2 ^ 21) := by
    obtain ⟨first, second, third⟩ := upperIndex_region
      (show address / 2 ^ 21 % 2 ^ 27 = address / 2 ^ 21 % 2 ^ 27 * 2 ^ 21 / 2 ^ 21 % 2 ^ 27 by omega)
    rw [upperPaths, upperPaths, first, second, third]
  rw [same]
  exact Finset.subset_biUnion_of_mem (fun region => upperPaths (region * 2 ^ 21)) member

/-- The path to a table is short. -/
theorem upperPaths_lt {virt : Nat} {path : List (Fin 512)} (member : path ∈ upperPaths virt) :
    path.length < 4 := by
  simp only [upperPaths, Finset.mem_insert, Finset.mem_singleton] at member
  rcases member with rfl | rfl | rfl <;> simp

/-- The paths of regions are short. -/
theorem upperPaths_short {regions : Finset Nat} {path : List (Fin 512)}
    (member : path ∈ regionPaths regions) : path.length < 4 := by
  obtain ⟨region, _, inside⟩ := Finset.mem_biUnion.mp member
  exact upperPaths_lt inside

/-- The paths to tables that do not exist yet. -/
def missingPaths (paths : Finset (List (Fin 512))) (pml4 : Nat) (vmm : Vmm) :
    Finset (List (Fin 512)) :=
  paths.filter fun path => walk present vmm.frames pml4 path = none

/-- There is a free page for every missing table, and some pages more. -/
structure Stocked (paths : Finset (List (Fin 512))) (spare pml4 : Nat) (vmm : Vmm) : Prop where
  tables : Tables pml4 vmm
  supplied : Supplied ((missingPaths paths pml4 vmm).card + spare) vmm.pmm

section Stock

variable {paths : Finset (List (Fin 512))} (short : ∀ path ∈ paths, path.length < 4)
  {spare pml4 : Nat}
include short

/-- One level of `map_page` uses at most the page that is there for it. -/
theorem nextTable_stocked (message : String) {table : Nat} {index : Fin 512} {path : List (Fin 512)}
    {vmm : Vmm} (stocked : Stocked paths spare pml4 vmm)
    (reached : walk present vmm.frames pml4 path = some table) (member : path ++ [index] ∈ paths) :
    ∃ next after, nextTable message table index vmm = .ok (next, after) ∧
      Stocked paths spare pml4 after ∧ walk present after.frames pml4 (path ++ [index]) = some next := by
  have above : path.length + 1 < 4 := by
    have bound := short _ member
    rwa [List.length_append, List.length_singleton] at bound
  have arrived := walk_snoc present vmm.frames pml4 path index
  rw [reached, Option.bind_some] at arrived
  rcases nextTable_cases message table index stocked.tables with
    ⟨next, named, same⟩ | ⟨absent, page, free, allocated, same⟩ | ⟨absent, failed, _⟩
  · exact ⟨next, vmm, same, stocked, arrived.trans named⟩
  · obtain ⟨added, _, walks, _⟩ := stocked.tables.addTable reached above absent free
    have here : path ++ [index] ∈ missingPaths paths pml4 vmm :=
      Finset.mem_filter.mpr ⟨member, arrived.trans absent⟩
    have fewer : (missingPaths paths pml4 (vmm.addTable table index page)).card + 1 ≤
        (missingPaths paths pml4 vmm).card := by
      rw [← Finset.card_erase_add_one here]
      refine Nat.add_le_add_right (Finset.card_le_card ?_) 1
      intro target inside
      obtain ⟨listed, missing⟩ := Finset.mem_filter.mp inside
      rw [walks target (Nat.le_of_lt (short target listed))] at missing
      split at missing
      · cases missing
      · rename_i different
        exact Finset.mem_erase.mpr ⟨different, Finset.mem_filter.mpr ⟨listed, missing⟩⟩
    have enough := stocked.supplied.enough
    have supplied : Supplied
        ((missingPaths paths pml4 (vmm.addTable table index page)).card + spare + 1) vmm.pmm :=
      ⟨stocked.supplied.ready, stocked.supplied.zero, by omega⟩
    have rest := supplied.palloc.2
    rw [allocated] at rest
    refine ⟨_, _, same, ⟨added, rest⟩, ?_⟩
    rw [walks _ (by rw [List.length_append, List.length_singleton]; omega), if_pos rfl]
  · have here : path ++ [index] ∈ missingPaths paths pml4 vmm :=
      Finset.mem_filter.mpr ⟨member, arrived.trans absent⟩
    have positive := Finset.card_pos.mpr ⟨_, here⟩
    have supplied : Supplied (0 + 1) vmm.pmm :=
      ⟨stocked.supplied.ready, stocked.supplied.zero, by
        have enough := stocked.supplied.enough
        omega⟩
    exact absurd failed supplied.palloc.1

/-- `map_page` does not run out of memory below the stocked paths. -/
theorem mapPage_stocked {vmm : Vmm} (stocked : Stocked paths spare pml4 vmm) (phys : Nat) {virt : Nat}
    (inside : upperPaths virt ⊆ paths) :
    ∃ after, mapPage phys virt pml4 vmm = .ok after ∧ Stocked paths spare pml4 after := by
  have top : walk present vmm.frames pml4 [] = some pml4 := walk_nil _ _ _
  obtain ⟨pdpt, first, firstTable, stocked, reached⟩ := nextTable_stocked short
    "Out of memory creating PDPT" stocked top
    (show [] ++ [pml4Index virt] ∈ paths from inside (by simp [upperPaths]))
  obtain ⟨pd, second, secondTable, stocked, reached⟩ := nextTable_stocked short
    "Out of memory creating PD" stocked reached
    (show [] ++ [pml4Index virt] ++ [pdptIndex virt] ∈ paths from inside (by simp [upperPaths]))
  obtain ⟨pt, third, thirdTable, stocked, reached⟩ := nextTable_stocked short
    "Out of memory creating PT" stocked reached
    (show [] ++ [pml4Index virt] ++ [pdptIndex virt] ++ [pdIndex virt] ∈ paths from
      inside (by simp [upperPaths]))
  refine ⟨third.store pt (ptIndex virt) (tableEntry phys), ?_, ?_⟩
  · simp only [mapPage, bind_eq_ok]
    exact ⟨_, firstTable, _, secondTable, _, thirdTable, rfl⟩
  · refine ⟨stocked.tables.put _ _ reached rfl, ?_⟩
    have same : missingPaths paths pml4 (third.store pt (ptIndex virt) (tableEntry phys)) =
        missingPaths paths pml4 third := by
      refine Finset.filter_congr fun path member => ?_
      have kept : walk present (third.store pt (ptIndex virt) (tableEntry phys)).frames pml4 path =
          walk present third.frames pml4 path :=
        walk_put_short stocked.tables.tree reached rfl path (short path member)
      exact Eq.congr_left kept
    rw [same]
    exact stocked.supplied

/-- With a supply for all tables a series of mappings returns. -/
theorem mapPages_stocked {vmm : Vmm} (stocked : Stocked paths spare pml4 vmm) {mappings : List Mapping}
    (inside : ∀ mapping ∈ mappings, upperPaths mapping.virt ⊆ paths) :
    ∃ after, mapPages pml4 vmm mappings = .ok after ∧ Stocked paths spare pml4 after := by
  induction mappings generalizing vmm with
  | nil => exact ⟨vmm, rfl, stocked⟩
  | cons mapping rest ih =>
      obtain ⟨here, later⟩ := List.forall_mem_cons.mp inside
      obtain ⟨middle, mapped, stocked'⟩ := mapPage_stocked short stocked mapping.phys here
      obtain ⟨after, result, stocked''⟩ := ih stocked' later
      refine ⟨after, ?_, stocked''⟩
      rw [mapPages, List.foldlM_cons, bind_eq_ok]
      exact ⟨middle, mapped, result⟩

end Stock

/-- A supply contains every smaller one. -/
theorem Supplied.less {pages fewer : Nat} {pmm : Pmm} (supplied : Supplied pages pmm)
    (below : fewer ≤ pages) : Supplied fewer pmm :=
  ⟨supplied.ready, supplied.zero, below.trans supplied.enough⟩

/-- `init_vmm` returns when there are pages for the tables of every region that it maps. -/
theorem initVmm_returns {machine : Machine} {vmm : Vmm} {regions : Finset Nat} {spare : Nat}
    (small : ∀ page, pageUsed vmm.pmm page = false → page < 2 ^ 40)
    (supplied : Supplied (regions.card * 3 + spare + 4) vmm.pmm)
    (fit : ∀ range ∈ machine.ranges vmm.pmm.maxPhysicalAddress, range.Fits)
    (inside : ∀ range ∈ machine.ranges vmm.pmm.maxPhysicalAddress, ∀ mapping ∈ range.pages,
      mapping.virt / 2 ^ 21 % 2 ^ 27 ∈ regions) :
    ∃ after, initVmm machine vmm = .ok after ∧ Supplied spare after.pmm := by
  obtain ⟨⟨pml4, first⟩, tables⟩ := firstTables_returns (supplied.less (by omega)).room
  obtain ⟨page, _, _, valid, grown, pages, _⟩ := firstTables_spec small tables
  have top : first.pmm.maxPhysicalAddress = vmm.pmm.maxPhysicalAddress :=
    grown.layout.maxPhysicalAddress.trans (markUsed_layout vmm.pmm page).maxPhysicalAddress
  have few : (missingPaths (regionPaths regions) pml4 first).card ≤ regions.card * 3 :=
    (Finset.card_filter_le _ _).trans (regionPaths_card regions)
  have stocked : Stocked (regionPaths regions) spare pml4 first := by
    refine ⟨valid, ?_⟩
    rw [pages]
    exact supplied.pallocs.less (by omega)
  have mappings : ∀ mapping ∈ (machine.ranges vmm.pmm.maxPhysicalAddress).flatMap Range.pages,
      upperPaths mapping.virt ⊆ regionPaths regions := by
    intro mapping member
    obtain ⟨range, listed, member⟩ := List.mem_flatMap.mp member
    exact upperPaths_subset (inside range listed mapping member)
  obtain ⟨last, mapped, stocked'⟩ :=
    mapPages_stocked (fun _ => upperPaths_short) stocked mappings
  refine ⟨{ last with cr3 := pml4 }, ?_, stocked'.supplied.less (by omega)⟩
  rw [initVmm_eq, tables]
  change mapRanges pml4 first (machine.ranges first.pmm.maxPhysicalAddress) >>= _ = _
  rw [top, mapRanges_ok.mpr ⟨mapped, fit⟩]
  rfl

/-- The check of the page manager passes when `init_pmm` leaves a free page. -/
theorem testPpmFunc_returns {map : MemoryMap} {old : PackedBits.Bytes} {start initial : Pmm}
    {pages : Nat} (idle : (palloc start).1 = 0)
    (made : initPmm map old
      ((List.range 15).foldl (fun pmm i => pfree (i * 0x1000) pmm) (palloc start).2) = .ok initial)
    (supplied : Supplied (pages + 1) initial) :
    ∃ pmm, testPpmFunc map old start = .ok pmm ∧ SameLayout pmm initial ∧ Supplied (pages + 1) pmm := by
  obtain ⟨page, inside, free, taken⟩ := palloc_taken supplied.palloc.1
  have nonzero := supplied.palloc.1
  have layout : SameLayout (markFree (markUsed initial page) page) initial :=
    (markFree_layout _ _).trans (markUsed_layout _ _)
  have ready := (supplied.ready.markUsed page).markFree page
  have used := pageUsed_restored inside free
  have count : (markFree (markUsed initial page) page).freePages = initial.freePages := by
    rw [ready.counted.freePages_eq, supplied.ready.counted.freePages_eq, layout.maxPages]
    simp only [used]
  refine ⟨markFree (markUsed initial page) page, ?_, layout, ready, (used 0).trans supplied.zero, ?_⟩
  · have freed : pfree (palloc initial).1 (palloc initial).2 = markFree (markUsed initial page) page := by
      rw [taken, pfree, page_quotient]
    unfold testPpmFunc
    simp only [idle, ne_eq, not_true_eq_false, if_false, made, Except.mapError, bind, Except.bind, nonzero,
      freed, count]
  · rw [count]
    exact supplied.enough

end ArchaOS.VirtualMemory
