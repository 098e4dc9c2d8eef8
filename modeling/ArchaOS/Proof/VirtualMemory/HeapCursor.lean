import ArchaOS.Proof.VirtualMemory.HeapWindow

namespace ArchaOS.VirtualMemory

open Library PhysicalMemory RadixTree

/-- The regions of two megabytes that the heap covers, and the first one above it. -/
def heapRegions : Finset Nat := Finset.Ico (2 ^ 27 - 2 ^ 12) (2 ^ 27 - 2 ^ 12 + 3073)

/-- The heap needs at most 9219 tables. -/
theorem heapRegions_paths : (regionPaths heapRegions).card ≤ 9219 := by
  refine (regionPaths_card heapRegions).trans ?_
  rw [heapRegions, Nat.card_Ico]
  decide

/-- The tables of every page of the heap are among them. -/
theorem slot_region {index : Nat} (low : index ≤ windowPages) :
    upperPaths (slot index) ⊆ regionPaths heapRegions := by
  refine upperPaths_subset (Finset.mem_Ico.mpr ?_)
  unfold windowPages at low
  unfold slot add64
  unfold kheapBase passthruBase pageSize at *
  omega

/-- A page that was taken adds to the supply when it is freed. -/
theorem Supplied.markFree {pages page : Nat} {pmm : Pmm} (supplied : Supplied pages pmm)
    (inside : page < pmm.maxPages) (used : pageUsed pmm page = true) (nonzero : page ≠ 0) :
    Supplied (pages + 1) (markFree pmm page) where
  ready := supplied.ready.markFree page
  zero := by
    rw [pageUsed_markFree, supplied.zero]
    simp [nonzero.symm]
  enough := by
    have free : pageUsed (PhysicalMemory.markFree pmm page) page = false := by
      rw [pageUsed_markFree, used]
      simp [inside]
    have keeps (other : Nat) (held : pageUsed (PhysicalMemory.markFree pmm page) other = true) :
        pageUsed pmm other = true := by
      rw [pageUsed_markFree, Bool.and_eq_true] at held
      exact held.1
    have fewer := freePages_lt (supplied.ready.markFree page) supplied.ready
      (markFree_layout pmm page).symm keeps free used
    exact supplied.enough.trans_lt fewer

/-- A page that is mapped at one page of the heap, with its frame taken from the supply. -/
structure Loaned (paths : Finset (List (Fin 512))) (spare pml4 index page : Nat) (vmm : Vmm) : Prop where
  stocked : Stocked paths spare pml4 vmm
  mapped : lookup vmm pml4 (slot index) = some (page * pageSize)
  inside : page < vmm.pmm.maxPages
  used : pageUsed vmm.pmm page = true
  nonzero : page ≠ 0

section Loans

variable {paths : Finset (List (Fin 512))} (short : ∀ path ∈ paths, path.length < 4)
  {spare pml4 count : Nat} {first vmm : Vmm} (owned : Owned pml4 first count vmm)
include short owned

/-- With pages in supply one turn of `vallocs` maps the next page of the heap. -/
theorem Stocked.lend (stocked : Stocked paths (spare + 1) pml4 vmm)
    (covered : upperPaths (slot count) ⊆ paths) (low : count < 2 ^ 36) :
    ∃ page after, vallocsFrom false (slot count) pml4 1 0 vmm = .ok (true, after) ∧
      after.nextVirt = vmm.nextVirt ∧ after.pmm.freePages < vmm.pmm.freePages ∧
      Loaned paths spare pml4 count page after := by
  have supplied : Supplied ((missingPaths paths pml4 vmm).card + spare + 1) vmm.pmm :=
    stocked.supplied
  obtain ⟨page, inside, free, taken⟩ := palloc_taken supplied.palloc.1
  have rest := supplied.palloc.2
  have present := supplied.palloc.1
  rw [taken] at rest present
  dsimp only at rest present
  have marked : Stocked paths spare pml4 { vmm with pmm := markUsed vmm.pmm page } :=
    ⟨stocked.tables.markUsed page, rest⟩
  obtain ⟨after, mapping, stocked'⟩ := mapPage_stocked short marked (page * pageSize) covered
  obtain ⟨_, grown, _⟩ := mapPage_spec marked.tables mapping
  obtain ⟨lengthened, here⟩ := owned.mapPage low free mapping
  refine ⟨page, after, ?_, lengthened.nextVirt, lengthened.fewer, stocked', here, ?_, ?_, ?_⟩
  · rw [vallocsFrom, taken]
    simp only [present, if_false, slot_add, bind_eq_ok]
    exact ⟨after, mapping, rfl⟩
  · rw [grown.layout.maxPages]
    dsimp only
    rw [(markUsed_layout vmm.pmm page).maxPages]
    exact inside
  · refine grown.used page ?_
    change pageUsed (markUsed vmm.pmm page) page = true
    rw [pageUsed_markUsed, decide_eq_true rfl, Bool.true_or]
  · rintro rfl
    exact present (Nat.zero_mul _)

omit owned in
/-- Freeing the page gives its frame back to the supply and keeps the tables. -/
theorem Loaned.returnPage {index page : Nat} (tidy : Tidy pml4 vmm)
    (loaned : Loaned paths spare pml4 index page vmm)
    (tables : Tables pml4 (freePage pml4 vmm (slot index))) :
    Stocked paths (spare + 1) pml4 (freePage pml4 vmm (slot index)) := by
  refine ⟨tables, ?_⟩
  have pages := (freePage_unmaps loaned.stocked.tables tidy loaned.mapped loaned.nonzero).pages
  have same : missingPaths paths pml4 (freePage pml4 vmm (slot index)) =
      missingPaths paths pml4 vmm := by
    refine Finset.filter_congr fun path member => ?_
    have kept := freePage_walk loaned.stocked.tables.tree tidy (slot index) (short path member)
    exact Eq.congr_left kept
  rw [same, pages]
  exact loaned.stocked.supplied.markFree loaned.inside loaned.used loaned.nonzero

end Loans

/-- There are pages for the tables of some paths and for some pages of the heap, and not too many. -/
structure Circulating (paths : Finset (List (Fin 512))) (spare most pml4 : Nat) (first : Vmm)
    (count : Nat) (session : Session) : Prop where
  invariant : Invariant pml4 first count session
  stocked : Stocked paths (spare + 1) pml4 session.vmm
  few : session.vmm.pmm.freePages ≤ most

/-- Allocate the next page of the heap and free it. -/
def cycle (index : Nat) : List Request := [.vallocs false 1, .vfrees (slot index) 1]

/-- Freeing a page leaves one more page free at most. -/
theorem markFree_few (pmm : Pmm) (page : Nat) : (markFree pmm page).freePages ≤ pmm.freePages + 1 := by
  unfold markFree
  split
  · exact Nat.le_succ _
  · split
    · exact Nat.mod_le _ _
    · exact Nat.le_succ _

section Cycles

variable {paths : Finset (List (Fin 512))} (short : ∀ path ∈ paths, path.length < 4)
  {spare most pml4 count : Nat} {first : Vmm} {session : Session} (booted : Booted pml4 first)
  (circulating : Circulating paths spare most pml4 first count session)
include short booted circulating

/-- An allocation of one page returns the next page of the heap, wherever that is. -/
theorem Circulating.vallocs (covered : upperPaths (slot count) ⊆ paths) :
    ∃ page after, VirtualMemory.vallocs false 1 session.vmm = .ok (slot count, after) ∧
      after.nextVirt = slot (count + 1) ∧ after.pmm.freePages < most ∧
      Loaned paths spare pml4 count page after := by
  have invariant := circulating.invariant
  have window := invariant.inside
  have next : session.vmm.nextVirt = slot count := by
    rw [invariant.nextVirt, slot_eq window le_rfl]
  have low : count < 2 ^ 36 := by
    unfold kheapBase pageSize passthruBase at window
    omega
  obtain ⟨page, middle, looped, nextVirt, fewer, loaned⟩ :=
    circulating.stocked.lend short invariant.owned covered low
  have stocked := loaned.stocked
  refine ⟨page, { middle with nextVirt := slot (count + 1) }, ?_, rfl,
    fewer.trans_le circulating.few, ?_⟩
  · rw [VirtualMemory.vallocs, if_neg (by decide), invariant.cr3, booted.root, next]
    dsimp only
    rw [looped, ← slot_add, ← next, ← nextVirt]
    rfl
  · exact ⟨⟨⟨stocked.tables.tree, stocked.tables.used, stocked.tables.small⟩, stocked.supplied⟩,
      loaned.mapped, loaned.inside, loaned.used, loaned.nonzero⟩

/-- Below `PASSTHRU_BASE` the heap is one page longer afterwards. -/
theorem Circulating.grows (covered : upperPaths (slot count) ⊆ paths) (low : count < windowPages) :
    session.Bounded (.vallocs false 1) ∧
      Invariant pml4 first (count + 1) (session.step (.vallocs false 1)) ∧
      (session.step (.vallocs false 1)).vmm.pmm.freePages < most ∧
      ∃ page, Loaned paths spare pml4 count page (session.step (.vallocs false 1)).vmm := by
  obtain ⟨page, after, result, nextVirt, fewer, loaned⟩ := circulating.vallocs short booted covered
  have before : session.vmm.nextVirt = kheapBase + count * pageSize := circulating.invariant.nextVirt
  have place : slot (count + 1) = kheapBase + (count + 1) * pageSize ∧
      slot (count + 1) ≤ passthruBase := by
    unfold windowPages at low
    unfold slot add64
    unfold kheapBase passthruBase pageSize at *
    omega
  have legal : session.Legal (.vallocs false 1) := by
    simp only [Session.Legal, result]
    rw [nextVirt]
    refine ⟨?_, place.2⟩
    rw [place.1]
    exact Nat.le_add_right _ _
  obtain ⟨count', grown⟩ := circulating.invariant.vallocs booted legal
  have reached : (session.step (.vallocs false 1)).vmm = after := by
    simp only [Session.step, result]
  obtain rfl : count' = count + 1 := by
    have same := grown.nextVirt
    rw [reached, nextVirt, place.1] at same
    unfold pageSize at same
    omega
  have bounded : session.Bounded (.vallocs false 1) := by
    have fits := place.2
    change session.vmm.nextVirt + 1 * pageSize ≤ passthruBase
    rw [place.1] at fits
    rw [before]
    unfold pageSize at fits ⊢
    omega
  rw [reached]
  exact ⟨bounded, grown, fewer, page, loaned⟩

/-- A page can be allocated and freed below `PASSTHRU_BASE`, and the heap ends one page later. -/
theorem Circulating.cycle (covered : upperPaths (slot count) ⊆ paths) (low : count < windowPages) :
    Guarded Session.step Session.Bounded session (cycle count) ∧
      Circulating paths spare most pml4 first (count + 1)
        ((VirtualMemory.cycle count).foldl Session.step session) := by
  obtain ⟨bounded, grown, fewer, page, loaned⟩ := circulating.grows short booted covered low
  have place : slot count = kheapBase + count * pageSize := slot_eq grown.inside (Nat.le_succ count)
  unfold VirtualMemory.cycle
  rw [List.foldl_cons, guarded_cons]
  generalize session.step (.vallocs false 1) = middle at *
  have below : slot count + 1 * pageSize ≤ middle.vmm.nextVirt := by
    rw [grown.nextVirt, place]
    unfold pageSize
    omega
  have above : kheapBase ≤ slot count := by
    rw [place]
    exact Nat.le_add_right _ _
  have freed := grown.vfrees booted above below
  have turn : VirtualMemory.vfrees (slot count) 1 middle.vmm = freePage pml4 middle.vmm (slot count) := by
    rw [vfrees_eq, grown.cr3, booted.root]
    change freePage pml4 middle.vmm (add64 (slot count) (mul64 0 pageSize)) = _
    rw [slot_add, Nat.add_zero]
  have tables : Tables pml4 (freePage pml4 middle.vmm (slot count)) := turn ▸ freed.owned.tables
  have unmapped := freePage_unmaps grown.owned.tables grown.owned.tidy loaned.mapped loaned.nonzero
  refine ⟨⟨bounded, ⟨above, below⟩, trivial⟩, freed, ?_, ?_⟩
  · change Stocked paths (spare + 1) pml4 (VirtualMemory.vfrees (slot count) 1 middle.vmm)
    rw [turn]
    exact loaned.returnPage short grown.owned.tidy tables
  · change (VirtualMemory.vfrees (slot count) 1 middle.vmm).pmm.freePages ≤ most
    rw [turn, unmapped.pages]
    exact (markFree_few _ page).trans fewer

/-- The heap grows although every page is freed. -/
theorem Circulating.cycles (few : Nat) (low : count + few ≤ windowPages)
    (covered : ∀ index, count ≤ index → index < count + few → upperPaths (slot index) ⊆ paths) :
    Guarded Session.step Session.Bounded session ((List.range' count few).flatMap VirtualMemory.cycle) ∧
      Circulating paths spare most pml4 first (count + few)
        (((List.range' count few).flatMap VirtualMemory.cycle).foldl Session.step session) := by
  induction few generalizing count session with
  | zero => exact ⟨trivial, circulating⟩
  | succ few ih =>
      obtain ⟨bounded, next⟩ :=
        circulating.cycle short booted (covered count le_rfl (by omega)) (by omega)
      have later := ih next (by omega) fun index above below => covered index (by omega) (by omega)
      rw [List.range'_succ, List.flatMap_cons, List.foldl_append, guarded_append, ← Nat.add_assoc,
        Nat.add_right_comm]
      exact ⟨⟨bounded, later.1⟩, later.2⟩

/-- A heap that ends at `PASSTHRU_BASE` still grows. -/
theorem Circulating.leaves (covered : upperPaths (slot count) ⊆ paths) (full : count = windowPages)
    (reached : AllCovered session.vmm) :
    ¬ KeepsWindow first (Passthru.step session (.vallocs false 1)) := by
  obtain ⟨page, after, result, _⟩ := circulating.vallocs short booted covered
  have standing := circulating.invariant.toStanding
  have root := standing.root booted
  have above : slot count ≠ 0 ∧ passthruBase < slot count + 1 * pageSize := by
    rw [full]
    decide
  rw [passthruStep_eq (root.symm ▸ standing.owned.tables) (standing.valloc_reaches booted reached false)]
  intro keeps
  have member : (slot count, 1) ∈ (session.step (.vallocs false 1)).returned := by
    simp only [Session.step, result, if_neg above.1]
    exact List.mem_cons_self
  exact absurd (keeps.returned _ member).2 (not_le.mpr above.2)

/-- One page that is allocated and freed again and again leads over the end. -/
theorem Circulating.overflows (few : Nat) (full : count + few = windowPages)
    (covered : ∀ index ≤ windowPages, upperPaths (slot index) ⊆ paths)
    (reached : AllCovered session.vmm) :
    ∃ reached ∈ visited Passthru.step session
      ((List.range' count few).flatMap VirtualMemory.cycle ++ [.vallocs false 1]),
      ¬ KeepsWindow first reached := by
  refine ⟨_, visited_last _ _ _, ?_⟩
  rw [List.foldl_append, List.foldl_cons, List.foldl_nil]
  obtain ⟨bounded, last⟩ := circulating.cycles short booted few full.le
    fun index _ below => covered index (by omega)
  obtain ⟨_, _, same, _, _, reached'⟩ :=
    circulating.invariant.toStanding.runs booted reached bounded fun _ _ _ _ bounded _ => bounded
  rw [same]
  exact last.leaves short booted (covered _ full.le) full reached'

end Cycles

end ArchaOS.VirtualMemory
