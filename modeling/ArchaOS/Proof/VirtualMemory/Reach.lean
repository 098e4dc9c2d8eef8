import ArchaOS.Proof.VirtualMemory.Passthru

namespace ArchaOS.VirtualMemory

open Library PhysicalMemory RadixTree

/-- The number of pages between `KHEAP_BASE` and `PASSTHRU_BASE`. -/
def windowPages : Nat := (passthruBase - kheapBase) / pageSize

/-- The page number of a page of the heap. -/
theorem slot_key {index : Nat} (low : index < windowPages) :
    pageKey (slot index) = 2 ^ 36 - 2 ^ 21 + index := by
  unfold windowPages at low
  unfold pageKey slot add64
  unfold kheapBase passthruBase pageSize at *
  omega

/-- The address of a frame in the passthru window lies on no page of the heap. -/
theorem passthruMapping_apart {page index : Nat} (low : index < windowPages) (small : page < 2 ^ 35) :
    pageKey (slot index) ≠ pageKey (getVirtAddr (page * pageSize)) := by
  rw [slot_key low]
  unfold windowPages at low
  unfold pageKey getVirtAddr add64
  unfold kheapBase passthruBase pageSize at *
  omega

/-- A page in use stays in use while `palloc` takes pages. -/
theorem pallocs_used {pmm : Pmm} {page : Nat} (used : pageUsed pmm page = true) (count : Nat) :
    pageUsed (pallocs count pmm) page = true := by
  have closed (pmm : Pmm) (used : pageUsed pmm page = true) : pageUsed (palloc pmm).2 page = true := by
    have marked (other : Nat) : pageUsed (markUsed pmm other) page = true := by
      rw [pageUsed_markUsed, used, Bool.or_true]
    unfold palloc
    split
    · exact used
    · split
      · exact used
      · split
        · exact used
        · exact marked _
  exact pallocs_paid closed count used

/-- Calls of `palloc` keep the layout. -/
theorem pallocs_layout (count : Nat) (pmm : Pmm) : SameLayout (pallocs count pmm) pmm := by
  have closed (state : Pmm) (kept : SameLayout state pmm) : SameLayout (palloc state).2 pmm :=
    (palloc_layout state).trans kept
  exact pallocs_paid closed count (SameLayout.refl pmm)

/-- Every page of the manager is reached, up to some pages that are still free. -/
structure Covered (bad : Nat → Prop) (vmm : Vmm) : Prop where
  reached : ∀ page < vmm.pmm.maxPages, ¬ bad page → Reached vmm (page * pageSize)
  idle : ∀ page, bad page → pageUsed vmm.pmm page = false

section Covered

variable {bad : Nat → Prop} {pml4 : Nat} {vmm : Vmm} (covered : Covered bad vmm)
include covered

/-- Every table is reached, because its page is in use. -/
theorem Covered.tableReached (valid : Tables pml4 vmm) (root : pml4 &&& pteAddrMask = pml4)
    (low : ∀ frame, IsTable vmm pml4 frame → frame / pageSize < vmm.pmm.maxPages) {frame : Nat}
    (table : IsTable vmm pml4 frame) : Reached vmm frame := by
  have whole : frame / pageSize * pageSize = frame :=
    Nat.div_mul_cancel (Nat.dvd_of_mod_eq_zero (table.aligned root))
  have reached := covered.reached (frame / pageSize) (low frame table) fun idle => by
    have free := covered.idle _ idle
    rw [valid.used frame table] at free
    cases free
  rwa [whole] at reached

/-- The tables on the way to any address are reached. -/
theorem Covered.pathReached (valid : Tables pml4 vmm) (root : pml4 &&& pteAddrMask = pml4)
    (low : ∀ frame, IsTable vmm pml4 frame → frame / pageSize < vmm.pmm.maxPages) (virt : Nat) :
    PathReached pml4 virt vmm := by
  intro upper part frame found
  have short : upper.length < 4 := part.length_le.trans_lt (by simp)
  exact covered.tableReached valid root low ⟨upper, short, found⟩

/-- The pages that `palloc` takes are reached when they leave the other pages free. -/
theorem Covered.supplyReached {count : Nat}
    (spare : ∀ page, bad page → pageUsed (pallocs count vmm.pmm) page = false) :
    SupplyReached count vmm := by
  intro taken below success
  obtain ⟨page, inside, _, same⟩ := palloc_taken success
  rw [same]
  rw [(pallocs_layout taken vmm.pmm).maxPages] at inside
  refine covered.reached page inside fun idle => ?_
  have used : pageUsed (pallocs (taken + 1) vmm.pmm) page = true := by
    rw [pallocs_add, pallocs, pallocs, same]
    dsimp only
    rw [pageUsed_markUsed, decide_eq_true rfl, Bool.true_or]
  have later := pallocs_used used (count - (taken + 1))
  rw [← pallocs_add, Nat.add_sub_of_le below, spare page idle] at later
  cases later

/-- What a call of `map_page` touches is reached. -/
theorem Covered.mapReached (valid : Tables pml4 vmm) (root : pml4 &&& pteAddrMask = pml4)
    (low : ∀ frame, IsTable vmm pml4 frame → frame / pageSize < vmm.pmm.maxPages) {virt : Nat}
    (spare : ∀ page, bad page →
      pageUsed (pallocs (missingTables vmm pml4 virt) vmm.pmm) page = false) :
    MapReached pml4 virt vmm :=
  ⟨covered.pathReached valid root low virt, covered.supplyReached spare⟩

/-- Changes inside the heap leave the pages reached. -/
theorem Covered.kept {after : Vmm} (root : vmm.cr3 &&& pteAddrMask = pml4) (cr3 : after.cr3 = vmm.cr3)
    (layout : SameLayout after.pmm vmm.pmm) (few : vmm.pmm.maxPages ≤ 2 ^ 35)
    (others : ∀ address, (∀ index < windowPages, pageKey (slot index) ≠ pageKey address) →
      lookup after pml4 address = lookup vmm pml4 address)
    (idle : ∀ page, bad page → pageUsed after.pmm page = false) : Covered bad after where
  reached := by
    intro page inside good
    rw [layout.maxPages] at inside
    have before := covered.reached page inside good
    unfold Reached at before ⊢
    rw [← before]
    refine translate_congr cr3 ?_
    rw [root]
    exact others _ fun index low => passthruMapping_apart low (inside.trans_le few)
  idle := idle

/-- Taking a page from the manager changes no translation. -/
theorem Covered.markUsed {page : Nat} (good : ¬ bad page) :
    Covered bad { vmm with pmm := PhysicalMemory.markUsed vmm.pmm page } where
  reached := by
    rw [(markUsed_layout vmm.pmm page).maxPages]
    exact covered.reached
  idle := by
    intro other idle
    have apart : other ≠ page := fun same => good (same ▸ idle)
    rw [pageUsed_markUsed, covered.idle other idle, Bool.or_false]
    exact decide_eq_false apart

end Covered

/-- What holds before every turn of `vfrees` makes its tables reached. -/
theorem freesReached_keeps (good : Vmm → Prop) {virtAddr pml4 count : Nat} {vmm : Vmm}
    (path : ∀ vmm, good vmm → ∀ virt, PathReached pml4 virt vmm)
    (keeps : ∀ i < count, ∀ vmm, good vmm → good (vfreeTurn virtAddr pml4 vmm i)) (start : good vmm) :
    FreesReached virtAddr pml4 count vmm := by
  have runs (turns : Nat) (few : turns ≤ count) :
      ∃ middle, (List.range turns).foldlM (Passthru.vfreeTurn virtAddr pml4) vmm = .ok middle ∧
        good middle := by
    induction turns with
    | zero => exact ⟨vmm, rfl, start⟩
    | succ turns ih =>
        obtain ⟨middle, loop, holds⟩ := ih (by omega)
        refine ⟨_, ?_, keeps turns few middle holds⟩
        rw [List.range_succ, List.foldlM_append, loop, ok_bind, List.foldlM_cons,
          vfreeTurn_eq (path middle holds _), ok_bind]
        rfl
  intro turns below middle loop
  obtain ⟨other, same, holds⟩ := runs turns below.le
  obtain rfl := Except.ok.inj (same.symm.trans loop)
  exact path other holds _

/-- One turn of `vfrees` frees pages only. -/
theorem freePage_free {pml4 virt page : Nat} {vmm : Vmm} (tidy : Tidy pml4 vmm)
    (free : pageUsed vmm.pmm page = false) :
    pageUsed (freePage pml4 vmm virt).pmm page = false := by
  rcases unmapPage_cases tidy virt with ⟨_, same⟩ | ⟨pt, phys, _, _, same⟩
  · simpa [freePage, same] using free
  · unfold freePage
    rw [same]
    dsimp only
    split
    · rw [pfree, pageUsed_markFree]
      exact Bool.and_eq_false_imp.mpr fun used => absurd (free.symm.trans used) (by decide)
    · exact free

/-- An allocation of one page touches what its call of `map_page` touches. -/
theorem loopReached_one {zero : Bool} {start pml4 : Nat} {vmm : Vmm}
    (reached : (palloc vmm.pmm).1 ≠ 0 →
      MapReached pml4 (add64 start (mul64 0 pageSize)) { vmm with pmm := (palloc vmm.pmm).2 }) :
    LoopReached zero start pml4 1 0 vmm := by
  intro turns below middle loop
  rw [Nat.lt_one_iff.mp below] at loop ⊢
  obtain ⟨_, rfl⟩ := Prod.mk.inj (Except.ok.inj loop)
  split
  · exact fun _ impossible => absurd impossible (Nat.not_lt_zero _)
  · exact reached ‹_›

section Heap

variable {pml4 count : Nat} {first : Vmm} (booted : Booted pml4 first)
include booted

/-- The manager has at most 2^35 pages. -/
theorem Owned.few {vmm : Vmm} (owned : Owned pml4 first count vmm) : vmm.pmm.maxPages ≤ 2 ^ 35 := by
  rw [owned.layout.maxPages]
  exact booted.few

/-- The tables on the way to an address are reached. -/
theorem Owned.pathReached {bad : Nat → Prop} {vmm : Vmm} (owned : Owned pml4 first count vmm)
    (covered : Covered bad vmm) (virt : Nat) : PathReached pml4 virt vmm :=
  covered.pathReached owned.tables booted.root owned.low virt

/-- A longer heap leaves the pages reached. -/
theorem Lengthened.covered {bad : Nat → Prop} {vmm next : Vmm}
    (lengthened : Lengthened pml4 first count vmm next) (owned : Owned pml4 first count vmm)
    (cr3 : vmm.cr3 = pml4) (low : count < windowPages) (covered : Covered bad vmm)
    (idle : ∀ page, bad page → pageUsed next.pmm page = false) : Covered bad next := by
  have root : vmm.cr3 &&& pteAddrMask = pml4 := cr3.symm ▸ booted.root
  refine covered.kept root lengthened.cr3
    (lengthened.owned.layout.trans owned.layout.symm) (owned.few booted) (fun address apart => ?_) idle
  exact lengthened.others address (apart count low).symm

/-- Freeing a page of the heap leaves the pages reached. -/
theorem Owned.freePage_covered {bad : Nat → Prop} {virt index : Nat} {vmm : Vmm}
    (owned : Owned pml4 first count vmm) (cr3 : vmm.cr3 = pml4) (window : count ≤ windowPages)
    (low : index < count) (same : pageKey virt = pageKey (slot index)) (covered : Covered bad vmm) :
    Covered bad (VirtualMemory.freePage pml4 vmm virt) := by
  have room : count ≤ 2 ^ 36 := window.trans (by decide)
  obtain ⟨owned', released, _⟩ := owned.freePage booted room low same
  have root : vmm.cr3 &&& pteAddrMask = pml4 := cr3.symm ▸ booted.root
  refine covered.kept root released.cr3 (owned'.layout.trans owned.layout.symm)
    (owned.few booted) (fun address apart => ?_) fun page idle =>
      freePage_free owned.tidy (covered.idle page idle)
  refine released.kept address fun other member here => ?_
  rw [List.mem_singleton.mp member] at here
  exact apart index (low.trans_le window) (same.symm.trans here.symm)

/-- The tables of pages of the heap are reached while `vfrees` frees them. -/
theorem Owned.freesReached {bad : Nat → Prop} {virtAddr n : Nat} {vmm : Vmm}
    (owned : Owned pml4 first count vmm) (cr3 : vmm.cr3 = pml4) (window : count ≤ windowPages)
    (inside : ∀ i < n, ∃ index < count,
      pageKey (add64 virtAddr (mul64 i pageSize)) = pageKey (slot index))
    (covered : Covered bad vmm) : FreesReached virtAddr pml4 n vmm := by
  refine freesReached_keeps (fun vmm => Owned pml4 first count vmm ∧ vmm.cr3 = pml4 ∧
    Covered bad vmm) (fun vmm holds virt => holds.1.pathReached booted holds.2.2 virt) ?_
    ⟨owned, cr3, covered⟩
  rintro i below vmm ⟨owned, cr3, covered⟩
  obtain ⟨index, low, same⟩ := inside i below
  obtain ⟨owned', released, _⟩ := owned.freePage booted (window.trans (by decide)) low same
  exact ⟨owned', released.cr3.trans cr3, owned.freePage_covered booted cr3 window low same covered⟩

/-- One turn of the loop of `vallocs` through the passthru window maps the next page of the heap. -/
theorem passthruFrom_turn {zero done : Bool} {turn remaining : Nat} {vmm after : Vmm}
    (owned : Owned pml4 first (count + turn) vmm) (cr3 : vmm.cr3 = pml4) (low : count + turn < 2 ^ 36)
    (success : (palloc vmm.pmm).1 ≠ 0)
    (reached : MapReached pml4 (slot (count + turn)) { vmm with pmm := (palloc vmm.pmm).2 })
    (result : Passthru.vallocsFrom zero (slot count) pml4 (remaining + 1) turn vmm =
      .ok (done, after)) :
    ∃ next, Lengthened pml4 first (count + turn) vmm next ∧
      Passthru.vallocsFrom zero (slot count) pml4 remaining (turn + 1) next = .ok (done, after) := by
  obtain ⟨page, _, free, taken⟩ := palloc_taken success
  rw [Passthru.vallocsFrom] at result
  dsimp only at result
  rw [if_neg success, taken, slot_add] at result
  rw [taken] at reached
  dsimp only at result reached
  have same : Passthru.mapPage (page * pageSize) _ pml4 _ = _ :=
    mapPage_eq (owned.tables.markUsed page) (cr3 ▸ booted.root) reached
  rw [same, bind_eq_ok] at result
  obtain ⟨mapped, mapping, result⟩ := result
  obtain ⟨lengthened, here⟩ := owned.mapPage low free mapping
  cases zero with
  | false => exact ⟨mapped, lengthened, result⟩
  | true =>
      simp only [if_true, bind_eq_ok] at result
      obtain ⟨cleared, clearing, result⟩ := result
      exact ⟨cleared, (lengthened.cleared booted (lengthened.cr3.trans cr3) here clearing).1, result⟩

/-- Every page of the manager is reached. -/
def AllCovered (vmm : Vmm) : Prop := Covered (fun _ => False) vmm

/-- The heap ends inside its window after a number of turns of the loop of `vallocs`, or the free
pages do not suffice for more. -/
def Fits (pml4 index turns : Nat) (vmm : Vmm) : Prop :=
  index + turns ≤ windowPages ∨ index ≤ windowPages ∧ Within pml4 index windowPages vmm

omit booted in
/-- A heap with a further turn and a free page ends before the window. -/
theorem Fits.low {index turns : Nat} {vmm : Vmm} (fits : Fits pml4 index (turns + 1) vmm)
    (ready : Ready vmm.pmm) {page : Nat} (free : pageUsed vmm.pmm page = false) :
    index < windowPages := by
  have positive := ready.counted.freePages_pos (free_lt free) free
  rcases fits with enough | ⟨inside, within⟩
  · omega
  · by_contra beyond
    obtain rfl : index = windowPages := by omega
    have none : heapPaths windowPages windowPages = ∅ := by
      rw [heapPaths, Finset.Ico_self, Finset.biUnion_empty]
    unfold Within at within
    rw [none, missingPaths, Finset.filter_empty, Finset.card_empty] at within
    omega

omit booted in
/-- After one turn the rest of the turns fits. -/
theorem Lengthened.fits {index turns : Nat} {vmm next : Vmm}
    (lengthened : Lengthened pml4 first index vmm next) (low : index < windowPages)
    (fits : Fits pml4 index (turns + 1) vmm) : Fits pml4 (index + 1) turns next := by
  rcases fits with enough | ⟨_, within⟩
  · exact Or.inl (by omega)
  · exact Or.inr ⟨low, lengthened.within low within⟩

/-- What `map_page` touches for a page that `palloc` took is reached. -/
theorem Owned.mapReached {page virt : Nat} {vmm : Vmm} (owned : Owned pml4 first count vmm)
    (covered : AllCovered vmm) :
    MapReached pml4 virt { vmm with pmm := markUsed vmm.pmm page } := by
  have low (frame : Nat)
      (table : IsTable { vmm with pmm := markUsed vmm.pmm page } pml4 frame) :
      frame / pageSize < (markUsed vmm.pmm page).maxPages := by
    rw [(markUsed_layout vmm.pmm page).maxPages]
    exact owned.low frame table
  exact (covered.markUsed id).mapReached (owned.tables.markUsed page) booted.root low
    fun _ impossible => impossible.elim

/-- Before every turn of the loop of `vallocs` inside the heap all that it touches is reached. -/
theorem Owned.loopReached {zero : Bool} {remaining : Nat} : ∀ {turn : Nat} {vmm : Vmm},
    Owned pml4 first (count + turn) vmm → vmm.cr3 = pml4 → AllCovered vmm →
    count + turn ≤ windowPages → Fits pml4 (count + turn) remaining vmm →
    LoopReached zero (slot count) pml4 remaining turn vmm := by
  induction remaining with
  | zero => exact fun _ _ _ _ _ turns impossible => absurd impossible (Nat.not_lt_zero _)
  | succ remaining ih =>
      intro turn vmm owned cr3 covered window fits turns below middle loop
      rcases palloc_cases owned.ready with ⟨page, _, free, _, taken⟩ | ⟨_, failed⟩
      · have success : (palloc vmm.pmm).1 ≠ 0 := by
          rw [taken]
          exact owned.not_zero booted free
        have low : count + turn < windowPages := fits.low owned.ready free
        have reached : MapReached pml4 (slot (count + turn)) { vmm with pmm := (palloc vmm.pmm).2 } := by
          rw [taken]
          exact owned.mapReached booted covered
        cases turns with
        | zero =>
            obtain ⟨_, rfl⟩ := Prod.mk.inj (Except.ok.inj loop)
            rw [if_neg success, Nat.add_zero, slot_add]
            exact reached
        | succ turns =>
            obtain ⟨next, lengthened, rest⟩ := passthruFrom_turn booted owned cr3
              (low.trans (by decide)) success reached loop
            have later := ih lengthened.owned (lengthened.cr3.trans cr3)
              (lengthened.covered booted owned cr3 low covered fun _ impossible => impossible.elim)
              low (lengthened.fits low fits) turns (by omega) middle rest
            rwa [show turn + 1 + turns = turn + (turns + 1) by omega] at later
      · cases turns with
        | zero =>
            obtain ⟨_, rfl⟩ := Prod.mk.inj (Except.ok.inj loop)
            rw [failed, if_pos rfl]
            change FreesReached (slot count) (vmm.cr3 &&& pteAddrMask) (turn + 0) vmm
            rw [cr3, booted.root, Nat.add_zero]
            refine owned.freesReached booted cr3 window (fun i low => ?_) covered
            exact ⟨count + i, by omega, by rw [slot_add]⟩
        | succ turns =>
            rw [Passthru.vallocsFrom, failed] at loop
            dsimp only at loop
            rw [if_pos rfl, bind_eq_ok] at loop
            obtain ⟨_, _, impossible⟩ := loop
            cases impossible

/-- A run of the loop of `vallocs` inside the heap leaves the pages reached. -/
theorem Looped.covered {n turns : Nat} {done : Bool} {vmm after : Vmm}
    (looped : Looped pml4 first count 0 n turns done vmm after) (owned : Owned pml4 first count vmm)
    (cr3 : vmm.cr3 = pml4) (inside : count + turns ≤ windowPages) (covered : AllCovered vmm) :
    AllCovered after := by
  have root : vmm.cr3 &&& pteAddrMask = pml4 := cr3.symm ▸ booted.root
  refine covered.kept root looped.extended.cr3
    (looped.extended.owned.layout.trans owned.layout.symm) (owned.few booted) (fun address apart => ?_)
    fun _ impossible => impossible.elim
  rcases looped.confined.lookups address with same | ⟨index, _, below, same, _⟩
  · exact same
  · exact absurd same.symm (apart index (by omega))

end Heap

/-- An allocation fits into the rest of the heap, and a freed range lies inside the part of the heap
that was handed out. -/
def Session.Bounded (session : Session) : Request → Prop
  | .vallocs _ count => session.vmm.nextVirt + count * pageSize ≤ passthruBase
  | .vfrees virtAddr count =>
      kheapBase ≤ virtAddr ∧ virtAddr + count * pageSize ≤ session.vmm.nextVirt

section Sessions

variable {pml4 count : Nat} {first : Vmm} (booted : Booted pml4 first)
include booted

omit booted in
/-- The heap ends before the passthru window. -/
theorem Standing.count_le {vmm : Vmm} (standing : Standing pml4 first count vmm) :
    count ≤ windowPages := by
  have inside := standing.inside
  unfold windowPages
  unfold kheapBase pageSize passthruBase at *
  omega

/-- An allocation inside the heap reaches the frames that it touches. -/
theorem Standing.vallocs_reaches {vmm : Vmm} (standing : Standing pml4 first count vmm)
    (covered : AllCovered vmm) (zero : Bool) {n : Nat} (fits : Fits pml4 count n vmm) :
    Passthru.Reaches vmm (.vallocs zero n) := by
  have start := standing.next_slot
  rw [Passthru.Reaches, standing.cr3, booted.root, start]
  exact Owned.loopReached booted (show Owned pml4 first (count + 0) vmm from standing.owned) standing.cr3
    covered standing.count_le fits

/-- An allocation inside the heap is the same through the passthru window. -/
theorem Standing.passthru {vmm : Vmm} (standing : Standing pml4 first count vmm)
    (covered : AllCovered vmm) (zero : Bool) {n : Nat} (fits : Fits pml4 count n vmm) :
    Passthru.vallocs zero n vmm = VirtualMemory.vallocs zero n vmm := by
  have root := standing.root booted
  exact vallocs_eq (root.symm ▸ standing.owned.tables) (standing.vallocs_reaches booted covered zero fits)

/-- A successful allocation inside the heap leaves the pages reached. -/
theorem Standing.covered {zero : Bool} {n : Nat} {vmm after : Vmm} {address : Nat}
    (standing : Standing pml4 first count vmm) (covered : AllCovered vmm)
    (fits : count + n ≤ windowPages)
    (result : VirtualMemory.vallocs zero n vmm = .ok (address, after)) : AllCovered after := by
  by_cases none : n = 0
  · rw [VirtualMemory.vallocs, if_pos none] at result
    obtain ⟨_, rfl⟩ := Prod.mk.inj (Except.ok.inj result)
    exact covered
  · obtain ⟨done, turns, middle, _, looped, same⟩ := standing.loop booted none result
    have few := looped.few
    have kept := looped.covered booted standing.owned standing.cr3 (by omega) covered
    cases done with
    | false =>
        obtain ⟨_, rfl⟩ := Prod.mk.inj same
        exact kept
    | true =>
        obtain ⟨_, rfl⟩ := Prod.mk.inj same
        exact ⟨kept.reached, kept.idle⟩

/-- Allocations in the first region of the heap succeed through the passthru window. -/
theorem Standing.passthruGrants {spare n : Nat} {vmm : Vmm} (standing : Standing pml4 first count vmm)
    (covered : AllCovered vmm) (zero : Bool) (some : n ≠ 0) (few : count + n ≤ 512)
    (stocked : Stocked (regionPaths {2 ^ 27 - 2 ^ 12}) (spare + n) pml4 vmm) :
    ∃ after, Passthru.vallocs zero n vmm = .ok (vmm.nextVirt, after) ∧
      Standing pml4 first (count + n) after ∧ AllCovered after ∧
      Stocked (regionPaths {2 ^ 27 - 2 ^ 12}) spare pml4 after := by
  have fits : count + n ≤ windowPages := few.trans (by decide)
  obtain ⟨after, result, standing', stocked'⟩ := standing.grants booted zero some few stocked
  exact ⟨after, (standing.passthru booted covered zero (Or.inl fits)).trans result, standing',
    standing.covered booted covered fits result, stocked'⟩

/-- An allocation of one page reaches the frames that it touches, wherever the heap ends. -/
theorem Standing.valloc_reaches {vmm : Vmm} (standing : Standing pml4 first count vmm)
    (covered : AllCovered vmm) (zero : Bool) : Passthru.Reaches vmm (.vallocs zero 1) := by
  rw [Passthru.Reaches, standing.cr3, booted.root]
  refine loopReached_one fun success => ?_
  obtain ⟨page, _, _, taken⟩ := palloc_taken success
  rw [taken]
  exact standing.owned.mapReached booted covered

/-- Freeing a range of the heap reaches the tables of its pages. -/
theorem Standing.vfrees_reaches {vmm : Vmm} (standing : Standing pml4 first count vmm)
    (covered : AllCovered vmm) {virtAddr n : Nat} (above : kheapBase ≤ virtAddr)
    (below : virtAddr + n * pageSize ≤ vmm.nextVirt) :
    Passthru.Reaches vmm (.vfrees virtAddr n) := by
  rw [Passthru.Reaches, standing.cr3, booted.root]
  refine standing.owned.freesReached booted standing.cr3 standing.count_le (fun i low => ?_) covered
  rw [standing.range_address below low]
  exact standing.range_slot above below low

/-- A call inside the heap reaches what it touches and keeps the pages reached. -/
theorem Standing.bounded {session : Session} (standing : Standing pml4 first count session.vmm)
    (covered : AllCovered session.vmm) {request : Request} (bounded : session.Bounded request) :
    Passthru.Reaches session.vmm request ∧ ∃ count', Standing pml4 first count' (session.step request).vmm ∧
      AllCovered (session.step request).vmm := by
  have limit := standing.nextVirt
  cases request with
  | vallocs zero n =>
      change session.vmm.nextVirt + n * pageSize ≤ passthruBase at bounded
      rw [limit] at bounded
      have fits : count + n ≤ windowPages := by
        unfold windowPages
        unfold kheapBase pageSize passthruBase at *
        omega
      refine ⟨standing.vallocs_reaches booted covered zero (Or.inl fits), ?_⟩
      rcases standing.vallocs_cases booted zero n with idle | ⟨turns, middle, looped, stepped⟩ |
        ⟨middle, looped, stepped⟩
      · rw [idle]
        exact ⟨count, standing, covered⟩
      · rw [stepped]
        have few := looped.few
        exact ⟨count, standing.refused looped.refused,
          looped.covered booted standing.owned standing.cr3 (by omega) covered⟩
      · rw [stepped]
        have next : add64 session.vmm.nextVirt (mul64 n pageSize) =
            kheapBase + (count + n) * pageSize := by
          rw [limit]
          unfold add64 mul64 kheapBase pageSize passthruBase at *
          omega
        have inside : kheapBase + (count + n) * pageSize ≤ passthruBase := by
          unfold pageSize at bounded ⊢
          omega
        have kept := looped.covered booted standing.owned standing.cr3 fits covered
        exact ⟨count + n, standing.granted looped.granted.1 next inside, kept.reached, kept.idle⟩
  | vfrees virtAddr n =>
      obtain ⟨above, below⟩ := bounded
      refine ⟨standing.vfrees_reaches booted covered above below, count, ?_, ?_⟩
      · obtain ⟨owned, released⟩ := standing.released booted above below
        exact ⟨owned, released.cr3.trans standing.cr3, released.nextVirt.trans limit, standing.inside⟩
      · obtain ⟨owned, released⟩ := standing.released booted above below
        have root := standing.root booted
        refine covered.kept root released.cr3 (owned.layout.trans standing.owned.layout.symm)
          (standing.owned.few booted) (fun address apart => released.kept address ?_)
          fun _ impossible => impossible.elim
        intro virt member same
        obtain ⟨i, low, rfl⟩ := List.mem_map.mp member
        obtain ⟨index, few, page⟩ := standing.range_slot above below (List.mem_range.mp low)
        exact apart index (few.trans_le standing.count_le) (page.symm.trans same.symm)

/-- Runs inside the heap are the same through the passthru window, and their calls meet every condition
that calls inside the heap meet. -/
theorem Standing.runs {session : Session} {requests : List Request}
    (standing : Standing pml4 first count session.vmm) (covered : AllCovered session.vmm)
    (bounded : Guarded Session.step Session.Bounded session requests)
    {condition : Session → Request → Prop}
    (implies : ∀ count session request, Standing pml4 first count session.vmm →
      session.Bounded request → Passthru.Reaches session.vmm request → condition session request) :
    Guarded Passthru.step condition session requests ∧
      visited Passthru.step session requests = visited Session.step session requests ∧
      requests.foldl Passthru.step session = requests.foldl Session.step session ∧
      ∃ count', Standing pml4 first count' (requests.foldl Session.step session).vmm ∧
        AllCovered (requests.foldl Session.step session).vmm := by
  have keeps (session : Session) (request : Request)
      (holds : ∃ count, Standing pml4 first count session.vmm ∧ AllCovered session.vmm)
      (allowed : session.Bounded request) : ∃ count,
        Standing pml4 first count (session.step request).vmm ∧ AllCovered (session.step request).vmm := by
    obtain ⟨_, standing, covered⟩ := holds
    exact (standing.bounded booted covered allowed).2
  have meets (session : Session) (request : Request)
      (holds : ∃ count, Standing pml4 first count session.vmm ∧ AllCovered session.vmm)
      (allowed : session.Bounded request) : condition session request := by
    obtain ⟨count, standing, covered⟩ := holds
    exact implies count session request standing allowed (standing.bounded booted covered allowed).1
  have agree (session : Session) (request : Request)
      (holds : ∃ count, Standing pml4 first count session.vmm ∧ AllCovered session.vmm)
      (allowed : session.Bounded request) :
      Passthru.step session request = session.step request := by
    obtain ⟨_, standing, covered⟩ := holds
    refine passthruStep_eq ?_ (standing.bounded booted covered allowed).1
    rw [standing.cr3, booted.root]
    exact standing.owned.tables
  obtain ⟨visits, ends, conditions⟩ := visited_same keeps agree ⟨count, standing, covered⟩ bounded
  exact ⟨(conditions _).mpr (guarded_mono keeps meets ⟨count, standing, covered⟩ bounded), visits, ends,
    visited_invariant keeps ⟨count, standing, covered⟩ bounded _ (visited_last _ _ _)⟩

end Sessions

/-- When the passthru window keeps its mappings, it reaches every page of the manager. -/
theorem LinkedMachine.Apart.covered {machine : LinkedMachine} (apart : machine.Apart)
    {old : PackedBits.Bytes} {frames : Nat → Fin 512 → Nat} {uefiCr3 : Nat} {start : Pmm} {vmm : Vmm}
    (result : initMemory machine.toMachine old frames uefiCr3 start = .ok vmm) : AllCovered vmm := by
  obtain ⟨pml4, first, last, valid, _, mapped, rfl, top, booted⟩ :=
    initMemory_spec (show initMemory machine.toLoadedMachine.toMachine _ _ _ _ = _ from result)
  have keeps := keepsMappings_of_apart valid mapped booted top apart
  refine ⟨fun page inside _ => keeps.passthru _ ?_, fun _ impossible => impossible.elim⟩
  rw [booted.ready.maxPages] at inside
  unfold pageSize at *
  omega

/-- With at most two gigabytes of memory the passthru window does not wrap around. -/
theorem LinkedMachine.Fits.apart {machine : LinkedMachine} (fits : machine.Fits)
    (small : machine.top ≤ 2 ^ 31) : machine.Apart where
  low := fun range listed _ => fits.low range listed
  loaded := fun _ _ _ => small.trans (Nat.le_add_left _ _)
  late := fun _ _ _ => small.trans (Nat.le_add_left _ _)

/-- With one gigabyte of memory the window does not wrap around. -/
theorem oneGigabyte_apart : oneGigabyte.Apart :=
  oneGigabyte_fits.apart (by rw [oneGigabyte_top]; decide)

end ArchaOS.VirtualMemory
