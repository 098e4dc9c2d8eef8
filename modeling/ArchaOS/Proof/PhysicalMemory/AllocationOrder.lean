import Mathlib.Order.Bounds.Basic
import ArchaOS.Proof.PhysicalMemory.Bookkeeping

namespace ArchaOS.PhysicalMemory

open Library

/-- `palloc` takes the lowest free page and fails exactly when there is none. -/
structure LowestFirst (pmm : Pmm) : Prop where
  lowest : ∀ page, IsLeast (PackedBits.clearBelow pmm.bitmap pmm.maxPages : Set Nat) page →
    (palloc pmm).1 = pageSize * page ∧ pageSize * page < 2 ^ 64 ∧
      (∀ other, PackedBits.isSet (palloc pmm).2.bitmap other =
        (decide (other = page) || PackedBits.isSet pmm.bitmap other)) ∧
      (palloc pmm).2.freePages + 1 = pmm.freePages ∧ SameLayout (palloc pmm).2 pmm
  exhausted : PackedBits.clearBelow pmm.bitmap pmm.maxPages = ∅ → palloc pmm = (0, pmm)
  zero : (palloc pmm).1 = 0 ↔ pmm.freePages = 0

/-- A page is free exactly when its bit is clear. -/
theorem mem_clearBelow_iff (pmm : Pmm) (page : Nat) :
    page ∈ PackedBits.clearBelow pmm.bitmap pmm.maxPages ↔ pageUsed pmm page = false := by
  rw [PackedBits.mem_clearBelow, pageUsed_eq, Bool.or_eq_false_iff, decide_eq_false_iff_not, not_le]

/-- Taking a free page lowers the counter by one. -/
theorem Counted.freePages_markUsed {pmm : Pmm} (counted : Counted pmm) {page : Nat}
    (free : pageUsed pmm page = false) :
    (PhysicalMemory.markUsed pmm page).freePages + 1 = pmm.freePages := by
  have member := (mem_clearBelow_iff pmm page).mpr free
  have inside := ((PackedBits.mem_clearBelow _ _ _).mp member).1
  have bound := PackedBits.clearBelow_card_le pmm.bitmap pmm.maxPages
  have positive := Finset.card_pos.mpr ⟨page, member⟩
  have few := counted.few
  have marked : (PhysicalMemory.markUsed pmm page).freePages = sub64 pmm.freePages 1 := by
    simp [PhysicalMemory.markUsed, free, not_le.mpr inside]
  rw [marked, counted.freePages, sub64_eq positive (by omega)]
  omega

/-- Pages are handed out from the lowest on. -/
theorem Ready.lowestFirst {pmm : Pmm} (ready : Ready pmm) (zero : pageUsed pmm 0 = true) :
    LowestFirst pmm := by
  have few := ready.counted.few
  rcases palloc_cases ready with ⟨page, inside, free, earlier, result⟩ | ⟨full, result⟩
  · have member := (mem_clearBelow_iff pmm page).mpr free
    have positive : page ≠ 0 := by
      rintro rfl
      rw [zero] at free
      cases free
    have counter := ready.counted.freePages_markUsed free
    refine ⟨?_, ?_, ?_⟩
    · intro least isLeast
      have same : least = page := by
        refine le_antisymm (isLeast.2 member) ?_
        by_contra below
        have unset := (mem_clearBelow_iff pmm least).mp isLeast.1
        rw [earlier least (not_le.mp below)] at unset
        cases unset
      rw [same, result]
      refine ⟨Nat.mul_comm _ _, ?_, ?_, counter, markUsed_layout pmm page⟩
      · unfold pageSize
        omega
      · intro other
        simp [isSet_markUsed, inside]
    · intro none
      rw [none] at member
      cases member
    · rw [result]
      have nonzero : page * pageSize ≠ 0 := Nat.mul_ne_zero positive (by decide)
      constructor
      · exact fun null => absurd null nonzero
      · intro empty
        omega
  · have none : PackedBits.clearBelow pmm.bitmap pmm.maxPages = ∅ := by
      rw [Finset.eq_empty_iff_forall_notMem]
      intro page member
      rw [mem_clearBelow_iff, full page] at member
      cases member
    refine ⟨?_, fun _ => result, ?_⟩
    · intro page isLeast
      have member := isLeast.1
      rw [none] at member
      cases member
    · rw [result, ready.counted.freePages, none]
      exact iff_of_true rfl rfl

/-- Any request keeps the manager ready, also the release of an address that nobody holds. -/
theorem Ready.step (session : Session) (request : Request) (ready : Ready session.pmm) :
    Ready (session.step request).pmm := by
  cases request with
  | palloc => exact ready.palloc
  | reserveRegion base length =>
      change Ready (PhysicalMemory.reserveRegion base length session.pmm)
      rw [reserveRegion_eq]
      obtain ⟨layout, counted, _⟩ := markUsed_loop ((List.range
        (add64 length (pageSize - 1) / pageSize)).map fun i => add64 (base / pageSize) i) session.pmm
      exact ready.of_layout layout (counted ready.counted)
  | pfree address => exact ready.markFree (address / pageSize)

/-- Every run keeps the manager ready. -/
theorem ready_run {map : MemoryMap} {old : PackedBits.Bytes} {start pmm : Pmm}
    (initialised : initPmm map old start = .ok pmm) (requests : List Request) :
    ∀ reached ∈ visited Session.step ⟨pmm, []⟩ requests, Ready reached.pmm :=
  visited_always Ready.step (initPmm_initialised initialised).ready requests

/-- After any run of requests that leaves page zero used, `palloc` takes the lowest free page. -/
theorem palloc_lowestFirst (map : MemoryMap) (old : PackedBits.Bytes) (start pmm : Pmm)
    (requests : List Request) (initialised : initPmm map old start = .ok pmm) :
    ∀ reached ∈ visited Session.step ⟨pmm, []⟩ requests, pageUsed reached.pmm 0 = true →
      LowestFirst reached.pmm := by
  intro reached member zero
  exact (ready_run initialised requests reached member).lowestFirst zero

/-- The pages of a small machine are handed out. -/
theorem palloc_lowestFirst_fourPages :
    initPmm fourPages.toMemoryMap (fun _ => 0#8) blankPmm = .ok fourPagesPmm ∧
      pageUsed fourPagesPmm 0 = true ∧ LowestFirst fourPagesPmm := by
  have zero : pageUsed fourPagesPmm 0 = true := by decide
  exact ⟨rfl, zero, palloc_lowestFirst fourPages.toMemoryMap (fun _ => 0#8) blankPmm fourPagesPmm
    [.palloc] rfl ⟨fourPagesPmm, []⟩ (visited_head _ _ _) zero⟩

/-- A number of consecutive calls of `palloc` and the addresses that they return. -/
def pallocList : Nat → Pmm → List Nat × Pmm
  | 0, pmm => ([], pmm)
  | count + 1, pmm =>
      let first := palloc pmm
      let rest := pallocList count first.2
      (first.1 :: rest.1, rest.2)

/-- One call of `pfree` for each address. -/
def pfreeList (addresses : List Nat) (pmm : Pmm) : Pmm :=
  addresses.foldl (fun pmm address => pfree address pmm) pmm

/-- A loop of marks sets the bits of its pages. -/
theorem isSet_markUsed_loop (pages : List Nat) (pmm : Pmm) (other : Nat) :
    PackedBits.isSet (pages.foldl markUsed pmm).bitmap other =
      (decide (other ∈ pages ∧ other < pmm.maxPages) || PackedBits.isSet pmm.bitmap other) := by
  induction pages generalizing pmm with
  | nil => simp
  | cons page rest ih =>
      rw [List.foldl_cons, ih, isSet_markUsed, (markUsed_layout pmm page).maxPages]
      by_cases same : other = page
      · subst same
        by_cases inside : other < pmm.maxPages <;> simp [inside]
      · simp [same]

/-- A loop of releases clears the bits of its pages. -/
theorem isSet_markFree_loop (pages : List Nat) (pmm : Pmm) (other : Nat) :
    PackedBits.isSet (pages.foldl markFree pmm).bitmap other =
      (PackedBits.isSet pmm.bitmap other && !decide (other ∈ pages ∧ other < pmm.maxPages)) := by
  induction pages generalizing pmm with
  | nil => simp
  | cons page rest ih =>
      rw [List.foldl_cons, ih, isSet_markFree, (markFree_layout pmm page).maxPages]
      by_cases same : other = page
      · subst same
        by_cases inside : other < pmm.maxPages <;> simp [inside]
      · simp [same]

/-- Two counted states that differ in no flag are equal. -/
theorem Counted.eq_of_isSet_eq {first second : Pmm} (counted : Counted first)
    (counted' : Counted second) (layout : SameLayout first second)
    (same : ∀ page, PackedBits.isSet first.bitmap page = PackedBits.isSet second.bitmap page) :
    first = second := by
  have bitmap := PackedBits.eq_of_isSet_eq same
  have freePages : first.freePages = second.freePages := by
    rw [counted.freePages, counted'.freePages, bitmap, layout.maxPages]
  rw [SameLayout] at layout
  rw [layout, bitmap, freePages]

/-- Consecutive calls that succeed mark distinct pages that were free. -/
theorem pallocList_pages (count : Nat) {pmm : Pmm} (ready : Ready pmm)
    (nonzero : ∀ address ∈ (pallocList count pmm).1, address ≠ 0) :
    ∃ pages : List Nat, (pallocList count pmm).1 = pages.map (· * pageSize) ∧
      (∀ page ∈ pages, pageUsed pmm page = false) ∧
      (pallocList count pmm).2 = pages.foldl markUsed pmm := by
  induction count generalizing pmm with
  | zero => exact ⟨[], rfl, by simp, rfl⟩
  | succ count ih =>
      rw [pallocList] at nonzero ⊢
      dsimp only at nonzero ⊢
      obtain ⟨head, tail⟩ := List.forall_mem_cons.mp nonzero
      obtain ⟨pages, addresses, free, after⟩ := ih ready.palloc tail
      rcases palloc_cases ready with ⟨page, inside, unset, _, result⟩ | ⟨_, result⟩
      · rw [result] at addresses free after ⊢
        refine ⟨page :: pages, ?_, ?_, after⟩
        · rw [List.map_cons, addresses]
        · refine List.forall_mem_cons.mpr ⟨unset, fun other member => ?_⟩
          have quiet := free other member
          rw [pageUsed_markUsed, Bool.or_eq_false_iff] at quiet
          exact quiet.2
      · rw [result] at head
        exact absurd rfl head

/-- Freeing page addresses is a loop of releases. -/
theorem pfreeList_pages (pages : List Nat) (pmm : Pmm) :
    pfreeList (pages.map (· * pageSize)) pmm = pages.foldl markFree pmm := by
  rw [pfreeList, List.foldl_map]
  congr 1
  funext pmm page
  rw [pfree, Nat.mul_div_cancel page (by decide)]

/-- Freeing the addresses of consecutive calls in any order restores the manager. -/
theorem pfreeList_pallocList {pmm : Pmm} (ready : Ready pmm) (count : Nat)
    (nonzero : ∀ address ∈ (pallocList count pmm).1, address ≠ 0) {order : List Nat}
    (permuted : order.Perm (pallocList count pmm).1) :
    pfreeList order (pallocList count pmm).2 = pmm := by
  obtain ⟨pages, addresses, free, after⟩ := pallocList_pages count ready nonzero
  rw [addresses] at permuted
  obtain ⟨shuffled, rfl, same⟩ : ∃ shuffled : List Nat, order = shuffled.map (· * pageSize) ∧
      shuffled.Perm pages := by
    have composed := congrFun (congrFun (List.eq_map_comp_perm (· * pageSize)) order) pages
    exact composed.mpr permuted
  rw [pfreeList_pages, after]
  obtain ⟨takenLayout, takenCounted, _⟩ := markUsed_loop pages pmm
  obtain ⟨freedLayout, freedCounted, _⟩ := markFree_loop shuffled (pages.foldl markUsed pmm)
  refine (freedCounted (takenCounted ready.counted)).eq_of_isSet_eq ready.counted
    (freedLayout.trans takenLayout) fun page => ?_
  rw [isSet_markFree_loop, isSet_markUsed_loop, takenLayout.maxPages]
  by_cases taken : page ∈ pages
  · have unset := free page taken
    rw [pageUsed_eq, Bool.or_eq_false_iff, decide_eq_false_iff_not, not_le] at unset
    simp [unset, same.mem_iff.mpr taken]
  · have kept : page ∉ shuffled := fun member => taken (same.mem_iff.mp member)
    simp [taken, kept]

/-- After any run of requests, freeing undoes consecutive successful calls of `palloc`. -/
theorem pfree_restores (map : MemoryMap) (old : PackedBits.Bytes) (start pmm : Pmm)
    (requests : List Request) (initialised : initPmm map old start = .ok pmm) :
    ∀ reached ∈ visited Session.step ⟨pmm, []⟩ requests, ∀ count order,
      (∀ address ∈ (pallocList count reached.pmm).1, address ≠ 0) →
        order.Perm (pallocList count reached.pmm).1 →
          pfreeList order (pallocList count reached.pmm).2 = reached.pmm := by
  intro reached member count order nonzero permuted
  exact pfreeList_pallocList (ready_run initialised requests reached member) count nonzero permuted

/-- Three pages of a small machine are freed in another order. -/
theorem pfree_restores_fourPages :
    (pallocList 3 fourPagesPmm).1 = [0x2000, 0x3000, 0x4000] ∧
      pfreeList [0x4000, 0x2000, 0x3000] (pallocList 3 fourPagesPmm).2 = fourPagesPmm := by
  have addresses : (pallocList 3 fourPagesPmm).1 = [0x2000, 0x3000, 0x4000] := by decide
  have restored := pfree_restores fourPages.toMemoryMap (fun _ => 0#8) blankPmm fourPagesPmm []
    rfl ⟨fourPagesPmm, []⟩ (visited_head _ _ _) 3 [0x4000, 0x2000, 0x3000]
    (by rw [addresses]; decide) (by rw [addresses]; decide)
  exact ⟨addresses, restored⟩

end ArchaOS.PhysicalMemory
