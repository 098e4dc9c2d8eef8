import ArchaOS.Proof.PhysicalMemory.AllocationOrder

namespace ArchaOS.PhysicalMemory

open Library

/-- The page holds a byte of the range. -/
def Touches (base length page : Nat) : Prop :=
  ∃ byte, base ≤ byte ∧ byte < base + length ∧ byte / pageSize = page

/-- The free pages of the first state that the second state shows as used. -/
def changedPages (before after : Pmm) : Finset Nat :=
  (Finset.range before.maxPages).filter fun page =>
    pageUsed before page = false ∧ pageUsed after page = true

/-- A reservation takes every page of its range, no other page, and counts what it takes. -/
structure Reserves (before : Pmm) (base length : Nat) (after : Pmm) : Prop where
  covered : ∀ page, page < before.maxPages → Touches base length page → pageUsed after page = true
  kept : ∀ page, ¬ Touches base length page →
    PackedBits.isSet after.bitmap page = PackedBits.isSet before.bitmap page
  freePages : after.freePages = sub64 before.freePages (changedPages before after).card

/-- The loop of `reserve_region` reaches the last page of the range, or that page needs no mark. -/
def ReachesLast (pmm : Pmm) (base length : Nat) : Prop :=
  if length ≤ 2 ^ 64 - pageSize then
    length = 0 ∨ base % pageSize + (length - 1) % pageSize < pageSize ∨
      pageUsed pmm ((base + length - 1) / pageSize) = true
  else ∀ page, page ≤ (base + length - 1) / pageSize → pageUsed pmm page = true

/-- The touched pages are those from the first byte to the last. -/
theorem touches_iff (base length page : Nat) : Touches base length page ↔
    0 < length ∧ base / pageSize ≤ page ∧ page ≤ (base + length - 1) / pageSize := by
  unfold Touches pageSize
  constructor
  · rintro ⟨byte, lower, upper, rfl⟩
    omega
  · rintro ⟨positive, lower, upper⟩
    exact ⟨max base (page * 0x1000), by omega, by omega, by omega⟩

/-- The pages that the loop of `reserve_region` marks. -/
def reservedPages (base length : Nat) : List Nat :=
  (List.range (add64 length (pageSize - 1) / pageSize)).map fun i => add64 (base / pageSize) i

/-- The reserved pages are counted from the first byte on. -/
theorem mem_reservedPages {base length : Nat} (fits : base + length < 2 ^ 64) (page : Nat) :
    page ∈ reservedPages base length ↔
      base / pageSize ≤ page ∧ page < base / pageSize + add64 length (pageSize - 1) / pageSize := by
  have bound := add64_lt length (pageSize - 1)
  simp only [reservedPages, List.mem_map, List.mem_range]
  unfold pageSize at *
  constructor
  · rintro ⟨index, low, rfl⟩
    rw [add64_eq (by omega)]
    omega
  · rintro ⟨lower, upper⟩
    refine ⟨page - base / 0x1000, by omega, ?_⟩
    rw [add64_eq (by omega)]
    omega

/-- The number of marked pages is the length rounded up, unless the rounding wraps to zero. -/
theorem reservedPages_count {length : Nat} (fits : length < 2 ^ 64) :
    add64 length (pageSize - 1) / pageSize =
      if length ≤ 2 ^ 64 - pageSize then (length + (pageSize - 1)) / pageSize else 0 := by
  unfold add64 pageSize
  split <;> omega

/-- The loop marks only pages of the range. -/
theorem touches_of_reserved {base length page : Nat} (fits : base + length < 2 ^ 64)
    (member : page ∈ reservedPages base length) : Touches base length page := by
  obtain ⟨lower, upper⟩ := (mem_reservedPages fits page).mp member
  rw [reservedPages_count (by omega)] at upper
  rw [touches_iff]
  unfold pageSize at *
  split at upper <;> omega

/-- Two differences in turn are the difference of the sum. -/
theorem sub64_sub64 (value first second : Nat) :
    sub64 (sub64 value first) second = sub64 value (first + second) := by
  unfold sub64
  omega

/-- Marking a free page changes that page. -/
theorem changedPages_cons {pmm after : Pmm} {page : Nat} (inside : page < pmm.maxPages)
    (free : pageUsed pmm page = false) (used : pageUsed after page = true) :
    changedPages pmm after = insert page (changedPages (markUsed pmm page) after) := by
  ext other
  simp only [changedPages, (markUsed_layout pmm page).maxPages, Finset.mem_insert, Finset.mem_filter,
    Finset.mem_range, pageUsed_markUsed, Bool.or_eq_false_iff, decide_eq_false_iff_not]
  by_cases same : other = page
  · simp [same, inside, free, used]
  · simp [same]

/-- A loop of marks lowers the counter by the number of pages that it changes. -/
theorem freePages_loop (pages : List Nat) (pmm : Pmm) (word : pmm.freePages < 2 ^ 64) :
    (pages.foldl markUsed pmm).freePages =
      sub64 pmm.freePages (changedPages pmm (pages.foldl markUsed pmm)).card := by
  induction pages generalizing pmm with
  | nil =>
      have none : changedPages pmm pmm = ∅ := by
        apply Finset.filter_eq_empty_iff.mpr
        rintro page _ ⟨free, used⟩
        rw [free] at used
        cases used
      rw [List.foldl_nil, none, Finset.card_empty, sub64_eq (Nat.zero_le _) word, Nat.sub_zero]
  | cons page rest ih =>
      rw [List.foldl_cons]
      by_cases changed : page < pmm.maxPages ∧ pageUsed pmm page = false
      · obtain ⟨inside, free⟩ := changed
        have counter : (markUsed pmm page).freePages = sub64 pmm.freePages 1 := by
          simp [markUsed, free, not_le.mpr inside]
        have small : (markUsed pmm page).freePages < 2 ^ 64 := by
          rw [counter]
          exact Nat.mod_lt _ (by decide)
        have marked : pageUsed (markUsed pmm page) page = true := by simp [pageUsed_markUsed]
        have used : pageUsed (rest.foldl markUsed (markUsed pmm page)) page = true := by
          rw [(markUsed_loop rest (markUsed pmm page)).2.2, marked, Bool.or_true]
        have fresh : page ∉ changedPages (markUsed pmm page)
            (rest.foldl markUsed (markUsed pmm page)) := by
          simp [changedPages, marked]
        rw [ih _ small, counter, sub64_sub64, changedPages_cons inside free used,
          Finset.card_insert_of_notMem fresh, Nat.add_comm]
      · have unchanged : markUsed pmm page = pmm := by
          unfold markUsed
          split
          · rfl
          · rename_i inside
            rw [not_and, Bool.not_eq_false] at changed
            simp [changed (not_le.mp inside)]
        rw [unchanged, ih pmm word]

/-- A page that the loop misses stays free exactly when it was free. -/
theorem reserves_iff_missed {pmm : Pmm} {base length : Nat} (word : pmm.freePages < 2 ^ 64)
    (fits : base + length < 2 ^ 64) :
    Reserves pmm base length (reserveRegion base length pmm) ↔
      ∀ page, page ∉ reservedPages base length → Touches base length page →
        pageUsed pmm page = true := by
  have loop : reserveRegion base length pmm = (reservedPages base length).foldl markUsed pmm :=
    reserveRegion_eq base length pmm
  obtain ⟨layout, _, used⟩ := markUsed_loop (reservedPages base length) pmm
  rw [loop]
  constructor
  · intro reserves page missed touches
    by_cases inside : page < pmm.maxPages
    · have taken := reserves.covered page inside touches
      rwa [used page, decide_eq_false missed, Bool.false_or] at taken
    · rw [pageUsed_eq, decide_eq_true (not_lt.mp inside), Bool.true_or]
  · intro missed
    refine ⟨?_, ?_, freePages_loop _ pmm word⟩
    · intro page _ touches
      rw [used page]
      by_cases member : page ∈ reservedPages base length
      · rw [decide_eq_true member, Bool.true_or]
      · rw [missed page member touches, Bool.or_true]
    · intro page outside
      have unmarked : page ∉ reservedPages base length :=
        fun member => outside (touches_of_reserved fits member)
      simp [isSet_markUsed_loop, unmarked]

/-- `reserve_region` protects its range exactly when its loop reaches the last page. -/
theorem reserveRegion_reserves_iff (pmm : Pmm) (base length : Nat) (word : pmm.freePages < 2 ^ 64)
    (fits : base + length < 2 ^ 64) :
    Reserves pmm base length (reserveRegion base length pmm) ↔ ReachesLast pmm base length := by
  rw [reserves_iff_missed word fits]
  simp only [mem_reservedPages fits, reservedPages_count (by omega : length < 2 ^ 64), touches_iff]
  unfold ReachesLast
  split
  · rename_i plain
    constructor
    · intro missed
      by_cases reaches : length = 0 ∨ base % pageSize + (length - 1) % pageSize < pageSize
      · exact reaches.imp_right Or.inl
      · refine Or.inr (Or.inr (missed _ ?_ ?_))
        · unfold pageSize at *
          omega
        · unfold pageSize at *
          omega
    · intro reaches page missed touches
      rcases reaches with empty | low | used
      · omega
      · unfold pageSize at *
        omega
      · have last : page = (base + length - 1) / pageSize := by
          unfold pageSize at *
          omega
        rw [last]
        exact used
  · rename_i wraps
    constructor
    · intro missed page low
      apply missed page
      · omega
      · unfold pageSize at *
        omega
    · intro used page _ touches
      exact used page touches.2.2

/-- A region at the end of a page is reserved. -/
theorem reserveRegion_reserves_iff_fourPages :
    ReachesLast fourPagesPmm 0x2800 0x800 ∧
      Reserves fourPagesPmm 0x2800 0x800 (reserveRegion 0x2800 0x800 fourPagesPmm) := by
  have reaches : ReachesLast fourPagesPmm 0x2800 0x800 := by
    rw [ReachesLast, if_pos (by decide)]
    exact Or.inr (Or.inl (by decide))
  exact ⟨reaches, (reserveRegion_reserves_iff fourPagesPmm 0x2800 0x800 (by decide)
    (by decide)).mpr reaches⟩

/-- A page worth of bytes from the middle of a page leaves its second half unprotected. -/
theorem reserveRegion_misses :
    initPmm fourPages.toMemoryMap (fun _ => 0#8) blankPmm = .ok fourPagesPmm ∧
      Touches 0x2800 0x1000 3 ∧ 3 < fourPagesPmm.maxPages ∧
      pageUsed (reserveRegion 0x2800 0x1000 fourPagesPmm) 3 = false ∧
      ¬ Reserves fourPagesPmm 0x2800 0x1000 (reserveRegion 0x2800 0x1000 fourPagesPmm) := by
  have touches : Touches 0x2800 0x1000 3 := ⟨0x3000, by decide, by decide, by decide⟩
  have inside : 3 < fourPagesPmm.maxPages := by decide
  have free : pageUsed (reserveRegion 0x2800 0x1000 fourPagesPmm) 3 = false := by decide
  refine ⟨rfl, touches, inside, free, fun reserves => ?_⟩
  rw [reserves.covered 3 inside touches] at free
  cases free

end ArchaOS.PhysicalMemory
