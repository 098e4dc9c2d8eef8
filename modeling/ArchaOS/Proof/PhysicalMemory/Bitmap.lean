import ArchaOS.Construction.PhysicalMemory

namespace ArchaOS.PhysicalMemory

open Library

/-- Marking pages changes the bitmap and the counter and nothing else. -/
def SameLayout (first second : Pmm) : Prop :=
  first = { second with bitmap := first.bitmap, freePages := first.freePages }

/-- A manager has its own layout. -/
theorem SameLayout.refl (pmm : Pmm) : SameLayout pmm pmm := rfl

/-- Layouts are equal in turn. -/
theorem SameLayout.trans {first second third : Pmm} (left : SameLayout first second)
    (right : SameLayout second third) : SameLayout first third := by
  rw [SameLayout] at left right ⊢
  rw [right] at left
  exact left

/-- Equality of layouts is symmetric. -/
theorem SameLayout.symm {first second : Pmm} (same : SameLayout first second) :
    SameLayout second first := by
  rw [SameLayout] at same ⊢
  rw [same]

section Fields

variable {first second : Pmm} (same : SameLayout first second)
include same

theorem SameLayout.maxPages : first.maxPages = second.maxPages := by rw [same]

theorem SameLayout.sizeofBitmap : first.sizeofBitmap = second.sizeofBitmap := by rw [same]

theorem SameLayout.bitmapAddr : first.bitmapAddr = second.bitmapAddr := by rw [same]

theorem SameLayout.bitmapInit : first.bitmapInit = second.bitmapInit := by rw [same]

theorem SameLayout.maxPhysicalAddress :
    first.maxPhysicalAddress = second.maxPhysicalAddress := by rw [same]

end Fields

/-- Taking a page keeps the layout. -/
theorem markUsed_layout (pmm : Pmm) (page : Nat) : SameLayout (markUsed pmm page) pmm := by
  unfold markUsed SameLayout
  split
  · rfl
  · split <;> rfl

/-- Freeing a page keeps the layout. -/
theorem markFree_layout (pmm : Pmm) (page : Nat) : SameLayout (markFree pmm page) pmm := by
  unfold markFree SameLayout
  split
  · rfl
  · split <;> rfl

/-- A page beyond the limit counts as used whatever its bit says. -/
theorem pageUsed_eq (pmm : Pmm) (page : Nat) :
    pageUsed pmm page = (decide (pmm.maxPages ≤ page) || PackedBits.isSet pmm.bitmap page) := by
  unfold pageUsed
  split
  · rename_i outside
    rw [decide_eq_true outside, Bool.true_or]
  · rename_i inside
    rw [decide_eq_false inside, Bool.false_or]

/-- Marking a page used sets the bit of that page alone. -/
theorem isSet_markUsed (pmm : Pmm) (page other : Nat) :
    PackedBits.isSet (markUsed pmm page).bitmap other =
      (decide (other = page ∧ page < pmm.maxPages) || PackedBits.isSet pmm.bitmap other) := by
  unfold markUsed
  split
  · rename_i outside
    simp [not_lt.mpr outside]
  · rename_i inside
    rw [not_le] at inside
    split
    · simp [inside]
    · rename_i used
      rw [pageUsed_eq, decide_eq_false (not_le.mpr inside), Bool.false_or, Bool.not_eq_true,
        Bool.not_eq_false'] at used
      by_cases same : other = page
      · rw [same, used, Bool.or_true]
      · simp [same]

/-- Marking a page free clears the bit of that page alone. -/
theorem isSet_markFree (pmm : Pmm) (page other : Nat) :
    PackedBits.isSet (markFree pmm page).bitmap other =
      (PackedBits.isSet pmm.bitmap other && !decide (other = page ∧ page < pmm.maxPages)) := by
  unfold markFree
  split
  · rename_i outside
    simp [not_lt.mpr outside]
  · rename_i inside
    rw [not_le] at inside
    split
    · simp [inside, Bool.and_comm]
    · rename_i unused
      rw [pageUsed_eq, decide_eq_false (not_le.mpr inside), Bool.false_or,
        Bool.not_eq_true] at unused
      by_cases same : other = page
      · rw [same, unused, Bool.false_and]
      · simp [same]

/-- Marking a page used affects the answer for that page alone. -/
theorem pageUsed_markUsed (pmm : Pmm) (page other : Nat) :
    pageUsed (markUsed pmm page) other = (decide (other = page) || pageUsed pmm other) := by
  rw [pageUsed_eq, pageUsed_eq, isSet_markUsed, (markUsed_layout pmm page).maxPages]
  by_cases same : other = page
  · subst same
    by_cases inside : other < pmm.maxPages
    · simp [inside]
    · simp [not_lt.mp inside]
  · simp [same]

/-- Marking a page free affects the answer for that page alone. -/
theorem pageUsed_markFree (pmm : Pmm) (page other : Nat) :
    pageUsed (markFree pmm page) other =
      (pageUsed pmm other && !decide (other = page ∧ page < pmm.maxPages)) := by
  rw [pageUsed_eq, pageUsed_eq, isSet_markFree, (markFree_layout pmm page).maxPages]
  by_cases freed : other = page ∧ page < pmm.maxPages
  · obtain ⟨rfl, inside⟩ := freed
    simp [inside]
  · simp [freed]

/-- The counter equals the number of clear bits and the padding bits are set. -/
structure Counted (pmm : Pmm) : Prop where
  few : pmm.maxPages < 2 ^ 52
  freePages : pmm.freePages = (PackedBits.clearBelow pmm.bitmap pmm.maxPages).card
  padding : ∀ page, pmm.maxPages ≤ page → page < 8 * pmm.sizeofBitmap →
    PackedBits.isSet pmm.bitmap page = true

/-- Taking a page keeps the count. -/
theorem Counted.markUsed {pmm : Pmm} (counted : Counted pmm) (page : Nat) :
    Counted (markUsed pmm page) := by
  by_cases changed : page < pmm.maxPages ∧ PackedBits.isSet pmm.bitmap page = false
  · obtain ⟨inside, unset⟩ := changed
    have marked : PhysicalMemory.markUsed pmm page =
        { pmm with
          bitmap := PackedBits.set pmm.bitmap page, freePages := sub64 pmm.freePages 1 } := by
      simp [PhysicalMemory.markUsed, pageUsed, not_le.mpr inside, unset]
    rw [marked]
    have drop := PackedBits.clearBelow_set_card pmm.bitmap pmm.maxPages page inside unset
    have bound := PackedBits.clearBelow_card_le pmm.bitmap pmm.maxPages
    have few := counted.few
    refine ⟨counted.few, ?_, ?_⟩
    · change sub64 pmm.freePages 1 = _
      rw [counted.freePages, sub64_eq (by omega) (by omega)]
      change _ = (PackedBits.clearBelow (PackedBits.set pmm.bitmap page) pmm.maxPages).card
      omega
    · intro other beyond low
      change PackedBits.isSet (PackedBits.set pmm.bitmap page) other = true
      simp [counted.padding other beyond low]
  · have unchanged : PhysicalMemory.markUsed pmm page = pmm := by
      simp only [not_and, Bool.not_eq_false] at changed
      unfold PhysicalMemory.markUsed pageUsed
      split
      · rfl
      · rename_i inside
        simp [changed (not_le.mp inside)]
    rw [unchanged]
    exact counted

/-- Freeing a page keeps the count. -/
theorem Counted.markFree {pmm : Pmm} (counted : Counted pmm) (page : Nat) :
    Counted (markFree pmm page) := by
  by_cases changed : page < pmm.maxPages ∧ PackedBits.isSet pmm.bitmap page = true
  · obtain ⟨inside, present⟩ := changed
    have marked : PhysicalMemory.markFree pmm page =
        { pmm with
          bitmap := PackedBits.clear pmm.bitmap page, freePages := add64 pmm.freePages 1 } := by
      simp [PhysicalMemory.markFree, pageUsed, not_le.mpr inside, present]
    rw [marked]
    have rise := PackedBits.clearBelow_clear_card pmm.bitmap pmm.maxPages page inside present
    have bound := PackedBits.clearBelow_card_le pmm.bitmap pmm.maxPages
    have few := counted.few
    refine ⟨counted.few, ?_, ?_⟩
    · change add64 pmm.freePages 1 = _
      rw [counted.freePages, add64_eq (by omega)]
      exact rise.symm
    · intro other beyond low
      have different : other ≠ page := by
        change pmm.maxPages ≤ other at beyond
        omega
      change PackedBits.isSet (PackedBits.clear pmm.bitmap page) other = true
      simp [counted.padding other beyond low, different]
  · have unchanged : PhysicalMemory.markFree pmm page = pmm := by
      simp only [not_and, Bool.not_eq_true] at changed
      unfold PhysicalMemory.markFree pageUsed
      split
      · rfl
      · rename_i inside
        simp [changed (not_le.mp inside)]
    rw [unchanged]
    exact counted

/-- A loop of marks keeps the counter, marks its pages and keeps every other page. -/
theorem markUsed_loop (pages : List Nat) (pmm : Pmm) :
    SameLayout (pages.foldl markUsed pmm) pmm ∧
      (Counted pmm → Counted (pages.foldl markUsed pmm)) ∧
      ∀ other, pageUsed (pages.foldl markUsed pmm) other =
        (decide (other ∈ pages) || pageUsed pmm other) := by
  induction pages generalizing pmm with
  | nil => exact ⟨SameLayout.refl pmm, id, fun other => by simp⟩
  | cons page rest ih =>
      obtain ⟨layout, counted, used⟩ := ih (markUsed pmm page)
      refine ⟨layout.trans (markUsed_layout pmm page), fun start => counted (start.markUsed page), ?_⟩
      intro other
      rw [List.foldl_cons, used other, pageUsed_markUsed]
      by_cases same : other = page <;> simp [same]

/-- A loop of releases keeps the counter, frees its pages and keeps every other page. -/
theorem markFree_loop (pages : List Nat) (pmm : Pmm) :
    SameLayout (pages.foldl markFree pmm) pmm ∧
      (Counted pmm → Counted (pages.foldl markFree pmm)) ∧
      ∀ other, pageUsed (pages.foldl markFree pmm) other =
        (pageUsed pmm other && !decide (other ∈ pages ∧ other < pmm.maxPages)) := by
  induction pages generalizing pmm with
  | nil => exact ⟨SameLayout.refl pmm, id, fun other => by simp⟩
  | cons page rest ih =>
      obtain ⟨layout, counted, used⟩ := ih (markFree pmm page)
      refine ⟨layout.trans (markFree_layout pmm page), fun start => counted (start.markFree page), ?_⟩
      intro other
      rw [List.foldl_cons, used other, pageUsed_markFree, (markFree_layout pmm page).maxPages]
      by_cases same : other = page <;> by_cases low : other < pmm.maxPages <;>
        simp_all

/-- `reserve_region` marks a list of pages. -/
theorem reserveRegion_eq (base length : Nat) (pmm : Pmm) :
    reserveRegion base length pmm =
      ((List.range (add64 length (pageSize - 1) / pageSize)).map
        fun i => add64 (base / pageSize) i).foldl markUsed pmm := by
  rw [reserveRegion, List.foldl_map]

end ArchaOS.PhysicalMemory
