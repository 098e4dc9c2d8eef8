import ArchaOS.Library.Search
import ArchaOS.Proof.PhysicalMemory.Bitmap

namespace ArchaOS.PhysicalMemory

open Library

/-- `palloc` tests whether a bit is set. -/
theorem pallocBit_test (pmm : Pmm) (byte bit : Nat) (inside : bit < 8) :
    (decide (pmm.bitmap byte &&& (1#8 <<< bit) = 0#8)) =
      !PackedBits.isSet pmm.bitmap (byte * 8 + bit) := by
  have quotient : (byte * 8 + bit) / 8 = byte := by omega
  have remainder : (byte * 8 + bit) % 8 = bit := by omega
  rw [PackedBits.isSet, PackedBits.mask, quotient, remainder]
  rw [bne, Bool.not_not, beq_eq_decide]

/-- One byte yields its lowest clear page. -/
theorem pallocBit_some {pmm : Pmm} {byte page : Nat} (result : pallocBit pmm byte = some page) :
    page / 8 = byte ∧ PackedBits.isSet pmm.bitmap page = false ∧
      ∀ earlier, earlier / 8 = byte → earlier < page → PackedBits.isSet pmm.bitmap earlier = true := by
  unfold pallocBit at result
  split at result
  · cases result
  · obtain ⟨bit, search, rfl⟩ := Option.map_eq_some_iff.mp result
    obtain ⟨answer, member, silent⟩ := List.find?_range_eq_some.mp search
    have inside : bit < 8 := by simpa using member
    have unset := pallocBit_test pmm byte bit inside
    refine ⟨by omega, ?_, ?_⟩
    · rw [answer] at unset
      simpa using unset.symm
    · intro earlier sameByte low
      have quiet := silent (earlier % 8) (by omega)
      rw [pallocBit_test pmm byte (earlier % 8) (Nat.mod_lt _ (by decide))] at quiet
      have address : byte * 8 + earlier % 8 = earlier := by omega
      rw [address] at quiet
      simpa using quiet

/-- A byte without a clear page yields nothing. -/
theorem pallocBit_none {pmm : Pmm} {byte : Nat} (result : pallocBit pmm byte = none) :
    ∀ page, page / 8 = byte → PackedBits.isSet pmm.bitmap page = true := by
  intro page sameByte
  have low : page % 8 < 8 := Nat.mod_lt _ (by decide)
  unfold pallocBit at result
  split at result
  · rename_i full
    rw [PackedBits.isSet_eq, sameByte]
    exact (PackedBits.byte_full_iff _).mp full _ low
  · rw [Option.map_eq_none_iff, List.find?_eq_none] at result
    have quiet := result (page % 8) (by simpa using low)
    have address : byte * 8 + page % 8 = page := by omega
    rw [pallocBit_test pmm byte (page % 8) low, address] at quiet
    simpa using quiet

/-- The manager is initialised, its sizes agree and its counter is exact. -/
structure Ready (pmm : Pmm) : Prop where
  bitmapInit : pmm.bitmapInit = true
  maxPages : pmm.maxPages = pmm.maxPhysicalAddress / pageSize
  sizeofBitmap : pmm.sizeofBitmap = (pmm.maxPages + 7) / 8
  counted : Counted pmm

/-- A manager of the same layout with a right count is ready. -/
theorem Ready.of_layout {first second : Pmm} (ready : Ready second)
    (layout : SameLayout first second) (counted : Counted first) : Ready first where
  bitmapInit := layout.bitmapInit.trans ready.bitmapInit
  maxPages := by rw [layout.maxPages, layout.maxPhysicalAddress]; exact ready.maxPages
  sizeofBitmap := by rw [layout.sizeofBitmap, layout.maxPages]; exact ready.sizeofBitmap
  counted := counted

/-- Only pages of the manager are free. -/
theorem free_lt {pmm : Pmm} {page : Nat} (free : pageUsed pmm page = false) : page < pmm.maxPages := by
  by_contra outside
  rw [pageUsed, if_pos (not_lt.mp outside)] at free
  cases free

/-- `palloc` takes the lowest free page, or changes nothing when no page is free. -/
theorem palloc_cases {pmm : Pmm} (ready : Ready pmm) :
    (∃ page, page < pmm.maxPages ∧ pageUsed pmm page = false ∧
      (∀ earlier, earlier < page → pageUsed pmm earlier = true) ∧
      palloc pmm = (page * pageSize, markUsed pmm page)) ∨
    ((∀ page, pageUsed pmm page = true) ∧ palloc pmm = (0, pmm)) := by
  have size := ready.sizeofBitmap
  simp only [palloc, ready.bitmapInit, Bool.not_true, Bool.false_eq_true, if_false]
  cases search : (List.range pmm.sizeofBitmap).findSome? (pallocBit pmm) with
  | none =>
      refine Or.inr ⟨fun page => ?_, rfl⟩
      by_cases outside : page ≥ pmm.maxPages
      · simp [pageUsed, outside]
      · have silent := findSome_range_none search (page / 8) (by omega)
        have present := pallocBit_none silent page rfl
        simp [pageUsed, present]
  | some page =>
      obtain ⟨byte, low, answer, silent⟩ := findSome_range_some search
      obtain ⟨sameByte, unset, first⟩ := pallocBit_some answer
      have inside : page < pmm.maxPages := by
        by_contra outside
        have padded := ready.counted.padding page (by omega) (by omega)
        simp [unset] at padded
      refine Or.inl ⟨page, inside, ?_, ?_, ?_⟩
      · simp [pageUsed, not_le.mpr inside, unset]
      · intro earlier before
        have present : PackedBits.isSet pmm.bitmap earlier = true := by
          by_cases same : earlier / 8 = byte
          · exact first earlier same before
          · exact pallocBit_none (silent (earlier / 8) (by omega)) earlier rfl
        simp [pageUsed, present]
      · simp [not_le.mpr inside]

/-- Taking a page keeps the manager ready. -/
theorem Ready.markUsed {pmm : Pmm} (ready : Ready pmm) (page : Nat) : Ready (markUsed pmm page) :=
  ready.of_layout (markUsed_layout pmm page) (ready.counted.markUsed page)

/-- Freeing a page keeps the manager ready. -/
theorem Ready.markFree {pmm : Pmm} (ready : Ready pmm) (page : Nat) : Ready (markFree pmm page) :=
  ready.of_layout (markFree_layout pmm page) (ready.counted.markFree page)

/-- `palloc` keeps the manager ready. -/
theorem Ready.palloc {pmm : Pmm} (ready : Ready pmm) : Ready (palloc pmm).2 := by
  rcases palloc_cases ready with ⟨page, _, _, _, result⟩ | ⟨_, result⟩
  · rw [result]
    exact ready.markUsed page
  · rw [result]
    exact ready

/-- The counter is the number of free pages. -/
theorem Counted.freePages_eq {pmm : Pmm} (counted : Counted pmm) : pmm.freePages =
    ((Finset.range pmm.maxPages).filter fun page => pageUsed pmm page = false).card := by
  rw [counted.freePages]
  congr 1
  ext page
  rw [PackedBits.mem_clearBelow, Finset.mem_filter, Finset.mem_range]
  refine and_congr_right fun inside => ?_
  rw [pageUsed, if_neg (not_le.mpr inside)]

/-- With a free page the counter is positive. -/
theorem Counted.freePages_pos {pmm : Pmm} (counted : Counted pmm) {page : Nat}
    (inside : page < pmm.maxPages) (free : pageUsed pmm page = false) : 0 < pmm.freePages := by
  rw [counted.freePages_eq]
  exact Finset.card_pos.mpr ⟨page, Finset.mem_filter.mpr ⟨Finset.mem_range.mpr inside, free⟩⟩

section FreePages

variable {before after : Pmm} (ready : Ready before) (ready' : Ready after)
  (layout : SameLayout after before)
  (used : ∀ page, pageUsed before page = true → pageUsed after page = true)
include ready ready' layout used

omit ready ready' in
/-- When pages stay in use, no page becomes free. -/
theorem freePages_subset :
    ((Finset.range after.maxPages).filter fun page => pageUsed after page = false) ⊆
      (Finset.range before.maxPages).filter fun page => pageUsed before page = false := by
  intro page member
  rw [Finset.mem_filter, layout.maxPages] at member
  refine Finset.mem_filter.mpr ⟨member.1, ?_⟩
  cases held : pageUsed before page with
  | false => rfl
  | true =>
      rw [used page held] at member
      cases member.2

/-- The counter falls when a page is taken and none is freed. -/
theorem freePages_lt {page : Nat} (free : pageUsed before page = false)
    (taken : pageUsed after page = true) : after.freePages < before.freePages := by
  rw [ready.counted.freePages_eq, ready'.counted.freePages_eq]
  refine Finset.card_lt_card (Finset.ssubset_iff_subset_ne.mpr
    ⟨freePages_subset layout used, ?_⟩)
  intro same
  have member : page ∈ (Finset.range before.maxPages).filter fun page =>
      pageUsed before page = false := Finset.mem_filter.mpr ⟨Finset.mem_range.mpr (free_lt free), free⟩
  rw [← same, Finset.mem_filter, taken] at member
  cases member.2

end FreePages

end ArchaOS.PhysicalMemory
