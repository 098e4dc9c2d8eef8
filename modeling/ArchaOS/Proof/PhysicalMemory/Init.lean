import ArchaOS.Proof.PhysicalMemory.Palloc

namespace ArchaOS.PhysicalMemory

open Library

/-- The pages that the third loop of `init_pmm` frees for one descriptor. -/
def releasePages (desc : EfiMemoryDescriptor) : List Nat :=
  if desc.type = efiConventionalMemory then
    (List.range desc.numberOfPages).map (add64 (desc.physicalStart / pageSize))
  else []

/-- A range is released page by page. -/
theorem releaseRange_eq (pmm : Pmm) (desc : EfiMemoryDescriptor) :
    releaseRange pmm desc = (releasePages desc).foldl markFree pmm := by
  unfold releaseRange releasePages
  split
  · rw [List.foldl_map]
  · rfl

/-- The ranges are released page by page. -/
theorem releaseLoop_eq (descriptors : List EfiMemoryDescriptor) (pmm : Pmm) :
    descriptors.foldl releaseRange pmm = (descriptors.flatMap releasePages).foldl markFree pmm := by
  induction descriptors generalizing pmm with
  | nil => rfl
  | cons desc rest ih =>
      rw [List.foldl_cons, List.flatMap_cons, List.foldl_append, ih, releaseRange_eq]

/-- The address that one descriptor offers as the end of memory. -/
def topAddress (highest : Nat) (desc : EfiMemoryDescriptor) : Nat :=
  if desc.type = efiConventionalMemory then
    max highest (add64 desc.physicalStart (mul64 desc.numberOfPages pageSize))
  else highest

/-- The first loop leaves the counter and finds the highest end address. -/
theorem measure_loop (descriptors : List EfiMemoryDescriptor) (pmm : Pmm) :
    (descriptors.foldl measure pmm).freePages = pmm.freePages ∧
      (descriptors.foldl measure pmm).maxPhysicalAddress =
        descriptors.foldl topAddress pmm.maxPhysicalAddress := by
  induction descriptors generalizing pmm with
  | nil => exact ⟨rfl, rfl⟩
  | cons desc rest ih =>
      obtain ⟨counter, highest⟩ := ih (measure pmm desc)
      have one : (measure pmm desc).freePages = pmm.freePages ∧
          (measure pmm desc).maxPhysicalAddress = topAddress pmm.maxPhysicalAddress desc := by
        unfold measure topAddress
        split
        · refine ⟨rfl, ?_⟩
          dsimp only
          split <;> omega
        · exact ⟨rfl, rfl⟩
      rw [one.1] at counter
      rw [one.2] at highest
      exact ⟨counter, highest⟩

/-- The end of memory is a word. -/
theorem topAddress_lt (descriptors : List EfiMemoryDescriptor) (highest : Nat)
    (fits : highest < 2 ^ 64) : descriptors.foldl topAddress highest < 2 ^ 64 := by
  induction descriptors generalizing highest with
  | nil => exact fits
  | cons desc rest ih =>
      apply ih
      unfold topAddress
      split
      · exact max_lt fits (add64_lt _ _)
      · exact fits

/-- A bitmap address other than zero is the start of a large enough conventional range. -/
theorem chooseBitmap_loop (descriptors : List EfiMemoryDescriptor) (size address : Nat)
    (chosen : descriptors.foldl (chooseBitmap size) address ≠ 0) :
    descriptors.foldl (chooseBitmap size) address = address ∨
      ∃ desc ∈ descriptors, desc.type = efiConventionalMemory ∧
        size ≤ mul64 desc.numberOfPages pageSize ∧
        descriptors.foldl (chooseBitmap size) address = desc.physicalStart := by
  induction descriptors generalizing address with
  | nil => exact Or.inl rfl
  | cons desc rest ih =>
      rcases ih (chooseBitmap size address desc) chosen with kept | ⟨found, member, facts⟩
      · rw [List.foldl_cons, kept]
        unfold chooseBitmap
        split
        · exact Or.inl rfl
        · rename_i conventional
          split
          · rename_i taken
            exact Or.inr ⟨desc, by simp, not_not.mp conventional, taken.1, rfl⟩
          · exact Or.inl rfl
      · exact Or.inr ⟨found, List.mem_cons_of_mem _ member, facts⟩

/-- The state that `init_pmm` leaves for a memory map. -/
structure Initialised (map : MemoryMap) (pmm : Pmm) : Prop where
  ready : Ready pmm
  maxPhysicalAddress : pmm.maxPhysicalAddress = map.descriptors.foldl topAddress 0
  bitmapAddr : pmm.bitmapAddr ≠ 0 ∧ ∃ desc ∈ map.descriptors, desc.type = efiConventionalMemory ∧
    pmm.sizeofBitmap ≤ mul64 desc.numberOfPages pageSize ∧ pmm.bitmapAddr = desc.physicalStart
  pageUsed : ∀ page, pageUsed pmm page = (decide (page ∈ bitmapPages pmm) || (decide (page = 0) ||
    !decide (page ∈ map.descriptors.flatMap releasePages ∧ page < pmm.maxPages)))

/-- A freshly filled bitmap has no free page and no wrong padding bit. -/
theorem placeBitmap_counted (map : MemoryMap) (old : PackedBits.Bytes) (pmm : Pmm)
    (fits : pmm.maxPhysicalAddress < 2 ^ 64) (none : pmm.freePages = 0) :
    Counted (placeBitmap map old pmm) ∧ ∀ page, pageUsed (placeBitmap map old pmm) page = true := by
  have size : (placeBitmap map old pmm).sizeofBitmap =
      ((placeBitmap map old pmm).maxPages + 7) / 8 := rfl
  have full (page : Nat) (inside : page < 8 * (placeBitmap map old pmm).sizeofBitmap) :
      PackedBits.isSet (placeBitmap map old pmm).bitmap page = true := by
    have low : page / 8 < (placeBitmap map old pmm).sizeofBitmap := by omega
    have byte : (placeBitmap map old pmm).bitmap (page / 8) = 0xFF#8 := if_pos low
    rw [PackedBits.isSet_eq, byte]
    exact (PackedBits.byte_full_iff _).mp rfl _ (Nat.mod_lt _ (by decide))
  constructor
  · refine ⟨?_, ?_, fun page _ inside => full page inside⟩
    · change pmm.maxPhysicalAddress / pageSize < 2 ^ 52
      unfold pageSize
      omega
    · change pmm.freePages = _
      rw [none, eq_comm, Finset.card_eq_zero, Finset.eq_empty_iff_forall_notMem]
      intro page member
      obtain ⟨inside, unset⟩ := (PackedBits.mem_clearBelow _ _ _).mp member
      rw [full page (by omega)] at unset
      cases unset
  · intro page
    by_cases outside : page ≥ (placeBitmap map old pmm).maxPages
    · simp [pageUsed, outside]
    · simp [pageUsed, full page (by omega)]

/-- Changing the totals or the flag of the manager keeps its bitmap facts. -/
theorem Counted.congr {first second : Pmm} (counted : Counted second)
    (maxPages : first.maxPages = second.maxPages) (freePages : first.freePages = second.freePages)
    (bitmap : first.bitmap = second.bitmap)
    (sizeofBitmap : first.sizeofBitmap = second.sizeofBitmap) : Counted first := by
  refine ⟨?_, ?_, ?_⟩
  · rw [maxPages]
    exact counted.few
  · rw [freePages, bitmap, maxPages]
    exact counted.freePages
  · rw [maxPages, bitmap, sizeofBitmap]
    exact counted.padding

/-- `init_pmm` either stops for lack of room or leaves an initialised manager. -/
theorem initPmm_initialised {map : MemoryMap} {old : PackedBits.Bytes} {start pmm : Pmm}
    (result : initPmm map old start = .ok pmm) : Initialised map pmm := by
  unfold initPmm at result
  dsimp only at result
  split at result
  · cases result
  · rename_i chosen
    obtain ⟨counter, highest⟩ := measure_loop map.descriptors
      { start with freePages := 0, totalPages := 0, totalRamPages := 0, maxPhysicalAddress := 0 }
    generalize map.descriptors.foldl measure _ = measured at result chosen counter highest
    have bound := topAddress_lt map.descriptors 0 (by decide)
    rw [← highest] at bound
    obtain ⟨counted, allUsed⟩ := placeBitmap_counted map old measured bound counter
    rw [releaseLoop_eq] at result
    obtain ⟨layout, stillCounted, used⟩ :=
      markFree_loop (map.descriptors.flatMap releasePages) (placeBitmap map old measured)
    generalize (map.descriptors.flatMap releasePages).foldl markFree _ = released at *
    have released' := stillCounted counted
    generalize summed : ({ released with
      totalUsableMemory := mul64 released.totalPages pageSize
      totalMemory := mul64 released.totalRamPages pageSize } : Pmm) = totals at result
    have totalsCounted : Counted totals := by
      rw [← summed]
      exact released'.congr rfl rfl rfl rfl
    have zeroLayout := markUsed_layout totals 0
    obtain ⟨lastLayout, lastCounted, lastUsed⟩ :=
      markUsed_loop (bitmapPages (markUsed totals 0)) (markUsed totals 0)
    generalize (bitmapPages (markUsed totals 0)).foldl markUsed _ = reserved at *
    have layoutAll := lastLayout.trans zeroLayout
    have samePages : bitmapPages reserved = bitmapPages (markUsed totals 0) := by
      unfold bitmapPages
      rw [lastLayout.sizeofBitmap, lastLayout.bitmapAddr]
    obtain rfl : { reserved with bitmapInit := true } = pmm := Except.ok.inj result
    have maxPages : reserved.maxPages = (placeBitmap map old measured).maxPages := by
      rw [layoutAll.maxPages, ← summed]
      exact layout.maxPages
    have sizeofBitmap : reserved.sizeofBitmap = (placeBitmap map old measured).sizeofBitmap := by
      rw [layoutAll.sizeofBitmap, ← summed]
      exact layout.sizeofBitmap
    have highestKept : reserved.maxPhysicalAddress = measured.maxPhysicalAddress := by
      rw [layoutAll.maxPhysicalAddress, ← summed]
      exact layout.maxPhysicalAddress
    have address : reserved.bitmapAddr = (placeBitmap map old measured).bitmapAddr := by
      rw [layoutAll.bitmapAddr, ← summed]
      exact layout.bitmapAddr
    refine ⟨⟨rfl, ?_, ?_, ?_⟩, ?_, ?_, ?_⟩
    · change reserved.maxPages = reserved.maxPhysicalAddress / pageSize
      rw [maxPages, highestKept]
      rfl
    · change reserved.sizeofBitmap = (reserved.maxPages + 7) / 8
      rw [sizeofBitmap, maxPages]
      rfl
    · exact (lastCounted (totalsCounted.markUsed 0)).congr rfl rfl rfl rfl
    · change reserved.maxPhysicalAddress = _
      rw [highestKept, highest]
    · change reserved.bitmapAddr ≠ 0 ∧ ∃ desc ∈ map.descriptors, _ ∧
        reserved.sizeofBitmap ≤ _ ∧ reserved.bitmapAddr = _
      rw [address, sizeofBitmap]
      refine ⟨chosen, ?_⟩
      rcases chooseBitmap_loop map.descriptors _ 0 chosen with zero | found
      · exact absurd zero chosen
      · exact found
    · intro page
      change pageUsed reserved page = (decide (page ∈ bitmapPages reserved) || (decide (page = 0) ||
        !decide (page ∈ map.descriptors.flatMap releasePages ∧ page < reserved.maxPages)))
      have same : pageUsed totals page = pageUsed released page := by
        rw [← summed]
        rfl
      rw [lastUsed page, pageUsed_markUsed, same, used page, allUsed page, samePages, maxPages,
        Bool.true_and]

end ArchaOS.PhysicalMemory
