import ArchaOS.Proof.PhysicalMemory.Bookkeeping

namespace ArchaOS.PhysicalMemory

open Library

/-- A map whose records have a size and whose ranges end inside the address space. -/
structure FirmwareMap extends UefiMap where
  stride : 0 < descriptorSize
  fits : ∀ index, (descriptor index).physicalStart + (descriptor index).numberOfPages * pageSize < 2 ^ 64

/-- The page lies in the range of a conventional descriptor. -/
def EfiMemoryDescriptor.Covers (desc : EfiMemoryDescriptor) (page : Nat) : Prop :=
  desc.type = efiConventionalMemory ∧ desc.physicalStart ≤ page * pageSize ∧
    page * pageSize < desc.physicalStart + desc.numberOfPages * pageSize

/-- The number of bytes of the bitmap that a map asks for. -/
def bitmapSize (map : MemoryMap) : Nat := (map.descriptors.foldl topAddress 0 / pageSize + 7) / 8

/-- The range can hold the bitmap and does not start at zero. -/
def EfiMemoryDescriptor.Houses (map : MemoryMap) (desc : EfiMemoryDescriptor) : Prop :=
  desc.type = efiConventionalMemory ∧ desc.physicalStart ≠ 0 ∧
    bitmapSize map ≤ desc.numberOfPages * pageSize

/-- The free pages are the conventional ones other than page zero and the bitmap. -/
structure InitialPages (map : MemoryMap) (pmm : Pmm) : Prop where
  sizeofBitmap : pmm.sizeofBitmap = bitmapSize map
  free : ∀ page, page < pmm.maxPages → (pageUsed pmm page = false ↔
    page ≠ 0 ∧ (∃ desc ∈ map.descriptors, desc.Covers page) ∧ ¬ HoldsBitmap pmm page)
  bitmap : ∃ desc ∈ map.descriptors, ∀ page, HoldsBitmap pmm page → desc.Covers page
  conventional : ∀ desc ∈ map.descriptors, ∀ page, desc.Covers page → page < pmm.maxPages
  freePages : pmm.freePages =
    ((Finset.range pmm.maxPages).filter fun page => pageUsed pmm page = false).card

section Descriptors

variable {map : FirmwareMap} {desc : EfiMemoryDescriptor} (member : desc ∈ map.toMemoryMap.descriptors)
include member

/-- A listed range starts at a page. -/
theorem FirmwareMap.aligned_of_mem : desc.physicalStart % pageSize = 0 := by
  obtain ⟨index, _, rfl⟩ := List.mem_map.mp member
  exact map.aligned index

/-- A listed range does not wrap around. -/
theorem FirmwareMap.fits_of_mem : desc.physicalStart + desc.numberOfPages * pageSize < 2 ^ 64 := by
  obtain ⟨index, _, rfl⟩ := List.mem_map.mp member
  exact map.fits index

/-- The length of a range does not wrap around. -/
theorem FirmwareMap.length_eq : mul64 desc.numberOfPages pageSize = desc.numberOfPages * pageSize := by
  have fits := map.fits_of_mem member
  exact mul64_eq (by omega)

/-- The third loop of `init_pmm` frees exactly the pages of a conventional range. -/
theorem FirmwareMap.mem_releasePages (page : Nat) : page ∈ releasePages desc ↔ desc.Covers page := by
  have aligned := map.aligned_of_mem member
  have fits := map.fits_of_mem member
  unfold releasePages EfiMemoryDescriptor.Covers
  unfold pageSize at *
  split
  · rename_i conventional
    simp only [conventional, true_and, List.mem_map, List.mem_range]
    constructor
    · rintro ⟨offset, low, rfl⟩
      rw [add64_eq (by omega)]
      constructor <;> omega
    · rintro ⟨lower, upper⟩
      refine ⟨page - desc.physicalStart / 0x1000, by omega, ?_⟩
      rw [add64_eq (by omega)]
      omega
  · rename_i other
    simp [other]

end Descriptors

/-- The first loop of `init_pmm` finds an address above every conventional range. -/
theorem topAddress_loop (descriptors : List EfiMemoryDescriptor) (highest : Nat) :
    highest ≤ descriptors.foldl topAddress highest ∧
      ∀ desc ∈ descriptors, desc.type = efiConventionalMemory →
        add64 desc.physicalStart (mul64 desc.numberOfPages pageSize) ≤
          descriptors.foldl topAddress highest := by
  induction descriptors generalizing highest with
  | nil => simp
  | cons desc rest ih =>
      obtain ⟨above, later⟩ := ih (topAddress highest desc)
      have first : highest ≤ topAddress highest desc := by
        unfold topAddress
        split
        · exact le_max_left _ _
        · exact le_rfl
      rw [List.foldl_cons]
      refine ⟨first.trans above, ?_⟩
      intro other member conventional
      rcases List.mem_cons.mp member with rfl | old
      · refine le_trans ?_ above
        rw [topAddress, if_pos conventional]
        exact le_max_right _ _
      · exact later other old conventional

/-- The second loop of `init_pmm` finds a home for the bitmap exactly when there is one. -/
theorem chooseBitmap_eq_zero (descriptors : List EfiMemoryDescriptor) (size : Nat) :
    descriptors.foldl (chooseBitmap size) 0 = 0 ↔
      ∀ desc ∈ descriptors, ¬ (desc.type = efiConventionalMemory ∧ desc.physicalStart ≠ 0 ∧
        size ≤ mul64 desc.numberOfPages pageSize) := by
  have settled : ∀ (rest : List EfiMemoryDescriptor) (address : Nat), address ≠ 0 →
      rest.foldl (chooseBitmap size) address = address := by
    intro rest address nonzero
    induction rest with
    | nil => rfl
    | cons desc rest ih =>
        have same : chooseBitmap size address desc = address := by
          simp [chooseBitmap, nonzero]
        rw [List.foldl_cons, same, ih]
  induction descriptors with
  | nil => simp
  | cons desc rest ih =>
      rw [List.foldl_cons, List.forall_mem_cons]
      by_cases taken : desc.type = efiConventionalMemory ∧ desc.physicalStart ≠ 0 ∧
          size ≤ mul64 desc.numberOfPages pageSize
      · have chosen : chooseBitmap size 0 desc = desc.physicalStart := by
          simp [chooseBitmap, taken.1, taken.2.2]
        rw [chosen, settled rest _ taken.2.1]
        simp [taken]
      · have kept : chooseBitmap size 0 desc = 0 := by
          unfold chooseBitmap
          split
          · rfl
          · rename_i conventional
            split
            · rename_i large
              by_contra nonzero
              exact taken ⟨not_not.mp conventional, nonzero, large.1⟩
            · rfl
        rw [kept]
        exact ih.trans (and_iff_right taken).symm

/-- `init_pmm` stops exactly when its second loop finds no home for the bitmap. -/
theorem initPmm_error_iff (map : MemoryMap) (old : PackedBits.Bytes) (start : Pmm) :
    initPmm map old start = .error "No room for PMM bitmap" ↔
      map.descriptors.foldl (chooseBitmap (bitmapSize map)) 0 = 0 := by
  have highest := (measure_loop map.descriptors
    { start with freePages := 0, totalPages := 0, totalRamPages := 0, maxPhysicalAddress := 0 }).2
  have address : (placeBitmap map old (map.descriptors.foldl measure { start with
      freePages := 0, totalPages := 0, totalRamPages := 0, maxPhysicalAddress := 0 })).bitmapAddr =
      map.descriptors.foldl (chooseBitmap (bitmapSize map)) 0 := by
    unfold placeBitmap bitmapSize
    rw [highest]
  rw [← address]
  unfold initPmm
  dsimp only
  split
  · rename_i missing
    simp [missing]
  · rename_i chosen
    simp [chosen]

/-- The pages that `init_pmm` reserves for an aligned bitmap are the pages that it lies on. -/
theorem mem_bitmapPages {pmm : Pmm} (aligned : pmm.bitmapAddr % pageSize = 0) (page : Nat) :
    page ∈ bitmapPages pmm ↔ HoldsBitmap pmm page := by
  refine ⟨?_, holdsBitmap_mem aligned⟩
  intro member
  obtain ⟨index, low, rfl⟩ := List.mem_map.mp member
  rw [List.mem_range] at low
  unfold HoldsBitmap
  unfold pageSize at *
  exact ⟨pmm.bitmapAddr + index * 0x1000, by omega, by omega, by omega⟩

/-- `init_pmm` leaves the right pages free. -/
theorem Initialised.initialPages {map : FirmwareMap} {pmm : Pmm}
    (initialised : Initialised map.toMemoryMap pmm) : InitialPages map.toMemoryMap pmm := by
  obtain ⟨_, home, inMap, conventional, large, address⟩ := initialised.bitmapAddr
  have aligned : pmm.bitmapAddr % pageSize = 0 := by
    rw [address]
    exact map.aligned_of_mem inMap
  have below : ∀ desc ∈ map.toMemoryMap.descriptors, ∀ page, desc.Covers page →
      page < pmm.maxPages := by
    rintro desc member page ⟨isConventional, lower, upper⟩
    have top := (topAddress_loop map.toMemoryMap.descriptors 0).2 desc member isConventional
    have fits := map.fits_of_mem member
    have start := map.aligned_of_mem member
    rw [map.length_eq member, add64_eq fits, ← initialised.maxPhysicalAddress] at top
    rw [initialised.ready.maxPages]
    unfold pageSize at *
    omega
  refine ⟨?_, ?_, ⟨home, inMap, ?_⟩, below, ?_⟩
  · rw [initialised.ready.sizeofBitmap, initialised.ready.maxPages, initialised.maxPhysicalAddress]
    rfl
  · intro page inside
    have released : page ∈ map.toMemoryMap.descriptors.flatMap releasePages ↔
        ∃ desc ∈ map.toMemoryMap.descriptors, desc.Covers page := by
      rw [List.mem_flatMap]
      refine exists_congr fun desc => and_congr_right fun member => ?_
      exact map.mem_releasePages member page
    rw [initialised.pageUsed page]
    simp only [Bool.or_eq_false_iff, decide_eq_false_iff_not, Bool.not_eq_false', decide_eq_true_eq,
      mem_bitmapPages aligned, released, inside, and_true]
    tauto
  · rintro page ⟨byte, lower, upper, rfl⟩
    rw [map.length_eq inMap] at large
    refine ⟨conventional, ?_, ?_⟩
    · rw [← address]
      unfold pageSize at *
      omega
    · rw [← address]
      unfold pageSize at *
      omega
  · exact initialised.ready.counted.freePages_eq

/-- `init_pmm` stops exactly when no range can house the bitmap, and otherwise leaves exactly the
right pages free. -/
theorem initPmm_exact (map : FirmwareMap) (old : PackedBits.Bytes) (start : Pmm) :
    (initPmm map.toMemoryMap old start = .error "No room for PMM bitmap" ↔
      ¬ ∃ desc ∈ map.toMemoryMap.descriptors, desc.Houses map.toMemoryMap) ∧
    ∀ pmm, initPmm map.toMemoryMap old start = .ok pmm → InitialPages map.toMemoryMap pmm := by
  constructor
  · rw [initPmm_error_iff, chooseBitmap_eq_zero]
    constructor
    · rintro none ⟨desc, member, conventional, nonzero, large⟩
      rw [← map.length_eq member] at large
      exact none desc member ⟨conventional, nonzero, large⟩
    · rintro none desc member ⟨conventional, nonzero, large⟩
      rw [map.length_eq member] at large
      exact none ⟨desc, member, conventional, nonzero, large⟩
  · intro pmm result
    exact (initPmm_initialised result).initialPages

/-- `init_pmm` returns when some range can house the bitmap. -/
theorem initPmm_returns {map : FirmwareMap} (old : PackedBits.Bytes) (start : Pmm)
    (housed : ∃ desc ∈ map.toMemoryMap.descriptors, desc.Houses map.toMemoryMap) :
    ∃ pmm, initPmm map.toMemoryMap old start = .ok pmm := by
  have stays := (initPmm_exact map old start).1.not.mpr (not_not.mpr housed)
  cases result : initPmm map.toMemoryMap old start with
  | ok pmm => exact ⟨pmm, rfl⟩
  | error message =>
      unfold initPmm at result stays
      dsimp only at result stays
      split at result
      · rename_i missing
        exact absurd (if_pos missing) stays
      · cases result

/-- The four-page range as the firmware reports it. -/
def fourPagesMap : FirmwareMap where
  toUefiMap := fourPages
  stride := by decide
  fits := by
    intro index
    change 0x1000 + 4 * pageSize < 2 ^ 64
    decide

/-- A machine with four pages is set up. -/
theorem initPmm_exact_fourPages :
    initPmm fourPagesMap.toMemoryMap (fun _ => 0#8) blankPmm = .ok fourPagesPmm ∧
      InitialPages fourPagesMap.toMemoryMap fourPagesPmm :=
  ⟨rfl, (initPmm_exact fourPagesMap (fun _ => 0#8) blankPmm).2 fourPagesPmm rfl⟩

end ArchaOS.PhysicalMemory
