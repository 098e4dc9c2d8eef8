import ArchaOS.Proof.VirtualMemory.Tables

namespace ArchaOS.VirtualMemory

open Library PhysicalMemory RadixTree

/-- A frame and the address that it is mapped at. -/
structure Mapping where
  phys : Nat
  virt : Nat

/-- A sequence of calls of `map_page` with the same tables. -/
def mapPages (pml4 : Nat) (vmm : Vmm) (mappings : List Mapping) : Except Stop Vmm :=
  mappings.foldlM (fun vmm mapping => mapPage mapping.phys mapping.virt pml4 vmm) vmm

/-- The number of bytes that `map_range` maps. -/
def mappedSize (phys size : Nat) : Nat := add64 size (sub64 phys (phys &&& pageMask))

/-- The calls of `map_page` that `map_range` makes. -/
def rangePages (phys virt size : Nat) : List Mapping :=
  (List.range ((mappedSize phys size + (pageSize - 1)) / pageSize)).map fun i =>
    ⟨add64 (phys &&& pageMask) (i * pageSize), add64 (virt &&& pageMask) (i * pageSize)⟩

/-- Two series of mappings are one. -/
theorem mapPages_append (pml4 : Nat) (vmm : Vmm) (first second : List Mapping) :
    mapPages pml4 vmm (first ++ second) =
      mapPages pml4 vmm first >>= fun vmm => mapPages pml4 vmm second :=
  List.foldlM_append

/-- The loop of `map_range` makes its calls and never ends when its counter wraps around. -/
theorem mapRangeFrom_eq {physPage virtPage size pml4 : Nat} (small : size < 2 ^ 64) {count : Nat} :
    ∀ {off : Nat} {vmm : Vmm}, off % pageSize = 0 → off + pageSize ≤ 2 ^ 64 →
      count = (size - off + (pageSize - 1)) / pageSize →
      mapRangeFrom physPage virtPage size pml4 off vmm =
        mapPages pml4 vmm ((List.range count).map fun i =>
            ⟨add64 physPage (off + i * pageSize), add64 virtPage (off + i * pageSize)⟩) >>=
          fun after => if size + pageSize ≤ 2 ^ 64 then .ok after else .error .endless := by
  induction count with
  | zero =>
      intro off vmm aligned low total
      unfold pageSize at *
      have done : ¬ off < size := by omega
      rw [mapRangeFrom, if_neg done]
      simp only [List.range_zero, List.map_nil, mapPages, List.foldlM_nil, pure_bind]
      rw [if_pos (by omega)]
  | succ count ih =>
      intro off vmm aligned low total
      have more : off < size := by
        unfold pageSize at *
        omega
      have next (i : Nat) : off + (i + 1) * pageSize = off + pageSize + i * pageSize := by ring
      rw [mapRangeFrom, if_pos more, List.range_succ_eq_map, List.map_cons, List.map_map]
      simp only [mapPages, List.foldlM_cons, Nat.zero_mul, Nat.add_zero]
      cases mapPage (add64 physPage off) (add64 virtPage off) pml4 vmm with
      | error stop => rfl
      | ok middle =>
          dsimp only
          by_cases further : off + pageSize < 2 ^ 64
          · rw [if_pos further, ih (by unfold pageSize at *; omega) (by unfold pageSize at *; omega)
              (by unfold pageSize at *; omega)]
            simp only [Function.comp_def, Nat.succ_eq_add_one, next]
            rfl
          · have last : count = 0 := by
              unfold pageSize at *
              omega
            have wraps : ¬ size + pageSize ≤ 2 ^ 64 := by
              unfold pageSize at *
              omega
            rw [if_neg further, last]
            simp only [if_neg wraps]
            rfl

/-- The mapped size is a word. -/
theorem mappedSize_lt (phys size : Nat) : mappedSize phys size < 2 ^ 64 := add64_lt _ _

/-- `map_range` makes its calls and returns when its counter does not wrap around. -/
theorem mapRange_eq (phys virt size pml4 : Nat) (vmm : Vmm) :
    mapRange phys virt size pml4 vmm = mapPages pml4 vmm (rangePages phys virt size) >>= fun after =>
      if mappedSize phys size + pageSize ≤ 2 ^ 64 then .ok after else .error .endless := by
  have loop : mapRange phys virt size pml4 vmm = _ :=
    mapRangeFrom_eq (mappedSize_lt phys size) (Nat.zero_mod _) (by decide) rfl
  simp only [Nat.zero_add, Nat.sub_zero] at loop
  exact loop

/-- `map_range` returns exactly when its calls do and its counter does not wrap around. -/
theorem mapRange_ok {phys virt size pml4 : Nat} {vmm after : Vmm} :
    mapRange phys virt size pml4 vmm = .ok after ↔
      mapPages pml4 vmm (rangePages phys virt size) = .ok after ∧
        mappedSize phys size + pageSize ≤ 2 ^ 64 := by
  rw [mapRange_eq, bind_eq_ok]
  constructor
  · rintro ⟨middle, mapped, same⟩
    split at same
    · rename_i fits
      obtain rfl := Except.ok.inj same
      exact ⟨mapped, fits⟩
    · cases same
  · rintro ⟨mapped, fits⟩
    exact ⟨after, mapped, if_pos fits⟩

/-- `map_range` steps through the pages of its ranges when neither range wraps around. -/
theorem mem_rangePages {phys virt size : Nat} (aligned : phys % pageSize = virt % pageSize)
    (physLow : phys + size ≤ 2 ^ 47) (virtLow : virt + size ≤ 2 ^ 47) (mapping : Mapping) :
    mapping ∈ rangePages phys virt size ↔ ∃ i, i * pageSize < size + virt % pageSize ∧
      mapping = ⟨(phys / pageSize + i) * pageSize, (virt / pageSize + i) * pageSize⟩ := by
  have physPage : phys &&& pageMask = phys / pageSize * pageSize := pageMask_low (by omega)
  have virtPage : virt &&& pageMask = virt / pageSize * pageSize := pageMask_low (by omega)
  have total : mappedSize phys size = size + virt % pageSize := by
    unfold mappedSize
    rw [physPage]
    unfold pageSize at *
    rw [sub64_eq (by omega) (by omega), add64_eq (by omega)]
    omega
  unfold rangePages
  rw [total, physPage, virtPage, List.mem_map]
  refine exists_congr fun i => ?_
  rw [List.mem_range]
  have bound : i < (size + virt % pageSize + (pageSize - 1)) / pageSize ↔
      i * pageSize < size + virt % pageSize := by
    unfold pageSize
    omega
  rw [bound]
  refine and_congr_right fun low => ?_
  have inside : i * pageSize < 2 ^ 48 := by
    unfold pageSize at *
    omega
  have physFits := Nat.div_mul_le_self phys pageSize
  have virtFits := Nat.div_mul_le_self virt pageSize
  rw [add64_eq (by omega), add64_eq (by omega), ← Nat.add_mul, ← Nat.add_mul]
  exact eq_comm

/-- `map_page` changes the frame of one page. -/
theorem mapPage_lookup {phys virt pml4 : Nat} {vmm after : Vmm} (valid : Tables pml4 vmm)
    (result : mapPage phys virt pml4 vmm = .ok after) (address : Nat) :
    lookup after pml4 address =
      if pageKey address = pageKey virt then some (phys &&& pteAddrMask)
      else lookup vmm pml4 address := by
  rw [lookup_eq, (mapPage_spec valid result).2.2]
  split
  · rw [Option.bind_some, present_tableEntry]
  · rw [← lookup_eq]

/-- A sequence of `map_page` keeps the tree. -/
theorem mapPages_spec {pml4 : Nat} {vmm after : Vmm} {mappings : List Mapping}
    (valid : Tables pml4 vmm) (result : mapPages pml4 vmm mappings = .ok after) :
    Tables pml4 after ∧ Grown pml4 vmm after := by
  have turn (state : Vmm) (mapping : Mapping) (next : Vmm) (_ : mapping ∈ mappings)
      (kept : Tables pml4 state ∧ Grown pml4 vmm state)
      (turned : mapPage mapping.phys mapping.virt pml4 state = .ok next) :
      Tables pml4 next ∧ Grown pml4 vmm next := by
    obtain ⟨valid', grown', _⟩ := mapPage_spec kept.1 turned
    exact ⟨valid', kept.2.trans grown'⟩
  exact foldlM_keeps turn ⟨valid, Grown.refl pml4 vmm⟩ result

/-- The frame of a page after a sequence of `map_page` whose calls for this page agree. -/
theorem mapPages_lookup {pml4 address frame : Nat} {vmm after : Vmm} {mappings : List Mapping}
    (valid : Tables pml4 vmm) (result : mapPages pml4 vmm mappings = .ok after)
    (agree : ∀ mapping ∈ mappings, pageKey address = pageKey mapping.virt →
      mapping.phys &&& pteAddrMask = frame)
    (hit : lookup vmm pml4 address = some frame ∨
      ∃ mapping ∈ mappings, pageKey address = pageKey mapping.virt) :
    lookup after pml4 address = some frame := by
  induction mappings generalizing vmm with
  | nil =>
      obtain rfl : vmm = after := Except.ok.inj result
      rcases hit with found | ⟨_, impossible, _⟩
      · exact found
      · cases impossible
  | cons mapping rest ih =>
      rw [mapPages, List.foldlM_cons, bind_eq_ok] at result
      obtain ⟨middle, turned, result⟩ := result
      obtain ⟨valid', _⟩ := mapPage_spec valid turned
      refine ih valid' result (fun other member => agree other (List.mem_cons_of_mem _ member)) ?_
      rw [mapPage_lookup valid turned]
      by_cases here : pageKey address = pageKey mapping.virt
      · left
        rw [if_pos here, agree mapping List.mem_cons_self here]
      · rw [if_neg here]
        rcases hit with found | ⟨other, member, same⟩
        · exact Or.inl found
        · rcases List.mem_cons.mp member with rfl | later
          · exact absurd same here
          · exact Or.inr ⟨other, later, same⟩

/-- A sequence of `map_page` leaves the pages that none of its calls names. -/
theorem mapPages_lookup_other {pml4 address : Nat} {vmm after : Vmm} {mappings : List Mapping}
    (valid : Tables pml4 vmm) (result : mapPages pml4 vmm mappings = .ok after)
    (apart : ∀ mapping ∈ mappings, pageKey address ≠ pageKey mapping.virt) :
    lookup after pml4 address = lookup vmm pml4 address := by
  have turn (state : Vmm) (mapping : Mapping) (next : Vmm) (member : mapping ∈ mappings)
      (kept : Tables pml4 state ∧ lookup state pml4 address = lookup vmm pml4 address)
      (turned : mapPage mapping.phys mapping.virt pml4 state = .ok next) :
      Tables pml4 next ∧ lookup next pml4 address = lookup vmm pml4 address := by
    refine ⟨(mapPage_spec kept.1 turned).1, ?_⟩
    rw [mapPage_lookup kept.1 turned, if_neg (apart mapping member), kept.2]
  exact (foldlM_keeps turn ⟨valid, rfl⟩ result).2

/-- The arguments of one call of `map_range`. -/
structure Range where
  phys : Nat
  virt : Nat
  size : Nat

def Range.pages (range : Range) : List Mapping := rangePages range.phys range.virt range.size

/-- The counter of `map_range` does not wrap around. -/
def Range.Fits (range : Range) : Prop := mappedSize range.phys range.size + pageSize ≤ 2 ^ 64

/-- A sequence of calls of `map_range` with the same tables. -/
def mapRanges (pml4 : Nat) (vmm : Vmm) (ranges : List Range) : Except Stop Vmm :=
  ranges.foldlM (fun vmm range => mapRange range.phys range.virt range.size pml4 vmm) vmm

@[simp] theorem mapRanges_nil (pml4 : Nat) (vmm : Vmm) : mapRanges pml4 vmm [] = .ok vmm := rfl

@[simp] theorem mapRanges_cons (pml4 : Nat) (vmm : Vmm) (range : Range) (rest : List Range) :
    mapRanges pml4 vmm (range :: rest) =
      mapRange range.phys range.virt range.size pml4 vmm >>= fun vmm => mapRanges pml4 vmm rest :=
  List.foldlM_cons

/-- Two series of ranges are one. -/
theorem mapRanges_append (pml4 : Nat) (vmm : Vmm) (first second : List Range) :
    mapRanges pml4 vmm (first ++ second) =
      mapRanges pml4 vmm first >>= fun vmm => mapRanges pml4 vmm second :=
  List.foldlM_append

/-- The ranges are mapped when their pages are and no size wraps around. -/
theorem mapRanges_ok {pml4 : Nat} {vmm after : Vmm} {ranges : List Range} :
    mapRanges pml4 vmm ranges = .ok after ↔
      mapPages pml4 vmm (ranges.flatMap Range.pages) = .ok after ∧ ∀ range ∈ ranges, range.Fits := by
  induction ranges generalizing vmm with
  | nil => simp [mapRanges, mapPages]
  | cons range rest ih =>
      rw [mapRanges, List.foldlM_cons, bind_eq_ok, List.flatMap_cons, mapPages_append, bind_eq_ok]
      constructor
      · rintro ⟨middle, mapped, result⟩
        obtain ⟨mapped, fits⟩ := mapRange_ok.mp mapped
        obtain ⟨result, others⟩ := ih.mp result
        exact ⟨⟨middle, mapped, result⟩, List.forall_mem_cons.mpr ⟨fits, others⟩⟩
      · rintro ⟨⟨middle, mapped, result⟩, fit⟩
        obtain ⟨fits, others⟩ := List.forall_mem_cons.mp fit
        exact ⟨middle, mapRange_ok.mpr ⟨mapped, fits⟩, ih.mpr ⟨result, others⟩⟩

/-- `palloc` keeps the layout. -/
theorem palloc_layout (pmm : Pmm) : SameLayout (palloc pmm).2 pmm := by
  unfold palloc
  split
  · exact SameLayout.refl pmm
  · split
    · exact SameLayout.refl pmm
    · split
      · exact SameLayout.refl pmm
      · exact markUsed_layout pmm _

section Paid

variable {good : Pmm → Prop} (closed : ∀ pmm, good pmm → good (palloc pmm).2)
include closed

/-- One level of `map_page` changes the page manager by `palloc` only. -/
theorem nextTable_paid {message : String} {table next : Nat} {index : Fin 512} {vmm after : Vmm}
    (result : nextTable message table index vmm = .ok (next, after)) (before : good vmm.pmm) :
    good after.pmm := by
  unfold nextTable at result
  dsimp only at result
  split at result
  · split at result
    · cases result
    · rw [Except.ok.injEq, Prod.mk.injEq] at result
      rw [← result.2]
      exact closed _ before
  · rw [Except.ok.injEq, Prod.mk.injEq] at result
    rw [← result.2]
    exact before

/-- `map_page` changes the page manager by `palloc` only. -/
theorem mapPage_paid {phys virt pml4 : Nat} {vmm after : Vmm}
    (result : mapPage phys virt pml4 vmm = .ok after) (before : good vmm.pmm) : good after.pmm := by
  simp only [mapPage, bind_eq_ok] at result
  obtain ⟨⟨_, first⟩, firstTable, ⟨_, second⟩, secondTable, ⟨_, third⟩, thirdTable, stored⟩ := result
  obtain rfl := Except.ok.inj stored
  change good third.pmm
  exact nextTable_paid closed thirdTable (nextTable_paid closed secondTable
    (nextTable_paid closed firstTable before))

/-- A series of `map_page` changes the page manager by `palloc` only. -/
theorem mapPages_paid {pml4 : Nat} {vmm after : Vmm} {mappings : List Mapping}
    (result : mapPages pml4 vmm mappings = .ok after) (before : good vmm.pmm) : good after.pmm :=
  foldlM_keeps (fun _ _ _ _ kept turned => mapPage_paid closed turned kept) before result

end Paid

/-- `map_page` keeps the layout. -/
theorem mapPage_layout {phys virt pml4 : Nat} {vmm after : Vmm}
    (result : mapPage phys virt pml4 vmm = .ok after) : SameLayout after.pmm vmm.pmm := by
  have closed (pmm : Pmm) (kept : SameLayout pmm vmm.pmm) : SameLayout (palloc pmm).2 vmm.pmm :=
    (palloc_layout pmm).trans kept
  exact mapPage_paid closed result (SameLayout.refl _)

/-- `map_range` does not change the sizes of the page manager. -/
theorem mapRange_layout {phys virt size pml4 : Nat} {vmm after : Vmm}
    (result : mapRange phys virt size pml4 vmm = .ok after) : SameLayout after.pmm vmm.pmm := by
  have turn (state : Vmm) (mapping : Mapping) (next : Vmm)
      (_ : mapping ∈ rangePages phys virt size) (kept : SameLayout state.pmm vmm.pmm)
      (turned : mapPage mapping.phys mapping.virt pml4 state = .ok next) :
      SameLayout next.pmm vmm.pmm := (mapPage_layout turned).trans kept
  exact foldlM_keeps turn (SameLayout.refl _) (mapRange_ok.mp result).1

end ArchaOS.VirtualMemory
