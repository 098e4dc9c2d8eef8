import ArchaOS.Proof.VirtualMemory.Supply

namespace ArchaOS.VirtualMemory

open Library PhysicalMemory RadixTree

/-- Taking a free page lowers the counter by one. -/
theorem markUsed_freePages {pmm : Pmm} (ready : Ready pmm) {page : Nat}
    (inside : page < pmm.maxPages) (free : pageUsed pmm page = false) :
    (markUsed pmm page).freePages + 1 = pmm.freePages := by
  have some := ready.counted.freePages_pos inside free
  have few := ready.counted.few
  have bound := PackedBits.clearBelow_card_le pmm.bitmap pmm.maxPages
  rw [← ready.counted.freePages] at bound
  have marked : (markUsed pmm page).freePages = sub64 pmm.freePages 1 := by
    simp [markUsed, not_le.mpr inside, free]
  rw [marked, sub64_eq (by omega) (by omega)]
  omega

/-- Freeing a page that is in use raises the counter by one. -/
theorem markFree_freePages {pmm : Pmm} (ready : Ready pmm) {page : Nat}
    (inside : page < pmm.maxPages) (used : pageUsed pmm page = true) :
    (markFree pmm page).freePages = pmm.freePages + 1 := by
  have free : pageUsed (markFree pmm page) page = false := by
    rw [pageUsed_markFree, used]
    simp [inside]
  have again := markUsed_freePages (ready.markFree page)
    (by rw [(markFree_layout pmm page).maxPages]; exact inside) free
  have same : (markUsed (markFree pmm page) page).freePages = pmm.freePages := by
    rw [((ready.markFree page).markUsed page).counted.freePages_eq, ready.counted.freePages_eq,
      (markUsed_layout _ page).maxPages, (markFree_layout pmm page).maxPages]
    congr 1
    refine Finset.filter_congr fun other _ => ?_
    rw [pageUsed_markUsed, pageUsed_markFree]
    by_cases here : other = page
    · rw [here, used]
      simp
    · simp [here]
  omega

/-- The missing tables, level by level. -/
theorem missingTables_levels (vmm : Vmm) (pml4 virt : Nat) : missingTables vmm pml4 virt =
    (if walk present vmm.frames pml4 [pml4Index virt] = none then 1 else 0) +
      ((if walk present vmm.frames pml4 [pml4Index virt, pdptIndex virt] = none then 1 else 0) +
        ((if walk present vmm.frames pml4 [pml4Index virt, pdptIndex virt, pdIndex virt] = none
          then 1 else 0) + 0)) := by
  have second (absent : walk present vmm.frames pml4 [pml4Index virt] = none) :
      walk present vmm.frames pml4 [pml4Index virt, pdptIndex virt] = none := by
    have step := walk_snoc present vmm.frames pml4 [pml4Index virt] (pdptIndex virt)
    rw [absent] at step
    exact step
  have third (absent : walk present vmm.frames pml4 [pml4Index virt, pdptIndex virt] = none) :
      walk present vmm.frames pml4 [pml4Index virt, pdptIndex virt, pdIndex virt] = none := by
    have step := walk_snoc present vmm.frames pml4 [pml4Index virt, pdptIndex virt] (pdIndex virt)
    rw [absent] at step
    exact step
  unfold missingTables
  by_cases one : walk present vmm.frames pml4 [pml4Index virt] = none
  · rw [if_pos one, if_pos one, if_pos (second one), if_pos (third (second one))]
  · by_cases two : walk present vmm.frames pml4 [pml4Index virt, pdptIndex virt] = none
    · rw [if_neg one, if_pos two, if_neg one, if_pos two, if_pos (third two)]
    · rw [if_neg one, if_neg two, if_neg one, if_neg two, Nat.zero_add, Nat.zero_add, Nat.add_zero]

/-- The missing tables of an address are the missing ones of its paths. -/
theorem missingPaths_upper (virt pml4 : Nat) (vmm : Vmm) :
    (missingPaths (upperPaths virt) pml4 vmm).card = missingTables vmm pml4 virt := by
  rw [missingTables_levels, missingPaths, upperPaths, Finset.card_filter, Finset.sum_insert (by simp),
    Finset.sum_insert (by simp), Finset.sum_singleton, Nat.add_zero]

section Levels

variable {message : String} {pml4 table next : Nat} {index : Fin 512} {path : List (Fin 512)}
  {vmm after : Vmm} (valid : Tables pml4 vmm)
  (arrived : walk present vmm.frames pml4 path = some table) (short : path.length + 1 < 4)
  (result : nextTable message table index vmm = .ok (next, after))
include valid arrived result

include short in
/-- One level of `map_page` makes one path and leaves the others. -/
theorem nextTable_walks (target : List (Fin 512)) (small : target.length ≤ 4)
    (different : target ≠ path ++ [index]) :
    walk present after.frames pml4 target = walk present vmm.frames pml4 target := by
  rcases nextTable_cases message table index valid with
    ⟨_, _, same⟩ | ⟨missing, page, free, _, same⟩ | ⟨_, _, same⟩
  · rw [same, Except.ok.injEq, Prod.mk.injEq] at result
    rw [result.2]
  · rw [same, Except.ok.injEq, Prod.mk.injEq] at result
    obtain ⟨_, _, walks, _⟩ := valid.addTable arrived short missing free
    rw [← result.2, walks target small, if_neg different]
  · rw [same] at result
    cases result

/-- One level of `map_page` calls `palloc` exactly when its table is missing. -/
theorem nextTable_pallocs : after.pmm = pallocs
    (if walk present vmm.frames pml4 (path ++ [index]) = none then 1 else 0) vmm.pmm := by
  rw [walk_snoc, arrived, Option.bind_some]
  rcases nextTable_cases message table index valid with
    ⟨_, named, same⟩ | ⟨missing, page, free, allocated, same⟩ | ⟨_, _, same⟩
  · rw [same, Except.ok.injEq, Prod.mk.injEq] at result
    rw [← result.2, named, if_neg (by simp), pallocs]
  · rw [same, Except.ok.injEq, Prod.mk.injEq] at result
    rw [← result.2, missing, if_pos rfl, pallocs, pallocs, allocated]
    rfl
  · rw [same] at result
    cases result

/-- One level of `map_page` takes a page exactly when its table is missing. -/
theorem nextTable_count (ready : Ready vmm.pmm) : after.pmm.freePages +
    (if walk present vmm.frames pml4 (path ++ [index]) = none then 1 else 0) = vmm.pmm.freePages := by
  rw [walk_snoc, arrived, Option.bind_some]
  rcases nextTable_cases message table index valid with
    ⟨_, named, same⟩ | ⟨missing, page, free, allocated, same⟩ | ⟨_, _, same⟩
  · rw [same, Except.ok.injEq, Prod.mk.injEq] at result
    rw [← result.2, named, if_neg (by simp), Nat.add_zero]
  · rw [same, Except.ok.injEq, Prod.mk.injEq] at result
    rw [← result.2, missing, if_pos rfl]
    exact markUsed_freePages ready (free_lt free) free
  · rw [same] at result
    cases result

end Levels

section Mapped

variable {phys virt pml4 : Nat} {vmm after : Vmm} (valid : Tables pml4 vmm)
  (result : mapPage phys virt pml4 vmm = .ok after)
include valid result

/-- `map_page` takes one page for every missing table. -/
theorem mapPage_count (ready : Ready vmm.pmm) :
    after.pmm.freePages + missingTables vmm pml4 virt = vmm.pmm.freePages := by
  have top : walk present vmm.frames pml4 [] = some pml4 := walk_nil _ _ _
  simp only [mapPage, bind_eq_ok] at result
  obtain ⟨⟨pdpt, first⟩, firstTable, ⟨pd, second⟩, secondTable, ⟨pt, third⟩, thirdTable, stored⟩ := result
  obtain rfl := Except.ok.inj stored
  obtain ⟨valid', grown, arrived, _⟩ := nextTable_spec valid top (by decide) firstTable
  obtain ⟨valid'', grown', arrived', _⟩ := nextTable_spec valid' arrived (by simp) secondTable
  have one := nextTable_count valid top firstTable ready
  have two := nextTable_count valid' arrived secondTable (grown.ready ready)
  have three := nextTable_count valid'' arrived' thirdTable (grown'.ready (grown.ready ready))
  have walks := nextTable_walks valid top (by decide) firstTable
  have walks' := nextTable_walks valid' arrived (by simp) secondTable
  rw [walks _ (by simp) (by simp)] at two
  rw [walks' _ (by simp) (by simp), walks _ (by simp) (by simp)] at three
  rw [missingTables_levels]
  simp only [List.nil_append, List.cons_append] at one two three
  change third.pmm.freePages + _ = _
  omega

/-- `map_page` makes the tables on its own way only. -/
theorem mapPage_walks {target : List (Fin 512)} (short : target.length < 4)
    (apart : target ∉ upperPaths virt) :
    walk present after.frames pml4 target = walk present vmm.frames pml4 target := by
  have top : walk present vmm.frames pml4 [] = some pml4 := walk_nil _ _ _
  simp only [upperPaths, Finset.mem_insert, Finset.mem_singleton, not_or] at apart
  simp only [mapPage, bind_eq_ok] at result
  obtain ⟨⟨pdpt, first⟩, firstTable, ⟨pd, second⟩, secondTable, ⟨pt, third⟩, thirdTable, stored⟩ := result
  obtain rfl := Except.ok.inj stored
  obtain ⟨valid', _, arrived, _⟩ := nextTable_spec valid top (by decide) firstTable
  obtain ⟨valid'', _, arrived', _⟩ := nextTable_spec valid' arrived (by simp) secondTable
  obtain ⟨validLast, _, arrived'', _⟩ := nextTable_spec valid'' arrived' (by simp) thirdTable
  have stored : walk present (third.store pt (ptIndex virt) (tableEntry phys)).frames pml4 target =
      walk present third.frames pml4 target :=
    walk_put_short validLast.tree arrived'' (by simp) target short
  rw [stored, nextTable_walks valid'' arrived' (by simp) thirdTable _ short.le apart.2.2,
    nextTable_walks valid' arrived (by simp) secondTable _ short.le apart.2.1,
    nextTable_walks valid top (by decide) firstTable _ short.le apart.1]

end Mapped

/-- What `palloc` keeps holds after a number of its calls. -/
theorem pallocs_paid {good : Pmm → Prop} (closed : ∀ pmm, good pmm → good (palloc pmm).2)
    (count : Nat) {pmm : Pmm} (before : good pmm) : good (pallocs count pmm) := by
  induction count generalizing pmm with
  | zero => exact before
  | succ count ih => exact ih (closed pmm before)

end ArchaOS.VirtualMemory
