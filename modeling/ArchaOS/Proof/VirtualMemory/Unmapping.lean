import ArchaOS.Proof.VirtualMemory.Startup

namespace ArchaOS.VirtualMemory

open Library PhysicalMemory RadixTree

/-- `unmap_page` returns the frame of an address and forgets the page of that address alone. -/
structure Forgets (pml4 virt : Nat) (vmm : Vmm) (answer : Nat × Vmm) : Prop where
  frame : answer.1 = (lookup vmm pml4 virt).getD 0
  gone : lookup answer.2 pml4 virt = none
  kept : ∀ address, pageKey address ≠ pageKey virt →
    lookup answer.2 pml4 address = lookup vmm pml4 address
  rest : answer.2 = { vmm with frames := answer.2.frames }

/-- Clearing the entry of an address forgets its page. -/
theorem put_zero {pml4 pt virt : Nat} {vmm : Vmm} (tree : Tree present vmm.frames pml4 4)
    (reached : walk present vmm.frames pml4 [pml4Index virt, pdptIndex virt, pdIndex virt] = some pt)
    (address : Nat) :
    lookup (vmm.store pt (ptIndex virt) 0) pml4 address =
      if pageKey address = pageKey virt then none else lookup vmm pml4 address := by
  rw [lookup_eq, put_pageEntry tree 0 reached address, present_zero]
  split
  · rfl
  · rw [← lookup_eq]

/-- `unmap_page` forgets one page. -/
theorem unmapPage_forgets {pml4 : Nat} {vmm : Vmm} (tree : Tree present vmm.frames pml4 4)
    (tidy : Tidy pml4 vmm) (virt : Nat) : Forgets pml4 virt vmm (unmapPage virt pml4 vmm) := by
  rcases unmapPage_cases tidy virt with ⟨absent, same⟩ | ⟨pt, phys, reached, found, same⟩
  · rw [same]
    refine ⟨?_, absent, fun _ _ => rfl, rfl⟩
    rw [absent, Option.getD_none]
  · rw [same]
    refine ⟨?_, ?_, ?_, rfl⟩
    · rw [found, Option.getD_some]
    · rw [put_zero tree reached, if_pos rfl]
    · intro address apart
      rw [put_zero tree reached, if_neg apart]

/-- `unmap_page` after `map_page` returns the frame and restores every translation. -/
theorem unmapPage_mapPage {phys virt pml4 : Nat} {vmm after : Vmm} (valid : Tables pml4 vmm)
    (tidy : Tidy pml4 vmm) (aligned : phys % pageSize = 0) (small : phys < 2 ^ 52)
    (absent : lookup vmm pml4 virt = none) (mapped : mapPage phys virt pml4 vmm = .ok after) :
    (unmapPage virt pml4 after).1 = phys ∧
      ∀ address, lookup (unmapPage virt pml4 after).2 pml4 address = lookup vmm pml4 address := by
  obtain ⟨valid', grown, _⟩ := mapPage_spec valid mapped
  have forgets := unmapPage_forgets valid'.tree (tidy.grown grown) virt
  have masked : phys &&& pteAddrMask = phys := by
    rw [addrMask_eq]
    unfold pageSize at aligned
    omega
  constructor
  · rw [forgets.frame, mapPage_lookup valid mapped, if_pos rfl, masked, Option.getD_some]
  · intro address
    by_cases here : pageKey address = pageKey virt
    · rw [lookup_congr _ pml4 here, lookup_congr vmm pml4 here, forgets.gone, absent]
    · rw [forgets.kept address here, mapPage_lookup valid mapped, if_neg here]

/-- The tables form a tree of unshared small-page tables in used frames, and the entries that are
not present are zero. -/
structure TidyTables (pml4 : Nat) (vmm : Vmm) : Prop where
  aligned : pml4 % pageSize = 0
  single : ∀ frame, IsTable vmm pml4 frame → frame ≠ pml4 →
    ∃! entry : Nat × Fin 512, UpperEntry vmm pml4 entry.1 entry.2 frame
  root : ∀ table index, ¬ UpperEntry vmm pml4 table index pml4
  flat : ∀ table index frame, UpperEntry vmm pml4 table index frame →
    vmm.frames table index &&& ptePs = 0
  tidy : Tidy pml4 vmm
  used : ∀ frame, IsTable vmm pml4 frame → pageUsed vmm.pmm (frame / pageSize) = true

/-- In a well-formed state `unmap_page` forgets one page and undoes `map_page`, which needs free
frames that fit into an entry. -/
theorem unmapPage_inverts (virt pml4 : Nat) (vmm : Vmm) (tidyTables : TidyTables pml4 vmm) :
    Forgets pml4 virt vmm (unmapPage virt pml4 vmm) ∧
      ((∀ page, pageUsed vmm.pmm page = false → page * pageSize < 2 ^ 52) →
        ∀ phys, phys % pageSize = 0 → phys < 2 ^ 52 → lookup vmm pml4 virt = none →
        (Room (missingTables vmm pml4 virt) vmm.pmm →
          ∃ after, mapPage phys virt pml4 vmm = .ok after) ∧
        ∀ after, mapPage phys virt pml4 vmm = .ok after →
          (unmapPage virt pml4 after).1 = phys ∧
          ∀ address, lookup (unmapPage virt pml4 after).2 pml4 address = lookup vmm pml4 address) := by
  have tree := tree_of_single tidyTables.single tidyTables.root
  have tidy := tidyTables.tidy
  refine ⟨unmapPage_forgets tree tidy virt, ?_⟩
  intro low phys aligned small absent
  have valid : Tables pml4 vmm := ⟨tree, tidyTables.used, tables_small low⟩
  exact ⟨mapPage_returns phys virt valid,
    fun _ mapped => unmapPage_mapPage valid tidy aligned small absent mapped⟩

/-- A single empty table is tidy. -/
theorem blankVmm_tidyTables : TidyTables 0x1000 blankVmm := by
  have wellFormed := blankVmm_wellFormed
  exact ⟨wellFormed.aligned, wellFormed.single, wellFormed.root, wellFormed.flat,
    fun _ _ _ _ => rfl, wellFormed.used⟩

/-- A page is mapped in an empty table and unmapped again. -/
theorem unmapPage_inverts_blank :
    TidyTables 0x1000 blankVmm ∧
      ∃ after, mapPage 0x7000 kheapBase 0x1000 blankVmm = .ok after ∧
        (unmapPage kheapBase 0x1000 after).1 = 0x7000 ∧
        ∀ address, lookup (unmapPage kheapBase 0x1000 after).2 0x1000 address =
          lookup blankVmm 0x1000 address := by
  have room : Room (missingTables blankVmm 0x1000 kheapBase) blankVmm.pmm := by
    unfold Room
    decide
  obtain ⟨_, inverts⟩ :=
    unmapPage_inverts kheapBase 0x1000 blankVmm blankVmm_tidyTables
  obtain ⟨returns, undone⟩ :=
    inverts blankVmm_wellFormed.small 0x7000 (by decide) (by decide) (by decide)
  obtain ⟨after, mapped⟩ := returns room
  exact ⟨blankVmm_tidyTables, after, mapped, undone after mapped⟩

end ArchaOS.VirtualMemory
