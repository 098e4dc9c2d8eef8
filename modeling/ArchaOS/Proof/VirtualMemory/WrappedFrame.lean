import ArchaOS.Proof.VirtualMemory.HeapExhaustion

namespace ArchaOS.VirtualMemory

open Library PhysicalMemory RadixTree

/-- The manager gives out its last page only when no other page is free. -/
structure KeepsLast (last : Nat) (pmm : Pmm) : Prop where
  ready : Ready pmm
  size : pmm.maxPages = last + 1
  idle : pageUsed pmm last = false ∨ pmm.freePages = 0

section KeepsLast

variable {last : Nat} {pmm : Pmm} (keeps : KeepsLast last pmm)
include keeps

/-- While a page is free, the last page is free. -/
theorem KeepsLast.free (some : 0 < pmm.freePages) : pageUsed pmm last = false :=
  keeps.idle.resolve_right (by omega)

/-- `palloc` takes the lowest page, so the last one is the last to go. -/
theorem KeepsLast.palloc : KeepsLast last (palloc pmm).2 := by
  rcases palloc_cases keeps.ready with ⟨page, inside, free, lowest, taken⟩ | ⟨_, failed⟩
  · have ready := keeps.ready.markUsed page
    have size : (markUsed pmm page).maxPages = last + 1 :=
      (markUsed_layout pmm page).maxPages.trans keeps.size
    have positive := keeps.ready.counted.freePages_pos inside free
    rw [taken]
    refine ⟨ready, size, ?_⟩
    by_cases same : last = page
    · apply Or.inr
      have none (other : Nat) (low : other < (markUsed pmm page).maxPages) :
          pageUsed (markUsed pmm page) other = true := by
        rw [pageUsed_markUsed]
        rcases Nat.lt_or_ge other page with below | above
        · rw [lowest other below, Bool.or_true]
        · rw [decide_eq_true (by omega), Bool.true_or]
      dsimp only
      rw [ready.counted.freePages_eq, Finset.card_eq_zero, Finset.filter_eq_empty_iff]
      intro other member
      rw [none other (Finset.mem_range.mp member)]
      decide
    · apply Or.inl
      dsimp only
      rw [pageUsed_markUsed, keeps.free positive, Bool.or_false]
      exact decide_eq_false same
  · rw [failed]
    exact keeps

/-- Calls of `palloc` take as many pages as there are calls. -/
theorem KeepsLast.pallocs {count : Nat} (enough : count ≤ pmm.freePages) :
    KeepsLast last (VirtualMemory.pallocs count pmm) ∧
      (VirtualMemory.pallocs count pmm).freePages + count = pmm.freePages := by
  induction count generalizing pmm with
  | zero => exact ⟨keeps, rfl⟩
  | succ count ih =>
      have next := keeps.palloc
      rcases palloc_cases keeps.ready with ⟨page, inside, free, _, taken⟩ | ⟨full, _⟩
      · have counted := markUsed_freePages keeps.ready inside free
        rw [taken] at next
        dsimp only at next
        obtain ⟨kept, left⟩ := ih next (by omega)
        rw [VirtualMemory.pallocs, taken]
        exact ⟨kept, by dsimp only; omega⟩
      · have free := keeps.free (by omega)
        rw [full last] at free
        cases free

/-- The last page stays free while other pages suffice. -/
theorem KeepsLast.spare {count : Nat} (fewer : count < pmm.freePages) :
    pageUsed (VirtualMemory.pallocs count pmm) last = false := by
  obtain ⟨kept, left⟩ := keeps.pallocs fewer.le
  exact kept.free (by omega)

end KeepsLast

/-- The pages of one region lack the same tables. -/
theorem missingTables_slot (vmm : Vmm) (pml4 : Nat) {index other : Nat}
    (same : index / 512 = other / 512) (low : index < windowPages) (low' : other < windowPages) :
    missingTables vmm pml4 (slot index) = missingTables vmm pml4 (slot other) := by
  obtain ⟨first, second, third⟩ := upperIndex_region
    (show slot index / 2 ^ 21 % 2 ^ 27 = slot other / 2 ^ 21 % 2 ^ 27 by
      rw [slot_region_eq low, slot_region_eq low', same])
  unfold missingTables
  rw [first, second, third]

/-- The path to the last table above an address. -/
def tableOf (address : Nat) : List (Fin 512) := [pml4Index address, pdptIndex address, pdIndex address]

/-- Addresses of different regions have different last tables. -/
theorem tableOf_inj {address other : Nat} (same : tableOf address = tableOf other) :
    address / 2 ^ 21 % 2 ^ 27 = other / 2 ^ 21 % 2 ^ 27 := by
  simp only [tableOf, List.cons.injEq, and_true, Fin.ext_iff, pml4Index, pdptIndex, pdIndex,
    tableIndex_val] at same
  omega

/-- The tables of different regions are different. -/
theorem tableOf_slot_apart {index other : Nat} (different : index / 512 ≠ other / 512)
    (low : index < windowPages) (low' : other < windowPages) :
    tableOf (slot index) ∉ upperPaths (slot other) := by
  intro member
  have same : tableOf (slot index) = tableOf (slot other) := by
    simpa [upperPaths, tableOf] using member
  have regions := tableOf_inj same
  rw [slot_region_eq low, slot_region_eq low'] at regions
  omega

/-- The same tables exist. -/
def SameTables (pml4 : Nat) (before after : Vmm) : Prop :=
  ∀ path : List (Fin 512), path.length < 4 →
    (walk present after.frames pml4 path = none ↔ walk present before.frames pml4 path = none)

/-- The tables stay the same over two steps. -/
theorem SameTables.trans {pml4 : Nat} {first second third : Vmm} (left : SameTables pml4 first second)
    (right : SameTables pml4 second third) : SameTables pml4 first third :=
  fun path short => (right path short).trans (left path short)

/-- The same tables are missing. -/
theorem SameTables.missingTables {pml4 : Nat} {before after : Vmm}
    (same : SameTables pml4 before after) (virt : Nat) :
    missingTables after pml4 virt = missingTables before pml4 virt := by
  unfold VirtualMemory.missingTables
  rw [if_congr (same [pml4Index virt] (by simp)) rfl rfl,
    if_congr (same [pml4Index virt, pdptIndex virt] (by simp)) rfl rfl,
    if_congr (same [pml4Index virt, pdptIndex virt, pdIndex virt] (by simp)) rfl rfl]

/-- When no table of an address is missing, every path to one ends. -/
theorem upperPaths_present {vmm : Vmm} {pml4 virt : Nat} (complete : missingTables vmm pml4 virt = 0)
    {path : List (Fin 512)} (member : path ∈ upperPaths virt) :
    walk present vmm.frames pml4 path ≠ none := by
  rw [← missingPaths_upper, Finset.card_eq_zero] at complete
  exact Finset.filter_eq_empty_iff.mp complete member

/-- The same tables exist when none above an address was missing and the others stay. -/
theorem SameTables.of_complete {pml4 virt : Nat} {before after : Vmm}
    (complete : VirtualMemory.missingTables before pml4 virt = 0)
    (still : VirtualMemory.missingTables after pml4 virt = 0)
    (others : ∀ path : List (Fin 512), path.length < 4 → path ∉ upperPaths virt →
      walk present after.frames pml4 path = walk present before.frames pml4 path) :
    SameTables pml4 before after := by
  intro path short
  by_cases inside : path ∈ upperPaths virt
  · exact iff_of_false (upperPaths_present still inside) (upperPaths_present complete inside)
  · rw [others path short inside]

/-- One turn of `vfrees` changes no free frame. -/
theorem freePage_contents {pml4 virt page : Nat} {vmm : Vmm} (tables : Tables pml4 vmm)
    (tidy : Tidy pml4 vmm) (free : pageUsed vmm.pmm page = false) :
    (freePage pml4 vmm virt).frames (page * pageSize) = vmm.frames (page * pageSize) := by
  rcases unmapPage_cases tidy virt with ⟨_, same⟩ | ⟨pt, phys, reached, _, same⟩
  · simp [freePage, same]
  · have apart : page * pageSize ≠ pt := by
      rintro rfl
      exact tables.free_not_table free ⟨_, by simp, reached⟩
    have stored : (vmm.store pt (ptIndex virt) 0).frames (page * pageSize) =
        vmm.frames (page * pageSize) := write_of_ne_frame vmm.frames apart _ _
    unfold freePage
    rw [same]
    dsimp only
    split <;> exact stored

/-- The address of a page in the passthru window is translated to the frame that is mapped there. -/
theorem translate_passthru {vmm : Vmm} {pml4 page frame : Nat} (root : vmm.cr3 &&& pteAddrMask = pml4)
    (small : page < 2 ^ 35) (found : lookup vmm pml4 (getVirtAddr (page * pageSize)) = some frame) :
    translate vmm (getVirtAddr (page * pageSize)) = some frame := by
  have offset : getVirtAddr (page * pageSize) % pageSize = 0 := by
    rw [getVirtAddr_offset, Nat.mul_mod_left]
  rw [translate, if_pos (getVirtAddr_canonical (by unfold pageSize; omega)), root, found, offset]
  exact congrArg some (Nat.add_zero _)

/-- Calls of clients lead from one state to another. -/
def Leads (before after : Vmm) : Prop :=
  ∃ requests : List Request, ∀ session : Session, session.vmm = before →
    (requests.foldl Passthru.step session).vmm = after

/-- No call leads to the same state. -/
theorem Leads.refl (vmm : Vmm) : Leads vmm vmm := ⟨[], fun _ same => same⟩

/-- Calls lead on from where calls lead. -/
theorem Leads.trans {first second third : Vmm} (left : Leads first second)
    (right : Leads second third) : Leads first third := by
  obtain ⟨requests, reached⟩ := left
  obtain ⟨more, arrived⟩ := right
  refine ⟨requests ++ more, fun session same => ?_⟩
  rw [List.foldl_append]
  exact arrived _ (reached session same)

/-- An allocation leads to its result. -/
theorem Leads.vallocs {zero : Bool} {count start : Nat} {before after : Vmm}
    (result : Passthru.vallocs zero count before = .ok (start, after)) : Leads before after := by
  refine ⟨[.vallocs zero count], fun session same => ?_⟩
  rw [List.foldl_cons, List.foldl_nil, Passthru.step, same, result]

/-- Freeing leads to its result. -/
theorem Leads.vfrees {virtAddr count : Nat} {before after : Vmm}
    (result : Passthru.vfrees virtAddr count before = .ok after) : Leads before after := by
  refine ⟨[.vfrees virtAddr count], fun session same => ?_⟩
  rw [List.foldl_cons, List.foldl_nil, Passthru.step, same, result]

/-- The last frame is free and still holds what it held before the kernel started, and its address in
the passthru window leads to another frame, which holds no table. -/
structure Wrapped (pml4 last other : Nat) (first : Vmm) (count : Nat) (vmm : Vmm) : Prop where
  standing : Standing pml4 first count vmm
  keeps : KeepsLast last vmm.pmm
  covered : Covered (fun page => page = last) vmm
  old : vmm.frames (last * pageSize) = fun _ => 3
  wraps : lookup vmm pml4 (getVirtAddr (last * pageSize)) = some (other * pageSize)
  data : ¬ IsTable vmm pml4 (other * pageSize)
  bare : ∀ index < windowPages, count ≤ index / 512 * 512 →
    walk present vmm.frames pml4 (tableOf (slot index)) = none

/-- The page for the heap itself is taken; it is not the last one. -/
structure Begun (pml4 last page : Nat) (vmm : Vmm) : Prop where
  free : pageUsed vmm.pmm page = false
  taken : palloc vmm.pmm = (page * pageSize, markUsed vmm.pmm page)
  nonzero : page * pageSize ≠ 0
  left : (markUsed vmm.pmm page).freePages + 1 = vmm.pmm.freePages
  supplied : Supplied (markUsed vmm.pmm page).freePages (markUsed vmm.pmm page)
  tables : Tables pml4 { vmm with pmm := markUsed vmm.pmm page }
  keeps : KeepsLast last (markUsed vmm.pmm page)
  covered : Covered (fun page => page = last) { vmm with pmm := markUsed vmm.pmm page }
  low : ∀ frame, IsTable { vmm with pmm := markUsed vmm.pmm page } pml4 frame →
    frame / pageSize < (markUsed vmm.pmm page).maxPages

section Wrapped

variable {pml4 last other count : Nat} {first vmm : Vmm} (booted : Booted pml4 first)
  (held : pageUsed first.pmm other = true) (wrapped : Wrapped pml4 last other first count vmm)
include booted held wrapped

omit booted held in
/-- The last page is free. -/
theorem Wrapped.free : pageUsed vmm.pmm last = false := wrapped.covered.idle last rfl

omit held in
/-- The last page is small. -/
theorem Wrapped.last_lt : last < 2 ^ 35 := by
  have few := wrapped.standing.owned.few booted
  have inside := free_lt wrapped.free
  omega

omit held in
/-- With two pages free, the first one that is taken is not the last one. -/
theorem Wrapped.begun (enough : 2 ≤ vmm.pmm.freePages) : ∃ page, Begun pml4 last page vmm := by
  have owned := wrapped.standing.owned
  have supplied := ((owned.supplied booted).less enough).palloc
  obtain ⟨page, inside, free, taken⟩ := palloc_taken supplied.1
  have left := markUsed_freePages owned.ready inside free
  have keeps := wrapped.keeps.palloc
  rw [taken] at supplied keeps
  dsimp only at supplied keeps
  have good : ¬ page = last := by
    rintro rfl
    have still := keeps.free (by omega)
    simp [pageUsed_markUsed] at still
  refine ⟨page, free, taken, supplied.1, by omega, ⟨keeps.ready, supplied.2.zero, le_rfl⟩,
    owned.tables.markUsed page, keeps, wrapped.covered.markUsed good, fun frame table => ?_⟩
  rw [(markUsed_layout vmm.pmm page).maxPages]
  exact owned.low frame table

/-- A page that is mapped behind the heap leaves the last frame as it is. -/
theorem Wrapped.mapped {page : Nat} {after : Vmm} (low : count < windowPages)
    (free : pageUsed vmm.pmm page = false) (taken : palloc vmm.pmm = (page * pageSize, markUsed vmm.pmm page))
    (mapping : mapPage (page * pageSize) (slot count) pml4
      { vmm with pmm := markUsed vmm.pmm page } = .ok after)
    (some : 0 < after.pmm.freePages) :
    Wrapped pml4 last other first (count + 1)
      { after with nextVirt := kheapBase + (count + 1) * pageSize } := by
  have owned := wrapped.standing.owned
  have room : count < 2 ^ 36 := low.trans (by decide)
  have marked := owned.tables.markUsed page
  obtain ⟨lengthened, here⟩ := owned.mapPage room free mapping
  obtain ⟨_, grown, _⟩ := mapPage_spec marked mapping
  have keeps : KeepsLast last after.pmm := by
    refine mapPage_paid (fun _ => KeepsLast.palloc) mapping ?_
    have later := wrapped.keeps.palloc
    rwa [taken] at later
  have idle := keeps.free some
  have covered := lengthened.covered booted owned wrapped.standing.cr3 low wrapped.covered
    fun other same => same ▸ idle
  have fits : kheapBase + (count + 1) * pageSize ≤ passthruBase := by
    unfold windowPages at low
    unfold kheapBase pageSize passthruBase at *
    omega
  have extended : Extended pml4 first count 1 vmm after :=
    (show Lengthened pml4 first (count + 0) vmm after from lengthened).extended room
      ⟨lengthened.owned, fun _ _ => rfl, rfl, rfl⟩
  refine ⟨wrapped.standing.granted extended rfl fits, keeps, ⟨covered.reached, covered.idle⟩, ?_, ?_, ?_, ?_⟩
  · exact (grown.contents last idle).trans wrapped.old
  · have apart := passthruMapping_apart low (wrapped.last_lt booted)
    exact (lengthened.others _ apart.symm).trans wrapped.wraps
  · refine grown.not_table wrapped.data ?_
    rw [pageUsed_markUsed, owned.used other held, Bool.or_true]
  · intro index inside above
    have apart := tableOf_slot_apart (show index / 512 ≠ count / 512 by omega) inside low
    exact (lengthened.walks _ (by simp [tableOf]) apart).trans
      (wrapped.bare index inside (by omega))

/-- With a page to spare the heap grows by one page, and `palloc` is called for its tables only. -/
theorem Wrapped.grow (low : count < windowPages)
    (enough : missingTables vmm pml4 (slot count) + 2 ≤ vmm.pmm.freePages) :
    ∃ page after, Passthru.vallocs false 1 vmm = .ok (slot count, after) ∧
      Wrapped pml4 last other first (count + 1) after ∧
      lookup after pml4 (slot count) = some (page * pageSize) ∧
      after.pmm.freePages + missingTables vmm pml4 (slot count) + 1 = vmm.pmm.freePages ∧
      ∀ path : List (Fin 512), path.length < 4 → path ∉ upperPaths (slot count) →
        walk present after.frames pml4 path = walk present vmm.frames pml4 path := by
  have standing := wrapped.standing
  have owned := standing.owned
  have root := standing.root booted
  have room : count < 2 ^ 36 := low.trans (by decide)
  obtain ⟨page, begun⟩ := wrapped.begun booted (by omega)
  have left := begun.left
  obtain ⟨after, mapping⟩ := mapPage_returns (page * pageSize) (slot count) begun.tables
    (begun.supplied.less (show missingTables vmm pml4 (slot count) ≤ _ by omega)).room
  obtain ⟨lengthened, here⟩ := owned.mapPage room begun.free mapping
  have counted := lengthened.counted
  have next := wrapped.mapped booted held low begun.free begun.taken mapping (by omega)
  have reached : MapReached pml4 (slot count) { vmm with pmm := markUsed vmm.pmm page } := by
    refine begun.covered.mapReached begun.tables booted.root begun.low ?_
    rintro _ rfl
    refine begun.keeps.spare ?_
    change missingTables vmm pml4 (slot count) < (markUsed vmm.pmm page).freePages
    omega
  have start := standing.next_slot
  have finish : add64 after.nextVirt (mul64 1 pageSize) = kheapBase + (count + 1) * pageSize := by
    rw [lengthened.nextVirt, start, slot_add, slot_eq next.standing.inside le_rfl]
  have direct : Passthru.mapPage (page * pageSize) (slot count) pml4
      { vmm with pmm := markUsed vmm.pmm page } = .ok after :=
    (mapPage_eq begun.tables root reached).trans mapping
  refine ⟨page, _, ?_, next, here, by dsimp only; omega, lengthened.walks⟩
  rw [Passthru.vallocs, if_neg (by decide), standing.cr3, booted.root, start]
  dsimp only
  rw [Passthru.vallocsFrom, begun.taken]
  dsimp only
  rw [if_neg begun.nonzero, slot_add, Nat.add_zero, direct, ← finish]
  rfl

omit held in
/-- A page of the heap can be given back. -/
theorem Wrapped.giveBack {page index : Nat} (low : index < count)
    (found : lookup vmm pml4 (slot index) = some (page * pageSize)) :
    ∃ after, Passthru.vfrees (slot index) 1 vmm = .ok after ∧
      Wrapped pml4 last other first count after ∧
      after.pmm.freePages = vmm.pmm.freePages + 1 ∧
      ∀ path : List (Fin 512), path.length < 4 →
        walk present after.frames pml4 path = walk present vmm.frames pml4 path := by
  have standing := wrapped.standing
  have owned := standing.owned
  have window := standing.count_le
  have room : count ≤ 2 ^ 36 := window.trans (by decide)
  obtain ⟨found', same, start, used, data⟩ := owned.mapped index low _ found
  obtain rfl := pages_inj same
  have nonzero : page ≠ 0 := by
    rintro rfl
    rw [booted.zero] at start
    cases start
  have unmapped := freePage_unmaps owned.tables owned.tidy found nonzero
  obtain ⟨owned', released, _⟩ := owned.freePage booted room low rfl
  have covered := owned.freePage_covered booted standing.cr3 window low rfl wrapped.covered
  have walks {path : List (Fin 512)} (short : path.length < 4) :
      walk present (freePage pml4 vmm (slot index)).frames pml4 path =
        walk present vmm.frames pml4 path := freePage_walk owned.tables.tree owned.tidy _ short
  have inside : page < vmm.pmm.maxPages := by
    rw [owned.layout.maxPages]
    exact free_lt start
  have counted : (freePage pml4 vmm (slot index)).pmm.freePages = vmm.pmm.freePages + 1 := by
    rw [unmapped.pages]
    exact markFree_freePages owned.ready inside used
  have reached : FreesReached (slot index) (vmm.cr3 &&& pteAddrMask) 1 vmm := by
    rw [standing.cr3, booted.root]
    refine owned.freesReached booted standing.cr3 window (fun i few => ⟨index, low, ?_⟩) wrapped.covered
    rw [slot_add, Nat.lt_one_iff.mp few, Nat.add_zero]
  refine ⟨freePage pml4 vmm (slot index), ?_, ⟨?_, ?_, covered, ?_, ?_, ?_, ?_⟩, counted,
    fun path => walks⟩
  · rw [vfrees_reached reached, vfrees_eq, standing.cr3, booted.root]
    change Except.ok (freePage pml4 vmm (add64 (slot index) (mul64 0 pageSize))) = _
    rw [slot_add, Nat.add_zero]
  · exact ⟨owned', released.cr3.trans standing.cr3, released.nextVirt.trans standing.nextVirt,
      standing.inside⟩
  · exact ⟨owned'.ready, (owned'.layout.trans owned.layout.symm).maxPages.trans wrapped.keeps.size,
      Or.inl (covered.idle last rfl)⟩
  · exact (freePage_contents owned.tables owned.tidy wrapped.free).trans wrapped.old
  · have apart := passthruMapping_apart (low.trans_le window) (wrapped.last_lt booted)
    refine (released.kept _ fun virt member same => ?_).trans wrapped.wraps
    rw [List.mem_singleton.mp member] at same
    exact apart same.symm
  · exact fun table => wrapped.data ((unmapped.tables _).mp table)
  · intro index inside above
    exact (walks (by simp [tableOf])).trans (wrapped.bare index inside above)

/-- A page of the heap can be allocated and given back; only the tables for it remain. -/
theorem Wrapped.cycle (low : count < windowPages)
    (enough : missingTables vmm pml4 (slot count) + 2 ≤ vmm.pmm.freePages) :
    ∃ after, Leads vmm after ∧ Wrapped pml4 last other first (count + 1) after ∧
      after.pmm.freePages + missingTables vmm pml4 (slot count) = vmm.pmm.freePages ∧
      missingTables after pml4 (slot count) = 0 ∧
      ∀ path : List (Fin 512), path.length < 4 → path ∉ upperPaths (slot count) →
        walk present after.frames pml4 path = walk present vmm.frames pml4 path := by
  obtain ⟨page, middle, taken, grown, found, fewer, walks⟩ := wrapped.grow booted held low enough
  obtain ⟨after, freed, back, more, same⟩ := grown.giveBack booted (Nat.lt_succ_self count) found
  have tables : SameTables pml4 middle after := fun path short => by rw [same path short]
  refine ⟨after, (Leads.vallocs taken).trans (Leads.vfrees freed), back, by omega, ?_,
    fun path short apart => (same path short).trans (walks path short apart)⟩
  rw [tables.missingTables]
  exact missingTables_region found rfl

/-- One call or two calls for the next page of the heap, whose tables exist already. -/
def Turn (pml4 last other : Nat) (first : Vmm) (cost : Nat) : Prop :=
  ∀ {count : Nat} {vmm : Vmm}, Wrapped pml4 last other first count vmm → count < windowPages →
    missingTables vmm pml4 (slot count) = 0 → 2 ≤ vmm.pmm.freePages →
    ∃ after, Leads vmm after ∧ Wrapped pml4 last other first (count + 1) after ∧
      after.pmm.freePages + cost = vmm.pmm.freePages ∧ SameTables pml4 vmm after

omit wrapped in
/-- Allocating the next page costs one page. -/
theorem turn_grow : Turn pml4 last other first 1 := by
  intro count vmm wrapped low complete enough
  obtain ⟨page, after, taken, grown, found, fewer, walks⟩ :=
    wrapped.grow booted held low (by omega)
  exact ⟨after, .vallocs taken, grown, by omega,
    .of_complete complete (missingTables_region found rfl) walks⟩

omit wrapped in
/-- Allocating the next page and giving it back costs nothing. -/
theorem turn_cycle : Turn pml4 last other first 0 := by
  intro count vmm wrapped low complete enough
  obtain ⟨after, leads, back, fewer, kept, walks⟩ := wrapped.cycle booted held low (by omega)
  exact ⟨after, leads, back, by omega, .of_complete complete kept walks⟩

omit booted held in
/-- Turns inside one region of the heap whose tables exist. -/
theorem Wrapped.turns {cost : Nat} (turn : Turn pml4 last other first cost) (times : Nat)
    (region : count % 512 + times ≤ 512) (window : count + times ≤ windowPages)
    (complete : 0 < times → missingTables vmm pml4 (slot count) = 0)
    (enough : cost * times + 2 ≤ vmm.pmm.freePages + cost) :
    ∃ after, Leads vmm after ∧ Wrapped pml4 last other first (count + times) after ∧
      after.pmm.freePages + cost * times = vmm.pmm.freePages ∧ SameTables pml4 vmm after := by
  induction times generalizing count vmm with
  | zero => exact ⟨vmm, .refl vmm, wrapped, by omega, fun _ _ => Iff.rfl⟩
  | succ times ih =>
      have here := complete (Nat.succ_pos times)
      rw [Nat.mul_succ] at enough ⊢
      obtain ⟨middle, leads, next, fewer, tables⟩ := turn wrapped (by omega) here (by omega)
      obtain ⟨after, leads', last, left, tables'⟩ := ih next (by omega) (by omega)
        (fun more => by
          rw [tables.missingTables, ← here]
          exact missingTables_slot vmm pml4 (by omega) (by omega) (by omega)) (by omega)
      refine ⟨after, leads.trans leads', ?_, by omega, tables.trans tables'⟩
      rwa [Nat.add_assoc, Nat.add_comm 1] at last

/-- Allocations of one page take the free pages down to a limit. -/
theorem Wrapped.drain {limit pages : Nat} (five : 5 ≤ limit) (free : vmm.pmm.freePages = pages)
    (above : limit ≤ pages) (window : count + pages ≤ windowPages) :
    ∃ count' after, Leads vmm after ∧ Wrapped pml4 last other first count' after ∧
      limit ≤ after.pmm.freePages ∧ after.pmm.freePages < limit + 4 ∧ count' ≤ count + pages := by
  induction pages using Nat.strong_induction_on generalizing count vmm with
  | _ pages ih =>
      rcases Nat.lt_or_ge pages (limit + 4) with low | high
      · exact ⟨count, vmm, .refl vmm, wrapped, by omega, by omega, Nat.le_add_right _ _⟩
      · have few := missingTables_le vmm pml4 (slot count)
        obtain ⟨page, middle, taken, grown, _, fewer, _⟩ :=
          wrapped.grow booted held (by omega) (by omega)
        obtain ⟨count', after, leads, drained, lower, upper, place⟩ :=
          ih middle.pmm.freePages (by omega) grown rfl (by omega) (by omega)
        exact ⟨count', after, (Leads.vallocs taken).trans leads, drained, lower, upper, by omega⟩

/-- The heap moves on to the start of its next region, at the cost of the tables of one region. -/
theorem Wrapped.nextRegion (five : 5 ≤ vmm.pmm.freePages) (window : count + 512 ≤ windowPages) :
    ∃ count' after, Leads vmm after ∧ Wrapped pml4 last other first count' after ∧
      vmm.pmm.freePages ≤ after.pmm.freePages + 3 ∧ after.pmm.freePages ≤ vmm.pmm.freePages ∧
      count' % 512 = 0 ∧ count' ≤ count + 512 := by
  have few := missingTables_le vmm pml4 (slot count)
  obtain ⟨middle, leads, next, fewer, kept, _⟩ := wrapped.cycle booted held (by omega) (by omega)
  obtain ⟨after, leads', last, left, _⟩ := next.turns (turn_cycle booted held)
    ((512 - (count + 1) % 512) % 512) (by omega) (by omega)
    (fun more => by
      rw [← kept]
      exact missingTables_slot middle pml4 (by omega) (by omega) (by omega)) (by omega)
  exact ⟨_, after, leads.trans leads', last, by omega, by omega, by omega, by omega⟩

/-- Calls lead to the start of a region with free pages for one page of the heap and its tables, so
that the last of these tables takes the last frame. -/
theorem Wrapped.corner (many : 16 ≤ vmm.pmm.freePages)
    (window : count + vmm.pmm.freePages + 2048 ≤ windowPages) :
    ∃ count' after, Leads vmm after ∧ Wrapped pml4 last other first count' after ∧
      count' % 512 = 0 ∧ count' + 512 ≤ windowPages ∧
      after.pmm.freePages = missingTables after pml4 (slot count') + 1 := by
  obtain ⟨c1, v1, leads, wrapped, lower, upper, place⟩ :=
    wrapped.drain booted held (show 5 ≤ 16 by decide) rfl many (by omega)
  obtain ⟨c2, v2, leads', wrapped, fewer, _, start, place'⟩ :=
    wrapped.nextRegion booted held (by omega) (by omega)
  have few := missingTables_le v2 pml4 (slot c2)
  obtain ⟨v3, leads'', wrapped, fewer', kept, _⟩ := wrapped.cycle booted held (by omega) (by omega)
  -- The tables that the next region lacks from now on.
  have lacks := missingTables_le v3 pml4 (slot (c2 + 512))
  have positive : missingTables v3 pml4 (slot (c2 + 512)) ≠ 0 := fun complete =>
    upperPaths_present complete (by simp [upperPaths, tableOf]) (wrapped.bare (c2 + 512) (by omega) (by omega))
  generalize lacking : missingTables v3 pml4 (slot (c2 + 512)) = lack at lacks positive
  obtain ⟨v4, burning, wrapped, burnt, tables⟩ := wrapped.turns (turn_grow booted held)
    (v3.pmm.freePages - (lack + 1)) (by omega) (by omega)
    (fun more => by
      rw [← kept]
      exact missingTables_slot v3 pml4 (by omega) (by omega) (by omega)) (by omega)
  obtain ⟨v5, moving, wrapped, left, tables'⟩ := wrapped.turns (turn_cycle booted held)
    (512 - (c2 + 1 + (v3.pmm.freePages - (lack + 1))) % 512) (by omega) (by omega)
    (fun more => by
      rw [tables.missingTables, ← kept]
      exact missingTables_slot v3 pml4 (by omega) (by omega) (by omega)) (by omega)
  have place'' : c2 + 1 + (v3.pmm.freePages - (lack + 1)) +
      (512 - (c2 + 1 + (v3.pmm.freePages - (lack + 1))) % 512) = c2 + 512 := by omega
  rw [place''] at wrapped
  refine ⟨c2 + 512, v5, leads.trans (leads'.trans (leads''.trans (burning.trans moving))), wrapped,
    by omega, by omega, ?_⟩
  rw [(tables.trans tables').missingTables, lacking]
  omega

end Wrapped

end ArchaOS.VirtualMemory
