import ArchaOS.Proof.PhysicalMemory.Init
import ArchaOS.Proof.VirtualMemory.MapPage
import ArchaOS.Proof.VirtualMemory.Ranges

namespace ArchaOS.VirtualMemory

open Library PhysicalMemory RadixTree

/-- The entry of a table is 0 when it is not present. -/
def Tidy (pml4 : Nat) (vmm : Vmm) : Prop :=
  Every present (fun entry => present entry = none → entry = 0) vmm.frames pml4 4

/-- New tables are tidy. -/
theorem Tidy.grown {pml4 : Nat} {vmm after : Vmm} (tidy : Tidy pml4 vmm)
    (grown : Grown pml4 vmm after) : Tidy pml4 after := by
  refine grown.every _ 4 le_rfl (fun _ => rfl) ?_ tidy
  intro phys missing
  rw [present_tableEntry] at missing
  cases missing

/-- The state in which a free page has become an empty root table. -/
def Vmm.addRoot (vmm : Vmm) (page : Nat) : Vmm :=
  { vmm with pmm := markUsed vmm.pmm page }.clear (page * pageSize)

/-- The new root is empty. -/
theorem addRoot_frames (vmm : Vmm) (page : Nat) (index : Fin 512) :
    (vmm.addRoot page).frames (page * pageSize) index = 0 := by
  simp [Vmm.addRoot, Vmm.clear]

/-- An empty root table is a tree of its own. -/
theorem addRoot_tables {vmm : Vmm} (small : ∀ page, pageUsed vmm.pmm page = false → page < 2 ^ 40)
    (page : Nat) :
    Tables (page * pageSize) (vmm.addRoot page) ∧ Tidy (page * pageSize) (vmm.addRoot page) ∧
      ∀ path, walk present (vmm.addRoot page).frames (page * pageSize) path =
        if path = [] then some (page * pageSize) else none := by
  have bare : ∀ index, present ((vmm.addRoot page).frames (page * pageSize) index) = none := by
    intro index
    rw [addRoot_frames, present_zero]
  obtain ⟨tree, walks⟩ : Tree present (vmm.addRoot page).frames (page * pageSize) 4 ∧ _ :=
    Tree.single bare
  have only {frame level : Nat}
      (holds : Holds present (vmm.addRoot page).frames (page * pageSize) level frame) :
      frame = page * pageSize := by
    obtain ⟨path, _, reached⟩ := holds
    rw [walks] at reached
    split at reached
    · exact (Option.some.inj reached).symm
    · cases reached
  refine ⟨⟨tree, ?_, ?_⟩, ?_, walks⟩
  · intro frame table
    rw [only table, page_quotient]
    change pageUsed (markUsed vmm.pmm page) page = true
    rw [pageUsed_markUsed, decide_eq_true rfl, Bool.true_or]
  · intro other unused
    change pageUsed (markUsed vmm.pmm page) other = false at unused
    rw [pageUsed_markUsed, Bool.or_eq_false_iff] at unused
    exact small other unused.2
  · intro frame index holds _
    rw [only holds]
    exact addRoot_frames vmm page index

/-- The loop of `init_vmm` that fills its last table. -/
theorem fillTable_spec {pml4 pt : Nat} {path : List (Fin 512)} (last : path.length + 1 = 4)
    (indices : List (Fin 512)) {vmm : Vmm} (valid : Tables pml4 vmm)
    (reached : walk present vmm.frames pml4 path = some pt) :
    Tables pml4 (indices.foldl
        (fun vmm i => vmm.store pt i ((i.val * pageSize) ||| ptePresent ||| pteRw)) vmm) ∧
      Grown pml4 vmm (indices.foldl
        (fun vmm i => vmm.store pt i ((i.val * pageSize) ||| ptePresent ||| pteRw)) vmm) ∧
      (indices.foldl
        (fun vmm i => vmm.store pt i ((i.val * pageSize) ||| ptePresent ||| pteRw)) vmm).pmm =
          vmm.pmm ∧
      (∀ address, [pml4Index address, pdptIndex address, pdIndex address] ≠ path →
        pageEntry (indices.foldl
          (fun vmm i => vmm.store pt i ((i.val * pageSize) ||| ptePresent ||| pteRw)) vmm) pml4 address =
            pageEntry vmm pml4 address) ∧
      ∀ target, target.length < 4 → walk present (indices.foldl
          (fun vmm i => vmm.store pt i ((i.val * pageSize) ||| ptePresent ||| pteRw)) vmm).frames
            pml4 target = walk present vmm.frames pml4 target := by
  induction indices generalizing vmm with
  | nil => exact ⟨valid, Grown.refl pml4 vmm, rfl, fun _ _ => rfl, fun _ _ => rfl⟩
  | cons index rest ih =>
      have entry : (index.val * pageSize) ||| ptePresent ||| pteRw =
          tableEntry (index.val * pageSize) := by
        rw [tableEntry, addrMask_page (by omega)]
      rw [List.foldl_cons, entry]
      have stored := valid.put index (tableEntry (index.val * pageSize)) reached last
      have grown := valid.put_grown index reached last
        (fun good _ made => made (index.val * pageSize))
      have still : walk present (vmm.store pt index (tableEntry (index.val * pageSize))).frames pml4
          path = some pt := by
        rw [← reached]
        exact walk_put_short valid.tree reached last path (by omega)
      obtain ⟨valid', secondGrown, pages, entries, walks⟩ := ih stored still
      refine ⟨valid', grown.trans secondGrown, pages, fun address apart => ?_, fun target short => ?_⟩
      · rw [entries address apart]
        have put : pageEntry (vmm.store pt index (tableEntry (index.val * pageSize))) pml4 address = _ :=
          entryAt_put valid.tree reached last [pml4Index address, pdptIndex address, pdIndex address] rfl
            (ptIndex address)
        rw [put, if_neg fun same => apart same.1]
        rfl
      · rw [walks target short]
        exact walk_put_short valid.tree reached last target short

/-- A page that is free after another one was taken is a different page. -/
theorem free_after_markUsed {pmm : Pmm} {page other : Nat}
    (free : pageUsed (markUsed pmm page) other = false) :
    other ≠ page ∧ pageUsed pmm other = false := by
  rw [pageUsed_markUsed, Bool.or_eq_false_iff] at free
  exact ⟨of_decide_eq_false free.1, free.2⟩

/-- Different pages have different frames. -/
theorem frames_apart {first second : Nat} (different : first ≠ second) :
    first * pageSize ≠ second * pageSize := by
  unfold pageSize
  omega

/-- Clearing one frame and storing into another can be swapped. -/
theorem clear_store (vmm : Vmm) {table frame : Nat} (different : table ≠ frame) (index : Fin 512)
    (entry : Nat) :
    (vmm.store table index entry).clear frame = (vmm.clear frame).store table index entry := by
  have same : (vmm.store table index entry).clear frame =
      { vmm with frames := Function.update (write vmm.frames table index entry) frame fun _ => 0 } := rfl
  have other := clear_other vmm different
  rw [same]
  unfold Vmm.store
  congr 1
  unfold write
  rw [other]
  exact Function.update_comm different _ _ _

section FirstTables

variable {vmm : Vmm} (small : ∀ page, pageUsed vmm.pmm page = false → page < 2 ^ 40)
  {root first second third : Nat} (free : pageUsed (markUsed vmm.pmm root) first = false)
  (secondFree : pageUsed (markUsed (markUsed vmm.pmm root) first) second = false)
  (thirdFree : pageUsed (markUsed (markUsed (markUsed vmm.pmm root) first) second) third = false)
include small free secondFree thirdFree

/-- Three tables below a new root. -/
theorem chain_spec :
    let tables := (((vmm.addRoot root).addTable (root * pageSize) 0 first).addTable
      (first * pageSize) 0 second).addTable (second * pageSize) 0 third
    Tables (root * pageSize) tables ∧ Grown (root * pageSize) (vmm.addRoot root) tables ∧
      walk present tables.frames (root * pageSize) [0, 0, 0] = some (third * pageSize) ∧
      (∀ address, pageEntry tables (root * pageSize) address =
        pageEntry (vmm.addRoot root) (root * pageSize) address) ∧
      ∀ target, target.length ≤ 4 → target ∉ [[0], [0, 0], [0, 0, 0]] →
        walk present tables.frames (root * pageSize) target =
          walk present (vmm.addRoot root).frames (root * pageSize) target := by
  obtain ⟨valid, _, walks⟩ := addRoot_tables small root
  obtain ⟨valid, grown, reached, empty, entries, others⟩ := valid.addTable_deeper ((walks []).trans (if_pos rfl))
    (by decide) (show pageUsed (vmm.addRoot root).pmm first = false from free)
    ((walks ([] ++ [0])).trans (if_neg (by decide)))
  obtain ⟨valid, secondGrown, reached, empty, secondEntries, secondOthers⟩ :=
    valid.addTable_deeper reached (by decide) secondFree (empty 0)
  obtain ⟨valid, thirdGrown, reached, _, thirdEntries, thirdOthers⟩ :=
    valid.addTable_deeper reached (by decide) thirdFree (empty 0)
  refine ⟨valid, (grown.trans secondGrown).trans thirdGrown, reached, fun address => ?_,
    fun target small apart => ?_⟩
  · exact (thirdEntries address).trans ((secondEntries address).trans (entries address))
  · simp only [List.mem_cons, List.not_mem_nil, or_false, not_or] at apart
    rw [thirdOthers target small apart.2.2, secondOthers target small apart.2.1,
      others target small apart.1]

/-- The stores of `init_vmm` build the same three tables. -/
theorem chain_eq :
    ((((((({ vmm with
      pmm := markUsed (markUsed (markUsed (markUsed vmm.pmm root) first) second) third } : Vmm).clear
      (root * pageSize)).clear (first * pageSize)).clear (second * pageSize)).clear
      (third * pageSize)).store (root * pageSize) 0
      ((first * pageSize) ||| ptePresent ||| pteRw)).store (first * pageSize) 0
      ((second * pageSize) ||| ptePresent ||| pteRw)).store (second * pageSize) 0
      ((third * pageSize) ||| ptePresent ||| pteRw) =
    (((vmm.addRoot root).addTable (root * pageSize) 0 first).addTable
      (first * pageSize) 0 second).addTable (second * pageSize) 0 third := by
  obtain ⟨apart, free⟩ := free_after_markUsed free
  obtain ⟨first_second, secondFree⟩ := free_after_markUsed secondFree
  obtain ⟨root_second, secondFree⟩ := free_after_markUsed secondFree
  obtain ⟨second_third, thirdFree⟩ := free_after_markUsed thirdFree
  obtain ⟨first_third, thirdFree⟩ := free_after_markUsed thirdFree
  obtain ⟨root_third, thirdFree⟩ := free_after_markUsed thirdFree
  have entry {page : Nat} (low : page < 2 ^ 40) :
      (page * pageSize) ||| ptePresent ||| pteRw = tableEntry (page * pageSize) := by
    rw [tableEntry, addrMask_page low]
  rw [entry (small first free), entry (small second secondFree), entry (small third thirdFree)]
  generalize pages : markUsed (markUsed (markUsed (markUsed vmm.pmm root) first) second) third = pmm
  have order : (((vmm.addRoot root).addTable (root * pageSize) 0 first).addTable
      (first * pageSize) 0 second).addTable (second * pageSize) 0 third =
      ((((((({ vmm with pmm := pmm } : Vmm).clear (root * pageSize)).clear
        (first * pageSize)).store (root * pageSize) 0 (tableEntry (first * pageSize))).clear
        (second * pageSize)).store (first * pageSize) 0 (tableEntry (second * pageSize))).clear
        (third * pageSize)).store (second * pageSize) 0 (tableEntry (third * pageSize)) := by
    rw [← pages]
    rfl
  rw [order, clear_store _ (frames_apart root_second.symm), clear_store _ (frames_apart first_third.symm),
    clear_store _ (frames_apart root_third.symm)]

end FirstTables

/-- The last of the first tables covers the first two megabytes. -/
theorem lowIndices {address : Nat} (above : 512 ≤ pageKey address) :
    [pml4Index address, pdptIndex address, pdIndex address] ≠ [0, 0, 0] := by
  intro same
  simp only [List.cons.injEq, and_true, Fin.ext_iff, pml4Index, pdptIndex, pdIndex,
    tableIndex_val] at same
  unfold pageKey pageSize at above
  obtain ⟨top, middle, bottom⟩ := same
  change _ = 0 at top middle bottom
  omega

/-- The first part of `init_vmm` leaves a tree of tables that maps the first two megabytes only. -/
theorem firstTables_spec {vmm after : Vmm} {pml4 : Nat}
    (small : ∀ page, pageUsed vmm.pmm page = false → page < 2 ^ 40)
    (result : firstTables vmm = .ok (pml4, after)) :
    ∃ page, pml4 = page * pageSize ∧ pageUsed vmm.pmm page = false ∧ Tables pml4 after ∧
      Grown pml4 (vmm.addRoot page) after ∧ after.pmm = pallocs 4 vmm.pmm ∧
      (∀ address, 512 ≤ pageKey address → lookup after pml4 address = none) ∧
      ∀ target, target.length < 4 → target ∉ [[], [0], [0, 0], [0, 0, 0]] →
        walk present after.frames pml4 target = none := by
  unfold firstTables at result
  dsimp only at result
  split at result
  · cases result
  · rename_i present
    rw [not_or, not_or, not_or] at present
    obtain ⟨success, firstSuccess, secondSuccess, thirdSuccess⟩ := present
    obtain ⟨root, _, rootFree, taken⟩ := palloc_taken success
    rw [taken] at firstSuccess secondSuccess thirdSuccess result
    obtain ⟨first, _, free, firstTaken⟩ := palloc_taken firstSuccess
    dsimp only at firstTaken
    rw [firstTaken] at secondSuccess thirdSuccess result
    obtain ⟨second, _, secondFree, secondTaken⟩ := palloc_taken secondSuccess
    dsimp only at secondTaken
    rw [secondTaken] at thirdSuccess result
    obtain ⟨third, _, thirdFree, thirdTaken⟩ := palloc_taken thirdSuccess
    dsimp only at thirdTaken
    rw [thirdTaken] at result
    dsimp only at result
    rw [chain_eq small free secondFree thirdFree, Except.ok.injEq, Prod.mk.injEq] at result
    obtain ⟨rfl, rfl⟩ := result
    obtain ⟨valid, grown, reached, entries, walked⟩ := chain_spec small free secondFree thirdFree
    obtain ⟨filled, secondGrown, pages, others, filledWalks⟩ :=
      fillTable_spec (by decide) (List.finRange 512) valid reached
    obtain ⟨_, _, walks⟩ := addRoot_tables small root
    refine ⟨root, rfl, rootFree, filled, grown.trans secondGrown, pages.trans ?_, ?_, ?_⟩
    · simp only [pallocs, taken, firstTaken, secondTaken, thirdTaken]
      rfl
    · intro address above
      rw [lookup_eq, others address (lowIndices above), entries, ← lookup_eq, lookup, walks,
        if_neg (by simp [tablePath])]
    · intro target short apart
      rw [List.mem_cons, not_or] at apart
      rw [filledWalks target short, walked target short.le apart.2, walks, if_neg apart.1]

/-- The first part of `init_vmm` returns when four pages can be allocated. -/
theorem firstTables_returns {vmm : Vmm} (room : Room 4 vmm.pmm) :
    ∃ result, firstTables vmm = .ok result := by
  have success := room 0 (by decide)
  have firstSuccess := room 1 (by decide)
  have secondSuccess := room 2 (by decide)
  have thirdSuccess := room 3 (by decide)
  simp only [pallocs] at success firstSuccess secondSuccess thirdSuccess
  unfold firstTables
  simp only [success, firstSuccess, secondSuccess, thirdSuccess, or_self, if_false]
  exact ⟨_, rfl⟩

def identityRange (base size : Nat) : Range := ⟨base, base, size⟩

/-- The calls of `map_range` for the descriptors. -/
def conventionalRanges (descriptors : List EfiMemoryDescriptor) : List Range :=
  (descriptors.filter fun desc => desc.type = efiConventionalMemory).map fun desc =>
    identityRange desc.physicalStart (mul64 desc.numberOfPages pageSize)

/-- The loop over the descriptors maps their ranges. -/
theorem mapConventional_loop (pml4 : Nat) (descriptors : List EfiMemoryDescriptor) (vmm : Vmm) :
    descriptors.foldlM (mapConventional pml4) vmm =
      mapRanges pml4 vmm (conventionalRanges descriptors) := by
  induction descriptors generalizing vmm with
  | nil => rfl
  | cons desc rest ih =>
      rw [List.foldlM_cons, mapConventional, conventionalRanges]
      by_cases conventional : desc.type = efiConventionalMemory
      · rw [if_pos conventional, List.filter_cons_of_pos (by simpa using conventional), List.map_cons,
          mapRanges, List.foldlM_cons]
        exact congrArg _ (funext ih)
      · rw [if_neg conventional, List.filter_cons_of_neg (by simpa using conventional)]
        exact ih vmm

/-- The ranges of the boot record that `init_vmm` maps before the passthru window. -/
def Machine.earlyRanges (machine : Machine) : List Range :=
  [⟨machine.boot.kernelPhysicalAddressStart, machine.boot.kernelVirtualAddress,
      machine.boot.kernelSize⟩,
    identityRange (sub64 (machine.rsp &&& pageMask) (16 * pageSize)) (32 * pageSize),
    identityRange (sub64 (machine.rip &&& pageMask) pageSize) (pageSize * 10),
    identityRange machine.boot.framebufferBase machine.boot.framebufferSize]

/-- The ranges that `init_vmm` maps for the interrupt controller. -/
def Machine.apicRanges (machine : Machine) : List Range :=
  if machine.supportApic then
    conventionalRanges machine.boot.map.descriptors ++ [identityRange machine.apicBase 0x4000]
  else []

/-- The ranges that `init_vmm` maps after the passthru window. -/
def Machine.lateRanges (machine : Machine) : List Range :=
  identityRange machine.boot.initramfsAddress machine.boot.initramfsSize ::
    (machine.apicRanges ++
      [identityRange (machine.bootAddr &&& pageMask) pageSize,
        identityRange (machine.boot.memoryMap &&& pageMask)
          (add64 machine.boot.map.size (machine.boot.memoryMap &&& (pageSize - 1)))])

/-- The calls of `map_range` that `init_vmm` makes. -/
def Machine.ranges (machine : Machine) (maxPhysicalAddress : Nat) : List Range :=
  machine.earlyRanges ++ ⟨0, passthruBase, maxPhysicalAddress⟩ :: machine.lateRanges

/-- `init_vmm` makes the first tables and then maps its ranges. -/
theorem initVmm_eq (machine : Machine) (vmm : Vmm) :
    initVmm machine vmm = firstTables vmm >>= fun first =>
      mapRanges first.1 first.2 (machine.ranges first.2.pmm.maxPhysicalAddress) >>= fun last =>
        .ok { last with cr3 := first.1 } := by
  unfold initVmm
  refine congrArg _ (funext fun first => ?_)
  obtain ⟨pml4, first⟩ := first
  simp only [Machine.ranges, Machine.earlyRanges, Machine.lateRanges, identityRange,
    List.cons_append, List.nil_append, mapRanges_cons, bind_assoc]
  refine bind_congr_ok fun kernel mapped => ?_
  refine bind_congr_ok fun stack stackMapped => ?_
  refine bind_congr_ok fun rip ripMapped => ?_
  refine bind_congr_ok fun framebuffer framebufferMapped => ?_
  have layout := (mapRange_layout framebufferMapped).trans ((mapRange_layout ripMapped).trans
    ((mapRange_layout stackMapped).trans (mapRange_layout mapped)))
  rw [layout.maxPhysicalAddress]
  refine bind_congr_ok fun passthru _ => ?_
  refine bind_congr_ok fun initramfs _ => ?_
  rw [mapRanges_append, Machine.apicRanges]
  split
  · simp only [mapConventional_loop, mapRanges_append, mapRanges_cons, mapRanges_nil, identityRange,
      bind_assoc]
    rfl
  · simp only [mapRanges_cons, mapRanges_nil, bind_assoc]
    rfl

/-- The memory that the firmware maps one to one ends in the lower half of the address space, which
is all that four levels of tables can map so. -/
structure LoadedMachine extends Machine where
  low : ∀ index, (boot.map.descriptor index).type = efiConventionalMemory →
    (boot.map.descriptor index).physicalStart +
      (boot.map.descriptor index).numberOfPages * pageSize ≤ 2 ^ 47

/-- The end of the conventional memory. -/
def LoadedMachine.top (machine : LoadedMachine) : Nat :=
  machine.boot.map.descriptors.foldl topAddress 0

/-- The end of memory is zero or the end of a conventional range. -/
theorem topAddress_keeps (good : Nat → Prop) {descriptors : List EfiMemoryDescriptor} {highest : Nat}
    (start : good highest)
    (each : ∀ desc ∈ descriptors, desc.type = efiConventionalMemory →
      good (add64 desc.physicalStart (mul64 desc.numberOfPages pageSize))) :
    good (descriptors.foldl topAddress highest) := by
  induction descriptors generalizing highest with
  | nil => exact start
  | cons desc rest ih =>
      obtain ⟨here, later⟩ := List.forall_mem_cons.mp each
      refine ih ?_ later
      unfold topAddress
      split
      · rename_i conventional
        rcases max_choice highest (add64 desc.physicalStart (mul64 desc.numberOfPages pageSize)) with
          same | same
        · rw [same]
          exact start
        · rw [same]
          exact here conventional
      · exact start

/-- Memory ends in the lower half. -/
theorem LoadedMachine.top_le (machine : LoadedMachine) : machine.top ≤ 2 ^ 47 := by
  refine topAddress_keeps (fun top => top ≤ 2 ^ 47) (Nat.zero_le _) ?_
  intro desc member conventional
  obtain ⟨index, _, rfl⟩ := List.mem_map.mp member
  have low := machine.low index conventional
  rw [mul64_eq (by omega), add64_eq (by omega)]
  exact low

/-- Taking a free page and freeing it again restores the bitmap. -/
theorem pageUsed_restored {pmm : Pmm} {page : Nat} (inside : page < pmm.maxPages)
    (free : pageUsed pmm page = false) (other : Nat) :
    pageUsed (markFree (markUsed pmm page) page) other = pageUsed pmm other := by
  rw [pageUsed_markFree, pageUsed_markUsed, (markUsed_layout pmm page).maxPages]
  by_cases same : other = page
  · simp [same, inside, free]
  · simp [same]

/-- The check of the page manager leaves its pages as `init_pmm` made them. -/
theorem testPpmFunc_spec {map : MemoryMap} {old : PackedBits.Bytes} {start pmm : Pmm}
    (result : testPpmFunc map old start = .ok pmm) :
    ∃ initial, Initialised map initial ∧ SameLayout pmm initial ∧ Ready pmm ∧
      ∀ page, pageUsed pmm page = pageUsed initial page := by
  unfold testPpmFunc at result
  dsimp only at result
  split at result
  · cases result
  · rw [bind_eq_ok] at result
    obtain ⟨initial, initialised, result⟩ := result
    rw [mapError_eq_ok] at initialised
    have initialised := initPmm_initialised initialised
    split at result
    · cases result
    · rename_i success
      obtain ⟨page, inside, free, taken⟩ := palloc_taken success
      rw [taken] at result
      dsimp only at result
      split at result
      · cases result
      · obtain rfl := Except.ok.inj result
        rw [pfree, page_quotient]
        exact ⟨initial, initialised, (markFree_layout _ _).trans (markUsed_layout _ _),
          (initialised.ready.markUsed page).markFree page, pageUsed_restored inside free⟩

/-- The state that `init_vmm` leaves. -/
structure Booted (pml4 : Nat) (vmm : Vmm) : Prop where
  cr3 : vmm.cr3 = pml4
  root : pml4 &&& pteAddrMask = pml4
  tables : Tables pml4 vmm
  tidy : Tidy pml4 vmm
  ready : Ready vmm.pmm
  zero : pageUsed vmm.pmm 0 = true
  few : vmm.pmm.maxPages ≤ 2 ^ 35
  low : ∀ frame, IsTable vmm pml4 frame → frame / pageSize < vmm.pmm.maxPages
  nextVirt : vmm.nextVirt = kheapBase

/-- `init_vmm` on the pages that `init_pmm` left: the page of the root, the state after the first
tables and the state after the calls of `map_page`. -/
structure Made (machine : LoadedMachine) (vmm : Vmm) (page : Nat) (first last : Vmm) : Prop where
  ready : Ready vmm.pmm
  small : ∀ page, pageUsed vmm.pmm page = false → page < 2 ^ 40
  zero : pageUsed vmm.pmm 0 = true
  few : vmm.pmm.maxPages ≤ 2 ^ 35
  nextVirt : vmm.nextVirt = kheapBase
  root : pageUsed vmm.pmm page = false
  valid : Tables (page * pageSize) first
  grown : Grown (page * pageSize) (vmm.addRoot page) first
  paid : first.pmm = pallocs 4 vmm.pmm
  blank : ∀ address, 512 ≤ pageKey address → lookup first (page * pageSize) address = none
  bare : ∀ target, target.length < 4 → target ∉ [[], [0], [0, 0], [0, 0, 0]] →
    walk present first.frames (page * pageSize) target = none
  mapped : mapPages (page * pageSize) first ((machine.ranges machine.top).flatMap Range.pages) = .ok last
  top : last.pmm.maxPhysicalAddress = machine.top

/-- `init_memory` runs `init_vmm` on the pages that `init_pmm` left. -/
theorem initMemory_made {machine : LoadedMachine} {old : PackedBits.Bytes}
    {frames : Nat → Fin 512 → Nat} {uefiCr3 : Nat} {start : Pmm} {vmm : Vmm}
    (result : initMemory machine.toMachine old frames uefiCr3 start = .ok vmm) :
    ∃ pmm page first last, testPpmFunc machine.boot.map old start = .ok pmm ∧
      Made machine ⟨pmm, frames, kheapBase, uefiCr3⟩ page first last ∧
      vmm = { last with cr3 := page * pageSize } := by
  rw [initMemory, bind_eq_ok] at result
  obtain ⟨pmm, tested, result⟩ := result
  obtain ⟨initial, initialised, layout, ready, used⟩ := testPpmFunc_spec tested
  have top : pmm.maxPhysicalAddress = machine.top :=
    layout.maxPhysicalAddress.trans initialised.maxPhysicalAddress
  have few : pmm.maxPages ≤ 2 ^ 35 := by
    have bound := machine.top_le
    rw [ready.maxPages, top]
    unfold pageSize
    omega
  have small : ∀ page, pageUsed pmm page = false → page < 2 ^ 40 := by
    intro page free
    have inside := free_lt free
    omega
  have zero : pageUsed pmm 0 = true := by
    rw [used, initialised.pageUsed]
    simp
  rw [initVmm_eq, bind_eq_ok] at result
  obtain ⟨⟨pml4, first⟩, tables, result⟩ := result
  rw [bind_eq_ok] at result
  obtain ⟨last, mapped, same⟩ := result
  obtain rfl := Except.ok.inj same
  obtain ⟨page, rfl, root, valid, grown, paid, blank, bare⟩ := firstTables_spec small tables
  have firstTop : first.pmm.maxPhysicalAddress = machine.top :=
    grown.layout.maxPhysicalAddress.trans
      ((markUsed_layout pmm page).maxPhysicalAddress.trans top)
  dsimp only at mapped
  rw [firstTop] at mapped
  obtain ⟨pages, _⟩ := mapRanges_ok.mp mapped
  have lastTop := (mapPages_spec valid pages).2.layout.maxPhysicalAddress.trans firstTop
  exact ⟨pmm, page, first, last, tested,
    ⟨ready, small, zero, few, rfl, root, valid, grown, paid, blank, bare, pages, lastTop⟩, rfl⟩

section Made

variable {machine : LoadedMachine} {vmm first last : Vmm} {page : Nat}
  (made : Made machine vmm page first last)
include made

/-- From the empty root on, tables were added out of free pages only. -/
theorem Made.all : Grown (page * pageSize) (vmm.addRoot page) last :=
  made.grown.trans (mapPages_spec made.valid made.mapped).2

/-- Every table lies in a page of the manager. -/
theorem Made.low (frame : Nat) (table : IsTable last (page * pageSize) frame) :
    frame / pageSize < last.pmm.maxPages := by
  obtain ⟨_, _, walks⟩ := addRoot_tables made.small page
  have size : last.pmm.maxPages = vmm.pmm.maxPages :=
    made.all.layout.maxPages.trans (markUsed_layout vmm.pmm page).maxPages
  have inside {other : Nat} (free : pageUsed vmm.pmm other = false) : other < last.pmm.maxPages := by
    rw [size]
    exact free_lt free
  rcases made.all.fresh frame table with ⟨path, _, reached⟩ | free
  · rw [walks] at reached
    split at reached
    · rw [← Option.some.inj reached, page_quotient]
      exact inside made.root
    · cases reached
  · exact inside (free_after_markUsed free).2

/-- The state that `init_vmm` made is the state that it leaves. -/
theorem Made.booted : Booted (page * pageSize) { last with cr3 := page * pageSize } := by
  obtain ⟨valid, _⟩ := mapPages_spec made.valid made.mapped
  obtain ⟨_, tidy, _⟩ := addRoot_tables made.small page
  have stillTidy := tidy.grown made.all
  refine ⟨rfl, addrMask_page (made.small page made.root), ⟨valid.tree, valid.used, valid.small⟩,
    stillTidy, made.all.ready (made.ready.markUsed page), made.all.used 0 ?_, ?_, made.low,
    made.all.nextVirt.trans made.nextVirt⟩
  · change pageUsed (markUsed vmm.pmm page) 0 = true
    rw [pageUsed_markUsed, made.zero, Bool.or_true]
  · change last.pmm.maxPages ≤ 2 ^ 35
    rw [made.all.layout.maxPages]
    change (markUsed vmm.pmm page).maxPages ≤ 2 ^ 35
    rw [(markUsed_layout vmm.pmm page).maxPages]
    exact made.few

end Made

/-- `init_memory` makes tables and maps its ranges in them. -/
theorem initMemory_spec {machine : LoadedMachine} {old : PackedBits.Bytes}
    {frames : Nat → Fin 512 → Nat} {uefiCr3 : Nat} {start : Pmm} {vmm : Vmm}
    (result : initMemory machine.toMachine old frames uefiCr3 start = .ok vmm) :
    ∃ pml4 first last, Tables pml4 first ∧
      (∀ address, 512 ≤ pageKey address → lookup first pml4 address = none) ∧
      mapPages pml4 first ((machine.ranges machine.top).flatMap Range.pages) = .ok last ∧
      vmm = { last with cr3 := pml4 } ∧ last.pmm.maxPhysicalAddress = machine.top ∧
      Booted pml4 vmm := by
  obtain ⟨_, page, first, last, _, made, rfl⟩ := initMemory_made result
  exact ⟨page * pageSize, first, last, made.valid, made.blank, made.mapped, rfl, made.top, made.booted⟩

end ArchaOS.VirtualMemory
