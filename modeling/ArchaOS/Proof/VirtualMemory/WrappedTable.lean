import ArchaOS.Proof.VirtualMemory.FailedAllocation
import ArchaOS.Proof.VirtualMemory.WrappedFrame

namespace ArchaOS.VirtualMemory

open Library PhysicalMemory RadixTree

/-- An entry that names a frame is present. -/
theorem present_some {entry frame : Nat} (named : present entry = some frame) :
    entry &&& ptePresent ≠ 0 ∧ entry &&& pteAddrMask = frame := by
  unfold present at named
  split at named
  · cases named
  · exact ⟨‹_›, Option.some.inj named⟩

/-- An entry that names nothing is not present. -/
theorem present_none {entry : Nat} (missing : present entry = none) : entry &&& ptePresent = 0 := by
  by_contra found
  rw [present, if_neg found] at missing
  cases missing

/-- With one free page left `palloc` gives out the last one. -/
theorem KeepsLast.takesLast {last : Nat} {pmm : Pmm} (keeps : KeepsLast last pmm)
    (one : pmm.freePages = 1) : PhysicalMemory.palloc pmm = (last * pageSize, markUsed pmm last) := by
  have idle := keeps.free (by omega)
  rcases palloc_cases keeps.ready with ⟨page, inside, free, _, taken⟩ | ⟨full, _⟩
  · by_cases same : page = last
    · rw [taken, same]
    · have counted := markUsed_freePages keeps.ready inside free
      have still : pageUsed (markUsed pmm page) last = false := by
        rw [pageUsed_markUsed, idle, Bool.or_false]
        exact decide_eq_false fun equal => same equal.symm
      have positive := (keeps.ready.markUsed page).counted.freePages_pos (free_lt still) still
      omega
  · rw [full last] at idle
    cases idle

/-- Without a free page `palloc` fails. -/
theorem palloc_empty {pmm : Pmm} (ready : Ready pmm) (none : pmm.freePages = 0) :
    palloc pmm = (0, pmm) := by
  rcases palloc_cases ready with ⟨page, inside, free, _, _⟩ | ⟨_, failed⟩
  · have positive := ready.counted.freePages_pos inside free
    omega
  · exact failed

/-- The passthru window shares no table with the heap. -/
theorem tableOf_passthru {page index : Nat} (low : index < windowPages) (small : page < 2 ^ 35) :
    tableOf (getVirtAddr (page * pageSize)) ≠ tableOf (slot index) := by
  intro same
  have regions := tableOf_inj same
  rw [slot_region_eq low] at regions
  unfold windowPages at low
  unfold getVirtAddr add64 at regions
  unfold kheapBase passthruBase pageSize at *
  omega

/-- Exactly the addresses of a region lie behind its table. -/
theorem tableOf_within {address other : Nat} :
    tableOf address <+: tablePath other ↔ tableOf other = tableOf address := by
  simp [tableOf, tablePath, eq_comm]

/-- The state before the last table of an address is created in the last frame. -/
structure Cornered (pml4 last other index pdpt pd : Nat) (vmm : Vmm) : Prop where
  tables : Tables pml4 vmm
  root : vmm.cr3 &&& pteAddrMask = pml4
  keeps : KeepsLast last vmm.pmm
  one : vmm.pmm.freePages = 1
  reached : ∀ frame, IsTable vmm pml4 frame → Reached vmm frame
  aligned : ∀ frame, IsTable vmm pml4 frame → ∃ page < 2 ^ 35, frame = page * pageSize
  small : last < 2 ^ 35
  apart : last ≠ other
  nonzero : last ≠ 0
  old : vmm.frames (last * pageSize) = fun _ => 3
  wraps : lookup vmm pml4 (getVirtAddr (last * pageSize)) = some (other * pageSize)
  data : ¬ IsTable vmm pml4 (other * pageSize)
  first : walk present vmm.frames pml4 [pml4Index (slot index)] = some pdpt
  second : walk present vmm.frames pml4 [pml4Index (slot index), pdptIndex (slot index)] = some pd
  bare : walk present vmm.frames pml4 (tableOf (slot index)) = none
  window : index < windowPages

/-- The last frame is linked as a table with what it holds, and another frame has some entries. -/
def Vmm.linked (vmm : Vmm) (pd : Nat) (index : Fin 512) (last other : Nat) (row : Fin 512 → Nat)
    (pmm : Pmm) : Vmm :=
  { vmm with
    pmm := pmm
    frames := write (Function.update vmm.frames (other * pageSize) row) pd index
      (tableEntry (last * pageSize)) }

section Cornered

variable {pml4 last other index pdpt pd : Nat} {vmm : Vmm}
  (cornered : Cornered pml4 last other index pdpt pd vmm) (row : Fin 512 → Nat) (pmm : Pmm)
include cornered

/-- The directory is a table. -/
theorem Cornered.pdTable : IsTable vmm pml4 pd := ⟨_, by simp, cornered.second⟩

/-- The directory is not the frame that the wrapped address leads to. -/
theorem Cornered.pd_apart : pd ≠ other * pageSize :=
  fun same => cornered.data (same ▸ cornered.pdTable)

/-- The last frame is neither of them. -/
theorem Cornered.last_apart : last * pageSize ≠ pd ∧ last * pageSize ≠ other * pageSize := by
  have idle := cornered.keeps.free (by rw [cornered.one]; decide)
  refine ⟨fun same => ?_, frames_apart cornered.apart⟩
  exact cornered.tables.free_not_table idle (same ▸ cornered.pdTable)

/-- Writing into the other frame changes no table. -/
theorem Cornered.agree (table : Nat) (holds : Holds present vmm.frames pml4 4 table) :
    Function.update vmm.frames (other * pageSize) row table = vmm.frames table := by
  have apart : table ≠ other * pageSize := fun same => cornered.data (same ▸ holds)
  exact Function.update_of_ne apart _ _

/-- The link is seen on the way through it only. -/
theorem Cornered.walk_outside (target : List (Fin 512)) (bounded : target.length ≤ 4)
    (outside : ¬ tableOf (slot index) <+: target) :
    walk present (vmm.linked pd (pdIndex (slot index)) last other row pmm).frames pml4 target =
      walk present vmm.frames pml4 target := by
  have agree := cornered.agree row
  have tree := cornered.tables.tree.agree agree
  have arrived : walk present (Function.update vmm.frames (other * pageSize) row) pml4
      [pml4Index (slot index), pdptIndex (slot index)] = some pd := by
    rw [walk_agree agree _ (by simp), cornered.second]
  have hidden : walk present (vmm.linked pd (pdIndex (slot index)) last other row pmm).frames pml4
      target = _ := walk_write_outside tree arrived (by simp) target bounded outside
  rw [hidden, walk_agree agree target bounded]

/-- The walk to the new table ends in the last frame. -/
theorem Cornered.walk_link :
    walk present (vmm.linked pd (pdIndex (slot index)) last other row pmm).frames pml4
      (tableOf (slot index)) = some (last * pageSize) := by
  have agree := cornered.agree row
  have tree := cornered.tables.tree.agree agree
  have small := cornered.small
  have arrived : walk present (Function.update vmm.frames (other * pageSize) row) pml4
      [pml4Index (slot index), pdptIndex (slot index)] = some pd := by
    rw [walk_agree agree _ (by simp), cornered.second]
  have linked : walk present (vmm.linked pd (pdIndex (slot index)) last other row pmm).frames pml4
      (tableOf (slot index)) = _ := walk_write_self tree arrived (by simp)
  rw [linked, present_tableEntry, addrMask_page (by omega)]

/-- The addresses of frames in the passthru window are translated as before. -/
theorem Cornered.translate_passthru {page : Nat} (small : page < 2 ^ 35) :
    translate (vmm.linked pd (pdIndex (slot index)) last other row pmm) (getVirtAddr (page * pageSize)) =
      translate vmm (getVirtAddr (page * pageSize)) := by
  refine translate_congr rfl ?_
  rw [cornered.root]
  refine cornered.walk_outside row pmm _ le_rfl ?_
  rw [tableOf_within]
  exact tableOf_passthru cornered.window small

/-- The pointers to the old tables lead to them. -/
theorem Cornered.pointer {frame : Nat} (table : IsTable vmm pml4 frame) :
    Passthru.pageTablePtr frame (vmm.linked pd (pdIndex (slot index)) last other row pmm) =
      .ok frame := by
  obtain ⟨page, small, rfl⟩ := cornered.aligned frame table
  have reached := cornered.reached _ table
  unfold Reached at reached
  rw [Passthru.pageTablePtr, cornered.translate_passthru row pmm small, reached, Passthru.access]

omit row pmm in
/-- The address of the last frame leads to the other frame. -/
theorem Cornered.wraps_translate :
    translate vmm (getVirtAddr (last * pageSize)) = some (other * pageSize) :=
  VirtualMemory.translate_passthru cornered.root cornered.small cornered.wraps

/-- The pointer to the last frame leads to the other frame. -/
theorem Cornered.pointer_last :
    Passthru.pageTablePtr (last * pageSize)
      (vmm.linked pd (pdIndex (slot index)) last other row pmm) = .ok (other * pageSize) := by
  rw [Passthru.pageTablePtr, cornered.translate_passthru row pmm cornered.small,
    cornered.wraps_translate, Passthru.access]

/-- The other frame holds the entries that were written. -/
theorem Cornered.frames_other :
    (vmm.linked pd (pdIndex (slot index)) last other row pmm).frames (other * pageSize) = row := by
  have written : (vmm.linked pd (pdIndex (slot index)) last other row pmm).frames (other * pageSize) =
      _ := write_of_ne_frame _ cornered.pd_apart.symm _ _
  rw [written, Function.update_self]

/-- A store into the other frame changes its entries. -/
theorem Cornered.store_other (position : Fin 512) (entry : Nat) :
    (vmm.linked pd (pdIndex (slot index)) last other row pmm).store (other * pageSize) position entry =
      vmm.linked pd (pdIndex (slot index)) last other (Function.update row position entry) pmm := by
  have apart := cornered.pd_apart
  have held := cornered.frames_other row pmm
  unfold Vmm.store
  unfold write
  rw [held]
  unfold Vmm.linked write
  congr 1
  rw [Function.update_of_ne apart, Function.update_of_ne apart, Function.update_comm apart,
    Function.update_idem]

/-- The last frame keeps its contents. -/
theorem Cornered.frames_last :
    (vmm.linked pd (pdIndex (slot index)) last other row pmm).frames (last * pageSize) = fun _ => 3 := by
  obtain ⟨table, frame⟩ := cornered.last_apart
  have written : (vmm.linked pd (pdIndex (slot index)) last other row pmm).frames (last * pageSize) =
      _ := write_of_ne_frame _ table _ _
  rw [written, Function.update_of_ne frame, cornered.old]

omit row pmm in
/-- The last table of the address is created in the last frame, and the other frame is cleared. -/
theorem Cornered.nextTable (message : String) :
    Passthru.nextTable message pd (pdIndex (slot index)) vmm = .ok (last * pageSize,
      vmm.linked pd (pdIndex (slot index)) last other (fun _ => 0) (markUsed vmm.pmm last)) := by
  have missing := cornered.bare
  change walk present vmm.frames pml4
    ([pml4Index (slot index), pdptIndex (slot index)] ++ [pdIndex (slot index)]) = none at missing
  rw [walk_snoc, cornered.second, Option.bind_some] at missing
  have nonzero : last * pageSize ≠ 0 := fun zero =>
    cornered.nonzero (pages_inj (zero.trans (Nat.zero_mul _).symm))
  have here := cornered.reached pd cornered.pdTable
  have cleared : Passthru.clear (last * pageSize) { vmm with pmm := markUsed vmm.pmm last } =
      .ok (({ vmm with pmm := markUsed vmm.pmm last } : Vmm).clear (other * pageSize)) := by
    have pointer : Passthru.pageTablePtr (last * pageSize)
        { vmm with pmm := markUsed vmm.pmm last } = .ok (other * pageSize) := by
      rw [Passthru.pageTablePtr]
      change Passthru.access (translate vmm _) = _
      rw [cornered.wraps_translate, Passthru.access]
    rw [Passthru.clear, pointer]
    rfl
  have still : Reached (({ vmm with pmm := markUsed vmm.pmm last } : Vmm).clear (other * pageSize)) pd := by
    unfold Reached at here ⊢
    rw [← here]
    refine translate_congr rfl ?_
    rw [cornered.root]
    exact walk_agree (cornered.agree fun _ => 0) _ le_rfl
  have entry : tableEntry (last * pageSize) &&& pteAddrMask = last * pageSize := by
    have small := cornered.small
    rw [(tableEntry_flags _).1, addrMask_page (by omega)]
  have stored : Passthru.store pd (pdIndex (slot index)) (tableEntry (last * pageSize))
      (({ vmm with pmm := markUsed vmm.pmm last } : Vmm).clear (other * pageSize)) =
      .ok (vmm.linked pd (pdIndex (slot index)) last other (fun _ => 0) (markUsed vmm.pmm last)) :=
    store_eq still _ _
  have loaded : Passthru.load pd (pdIndex (slot index))
      (vmm.linked pd (pdIndex (slot index)) last other (fun _ => 0) (markUsed vmm.pmm last)) =
      .ok (tableEntry (last * pageSize)) := by
    rw [Passthru.load, cornered.pointer _ _ cornered.pdTable, ok_bind]
    exact congrArg Except.ok (write_self _ _ _ _)
  rw [Passthru.nextTable, load_eq here, ok_bind, if_pos (present_none missing), Passthru.createTable,
    cornered.keeps.takesLast cornered.one]
  dsimp only
  rw [if_neg nonzero, cleared, ok_bind, stored, ok_bind, loaded, ok_bind, entry]

/-- The entry of the page is written into the other frame. -/
theorem Cornered.storeLast (position : Fin 512) (entry : Nat) :
    Passthru.store (last * pageSize) position entry
      (vmm.linked pd (pdIndex (slot index)) last other row pmm) =
      .ok (vmm.linked pd (pdIndex (slot index)) last other (Function.update row position entry) pmm) := by
  rw [Passthru.store, cornered.pointer_last row pmm, ok_bind, cornered.store_other row pmm]

/-- `unmap_page` finds the entry in the other frame and clears it there. -/
theorem Cornered.unmapLast {phys : Nat} (named : present (row (ptIndex (slot index))) = some phys) :
    Passthru.unmapPage (slot index) pml4 (vmm.linked pd (pdIndex (slot index)) last other row pmm) =
      .ok (phys, vmm.linked pd (pdIndex (slot index)) last other
        (Function.update row (ptIndex (slot index)) 0) pmm) := by
  have outside (target : List (Fin 512)) (short : target.length < 3) :=
    cornered.walk_outside row pmm target (by omega) fun inside => by
      have length := inside.length_le
      simp [tableOf] at length
      omega
  have top : IsTable vmm pml4 pml4 := ⟨[], by simp, rfl⟩
  have middle : IsTable vmm pml4 pdpt := ⟨_, by simp, cornered.first⟩
  have load {frame : Nat} (table : IsTable vmm pml4 frame) (position : Fin 512) :
      Passthru.load frame position (vmm.linked pd (pdIndex (slot index)) last other row pmm) =
        .ok ((vmm.linked pd (pdIndex (slot index)) last other row pmm).frames frame position) := by
    rw [Passthru.load, cornered.pointer row pmm table]
    rfl
  have first := (outside [pml4Index (slot index)] (by simp)).trans cornered.first
  have second := (outside [pml4Index (slot index), pdptIndex (slot index)] (by simp)).trans cornered.second
  have third := cornered.walk_link row pmm
  change walk present _ pml4
    ([pml4Index (slot index), pdptIndex (slot index)] ++ [pdIndex (slot index)]) = _ at third
  rw [walk_snoc, second] at third
  change walk present _ pml4 ([pml4Index (slot index)] ++ [pdptIndex (slot index)]) = _ at second
  rw [walk_snoc, first] at second
  change walk present _ pml4 ([] ++ [pml4Index (slot index)]) = _ at first
  rw [walk_snoc, walk_nil] at first
  obtain ⟨found, pdptEntry⟩ := present_some first
  obtain ⟨found', pdEntry⟩ := present_some second
  obtain ⟨found'', ptEntry⟩ := present_some third
  have leaf : Passthru.load (last * pageSize) (ptIndex (slot index))
      (vmm.linked pd (pdIndex (slot index)) last other row pmm) = .ok (row (ptIndex (slot index))) := by
    rw [Passthru.load, cornered.pointer_last row pmm, ok_bind, cornered.frames_other row pmm]
  rw [Passthru.unmapPage, load top, ok_bind, if_neg found, pdptEntry, load middle, ok_bind, if_neg found',
    pdEntry, load cornered.pdTable, ok_bind, if_neg found'', ptEntry, leaf, ok_bind,
    cornered.storeLast row pmm, ok_bind, (present_some named).2]

/-- `vfrees` gives the page back, and the last frame stays linked. -/
theorem Cornered.vfreesLast {phys : Nat} (named : present (row (ptIndex (slot index))) = some phys)
    (nonzero : phys ≠ 0) :
    Passthru.vfrees (slot index) 1 (vmm.linked pd (pdIndex (slot index)) last other row pmm) =
      .ok (vmm.linked pd (pdIndex (slot index)) last other
        (Function.update row (ptIndex (slot index)) 0) (pfree phys pmm)) := by
  have root : (vmm.linked pd (pdIndex (slot index)) last other row pmm).cr3 &&& pteAddrMask = pml4 :=
    cornered.root
  rw [Passthru.vfrees, if_neg (by decide), root, List.range_one, List.foldlM_cons, Passthru.vfreeTurn]
  dsimp only
  rw [slot_add, Nat.add_zero, cornered.unmapLast row pmm named, ok_bind]
  dsimp only
  rw [if_pos nonzero]
  rfl

omit row pmm in
/-- Behind the last page there is none. -/
theorem Cornered.exhausted : palloc (markUsed vmm.pmm last) = (0, markUsed vmm.pmm last) := by
  have one := cornered.one
  have idle := cornered.keeps.free (by omega)
  have counted := markUsed_freePages cornered.keeps.ready (free_lt idle) idle
  exact palloc_empty (cornered.keeps.ready.markUsed last) (by omega)

/-- The processor finds what the last frame holds. -/
theorem Cornered.translate_linked (canonical : canonical (slot index) = true) :
    translate (vmm.linked pd (pdIndex (slot index)) last other row pmm) (slot index) = some 0 := by
  have found : lookup (vmm.linked pd (pdIndex (slot index)) last other row pmm) pml4 (slot index) =
      some 0 := by
    change walk present _ pml4 (tableOf (slot index) ++ [ptIndex (slot index)]) = _
    rw [walk_snoc, cornered.walk_link row pmm, Option.bind_some, cornered.frames_last row pmm]
    change present 3 = some 0
    decide
  have root : (vmm.linked pd (pdIndex (slot index)) last other row pmm).cr3 &&& pteAddrMask = pml4 :=
    cornered.root
  rw [translate, if_pos canonical, root, found, slot_aligned]
  rfl

end Cornered

section Corner

variable {pml4 last other count : Nat} {first vmm : Vmm} (booted : Booted pml4 first)
  (held : pageUsed first.pmm other = true) (wrapped : Wrapped pml4 last other first count vmm)
  (window : count < windowPages) (start : count % 512 = 0)
  (exact : vmm.pmm.freePages = missingTables vmm pml4 (slot count) + 1)
include booted held wrapped window start exact

omit booted held in
/-- Some of the pages that are left go to the upper two tables, and one to the last table. -/
theorem Wrapped.lacks : (if walk present vmm.frames pml4 [pml4Index (slot count)] = none then 1 else 0) +
    (if walk present vmm.frames pml4 [pml4Index (slot count), pdptIndex (slot count)] = none
      then 1 else 0) + 2 = vmm.pmm.freePages := by
  have bare := wrapped.bare count window (by omega)
  have missing := missingTables_levels vmm pml4 (slot count)
  rw [if_pos (show walk present vmm.frames pml4
    [pml4Index (slot count), pdptIndex (slot count), pdIndex (slot count)] = none from bare)] at missing
  omega

/-- `map_page` for the next page of the heap comes to its last table with one page left. -/
theorem Wrapped.cornered : ∃ page pdpt pd middle, Begun pml4 last page vmm ∧
    Cornered pml4 last other count pdpt pd middle ∧
    Passthru.mapPage (page * pageSize) (slot count) pml4 { vmm with pmm := markUsed vmm.pmm page } =
      Passthru.nextTable "Out of memory creating PT" pd (pdIndex (slot count)) middle >>= fun made =>
        Passthru.store made.1 (ptIndex (slot count)) (tableEntry (page * pageSize)) made.2 := by
  have standing := wrapped.standing
  have owned := standing.owned
  have root := standing.root booted
  have idle := wrapped.free
  have lacks := wrapped.lacks window start exact
  obtain ⟨page, begun⟩ := wrapped.begun booted (by omega)
  have left := begun.left
  have size : (markUsed vmm.pmm page).maxPages = vmm.pmm.maxPages := (markUsed_layout vmm.pmm page).maxPages
  have path := begun.covered.pathReached begun.tables booted.root begun.low (slot count)
  have supply : SupplyReached
      ((if walk present vmm.frames pml4 [pml4Index (slot count)] = none then 1 else 0) +
        ((if walk present vmm.frames pml4 [pml4Index (slot count), pdptIndex (slot count)] = none
          then 1 else 0) + 0)) { vmm with pmm := markUsed vmm.pmm page } := by
    refine begun.covered.supplyReached ?_
    rintro _ rfl
    exact begun.keeps.spare (by omega)
  -- The upper two tables come from the pages before the last one.
  obtain ⟨_, mapping⟩ := mapPage_returns (page * pageSize) (slot count) begun.tables
    (begun.supplied.less (show missingTables vmm pml4 (slot count) ≤ _ by omega)).room
  simp only [mapPage, bind_eq_ok] at mapping
  obtain ⟨⟨pdpt, first⟩, firstTable, ⟨pd, middle⟩, secondTable, _⟩ := mapping
  have upper := upperTables begun.tables firstTable secondTable
  have pages := upper.pages
  dsimp only at pages
  obtain ⟨keeps, one⟩ := begun.keeps.pallocs
    (show (if walk present vmm.frames pml4 [pml4Index (slot count)] = none then 1 else 0) +
      (if walk present vmm.frames pml4 [pml4Index (slot count), pdptIndex (slot count)] = none
        then 1 else 0) ≤ (markUsed vmm.pmm page).freePages by omega)
  rw [← pages] at keeps one
  have idle' := keeps.free (by omega)
  have low (frame : Nat) (table : IsTable middle pml4 frame) : frame / pageSize < middle.pmm.maxPages := by
    rw [upper.grown.layout.maxPages]
    rcases upper.grown.fresh frame table with old | unused
    · exact begun.low frame old
    · exact free_lt unused
  have few : middle.pmm.maxPages ≤ 2 ^ 35 := by
    rw [upper.grown.layout.maxPages]
    exact size.trans_le (owned.few booted)
  have covered : Covered (fun page => page = last) middle :=
    begun.covered.kept root upper.grown.cr3 upper.grown.layout (size.trans_le (owned.few booted))
      (fun address _ => upper.lookups address) fun other same => same ▸ idle'
  have used := owned.used other held
  have bare := wrapped.bare count window (by omega)
  refine ⟨page, pdpt, pd, middle, begun, ⟨upper.tables, upper.grown.cr3 ▸ root, keeps, by omega,
    fun frame table => covered.tableReached upper.tables booted.root low table, ?_,
    wrapped.last_lt booted, ?_, ?_, (upper.grown.contents last idle').trans wrapped.old,
    (upper.lookups _).trans wrapped.wraps, upper.grown.not_table wrapped.data ?_, upper.first,
    upper.second, upper.below.trans bare, window⟩, ?_⟩
  · intro frame table
    refine ⟨frame / pageSize, (low frame table).trans_le few, ?_⟩
    exact (Nat.div_mul_cancel (Nat.dvd_of_mod_eq_zero (table.aligned booted.root))).symm
  · rintro rfl
    rw [used] at idle
    cases idle
  · rintro rfl
    rw [owned.used 0 booted.zero] at idle
    cases idle
  · rw [pageUsed_markUsed, used, Bool.or_true]
  · rw [mapPage_upper begun.tables root path supply, firstTable, ok_bind, secondTable, ok_bind]

/-- A call for two pages fails, and the processor finds what the last frame holds at the first page. -/
theorem Wrapped.trace : Refused false 2 vmm ∧
    ∃ after, Passthru.vallocs false 2 vmm = .ok (0, after) ∧
      translate vmm (slot count) = none ∧ translate after (slot count) = some 0 := by
  have standing := wrapped.standing
  have owned := standing.owned
  have root := standing.root booted
  have next := standing.next_slot
  have usable := slot_canonical standing.inside (le_refl count)
  obtain ⟨page, pdpt, pd, middle, begun, cornered, mapping⟩ :=
    wrapped.cornered booted held window start exact
  have small : page < 2 ^ 40 := owned.tables.small page begun.free
  generalize rowed : Function.update (fun _ => 0) (ptIndex (slot count)) (tableEntry (page * pageSize)) =
    row at *
  generalize linked : middle.linked pd (pdIndex (slot count)) last other row
    (markUsed middle.pmm last) = full at *
  have mapped : Passthru.mapPage (page * pageSize) (slot count) pml4
      { vmm with pmm := markUsed vmm.pmm page } = .ok full := by
    rw [mapping, cornered.nextTable, ok_bind, cornered.storeLast, rowed, linked]
  have empty : palloc full.pmm = (0, full.pmm) := by
    rw [← linked]
    exact cornered.exhausted
  have turn (remaining : Nat) : Passthru.vallocsFrom false (slot count) pml4 (remaining + 1) 0 vmm =
      Passthru.vallocsFrom false (slot count) pml4 remaining 1 full := by
    rw [Passthru.vallocsFrom, begun.taken]
    dsimp only
    rw [if_neg begun.nonzero, slot_add, Nat.add_zero, mapped, ok_bind, if_neg (by decide), ok_bind]
  have named : present (row (ptIndex (slot count))) = some (page * pageSize) := by
    rw [← rowed, Function.update_self, present_tableEntry, addrMask_page small]
  have freed := cornered.vfreesLast row (markUsed middle.pmm last) named begun.nonzero
  rw [linked] at freed
  refine ⟨⟨1, by decide, full, ?_, by rw [empty]⟩, _, ?_, ?_,
    cornered.translate_linked (Function.update row (ptIndex (slot count)) 0)
      (pfree (page * pageSize) (markUsed middle.pmm last)) usable⟩
  · rw [next, root]
    exact turn 0
  · rw [Passthru.vallocs, if_neg (by decide), next, root]
    dsimp only
    rw [turn 1, Passthru.vallocsFrom, empty]
    dsimp only
    rw [if_pos rfl, freed, ok_bind, ok_bind]
    rfl
  · have absent : lookup vmm pml4 (slot count) = none := by
      change walk present vmm.frames pml4 (tableOf (slot count) ++ [ptIndex (slot count)]) = none
      rw [walk_snoc, wrapped.bare count window (by omega)]
      rfl
    rw [translate, if_pos usable, root, absent]
    rfl

end Corner

end ArchaOS.VirtualMemory
