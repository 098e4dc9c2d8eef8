import ArchaOS.Construction.PassthruTables
import ArchaOS.Proof.VirtualMemory.FrameRun
import ArchaOS.Proof.VirtualMemory.TableCount

namespace ArchaOS.VirtualMemory

open Library PhysicalMemory RadixTree

/-- The address of a frame in the passthru window is translated to the frame. -/
def Reached (vmm : Vmm) (frame : Nat) : Prop := translate vmm (getVirtAddr frame) = some frame

/-- The tables on the way to an address are reached. -/
def PathReached (pml4 virt : Nat) (vmm : Vmm) : Prop :=
  ∀ upper, upper <+: [pml4Index virt, pdptIndex virt, pdIndex virt] →
    ∀ frame, walk present vmm.frames pml4 upper = some frame → Reached vmm frame

/-- The frames that the next calls of `palloc` give are reached. -/
def SupplyReached (count : Nat) (vmm : Vmm) : Prop :=
  ∀ taken < count, (palloc (pallocs taken vmm.pmm)).1 ≠ 0 →
    Reached vmm (palloc (pallocs taken vmm.pmm)).1

/-- The tables on the way to an address and the frames that missing ones get are reached. -/
structure MapReached (pml4 virt : Nat) (vmm : Vmm) : Prop where
  path : PathReached pml4 virt vmm
  supply : SupplyReached (missingTables vmm pml4 virt) vmm

/-- A translation depends on the page that is looked up. -/
theorem translate_congr {first second : Vmm} {address : Nat} (cr3 : second.cr3 = first.cr3)
    (same : lookup second (first.cr3 &&& pteAddrMask) address =
      lookup first (first.cr3 &&& pteAddrMask) address) :
    translate second address = translate first address := by
  rw [translate, translate, cr3, same]

/-- The frames that are reached depend on the translations alone. -/
theorem reached_congr {before after : Vmm} (cr3 : after.cr3 = before.cr3)
    (same : ∀ address, lookup after (before.cr3 &&& pteAddrMask) address =
      lookup before (before.cr3 &&& pteAddrMask) address) (frame : Nat) :
    Reached after frame ↔ Reached before frame := by
  unfold Reached
  rw [translate_congr cr3 (same _)]

section Accesses

variable {vmm : Vmm} {table : Nat} (reached : Reached vmm table)
include reached

/-- The pointer to a table that is reached leads to the table. -/
theorem pageTablePtr_eq : Passthru.pageTablePtr table vmm = .ok table := by
  unfold Reached at reached
  rw [Passthru.pageTablePtr, reached, Passthru.access]

/-- An entry of a table that is reached is loaded. -/
theorem load_eq (index : Fin 512) : Passthru.load table index vmm = .ok (vmm.frames table index) := by
  rw [Passthru.load, pageTablePtr_eq reached]
  rfl

/-- An entry is stored into a table that is reached. -/
theorem store_eq (index : Fin 512) (entry : Nat) :
    Passthru.store table index entry vmm = .ok (vmm.store table index entry) := by
  rw [Passthru.store, pageTablePtr_eq reached]
  rfl

/-- A table that is reached is cleared. -/
theorem clear_eq : Passthru.clear table vmm = .ok (vmm.clear table) := by
  rw [Passthru.clear, pageTablePtr_eq reached]
  rfl

end Accesses

/-- Without a free page a missing table panics. -/
theorem nextTable_panics (message : String) {table : Nat} {index : Fin 512} {vmm : Vmm}
    (missing : present (vmm.frames table index) = none) (failed : (palloc vmm.pmm).1 = 0) :
    nextTable message table index vmm = .error (.panic message) := by
  have absent : vmm.frames table index &&& ptePresent = 0 := by
    by_contra found
    rw [present, if_neg found] at missing
    cases missing
  rw [nextTable, if_pos absent]
  exact if_pos failed

/-- The address of the next table stands in the entry that one level of `map_page` leaves. -/
theorem nextTable_entry {message : String} {table next : Nat} {index : Fin 512} {vmm after : Vmm}
    (result : nextTable message table index vmm = .ok (next, after)) :
    after.frames table index &&& pteAddrMask = next := by
  unfold nextTable at result
  dsimp only at result
  split at result
  · split at result
    · cases result
    · obtain ⟨rfl, rfl⟩ := Prod.mk.inj (Except.ok.inj result)
      rfl
  · obtain ⟨rfl, rfl⟩ := Prod.mk.inj (Except.ok.inj result)
    rfl

section Levels

variable {pml4 table : Nat} {index : Fin 512} {path : List (Fin 512)} {vmm : Vmm}
  (valid : Tables pml4 vmm) (root : vmm.cr3 &&& pteAddrMask = pml4)
  (arrived : walk present vmm.frames pml4 path = some table) (short : path.length + 1 < 4)
include valid root arrived short

/-- A new table leaves the same frames reached. -/
theorem addTable_reached {page : Nat} (missing : present (vmm.frames table index) = none)
    (free : pageUsed vmm.pmm page = false) (frame : Nat) :
    Reached (vmm.addTable table index page) frame ↔ Reached vmm frame := by
  obtain ⟨_, _, _, entries⟩ := valid.addTable arrived short missing free
  have same (address : Nat) : lookup (vmm.addTable table index page) pml4 address =
      lookup vmm pml4 address := by
    rw [lookup_eq, lookup_eq, entries]
  have cr3 : (vmm.addTable table index page).cr3 = vmm.cr3 := rfl
  rw [← root] at same
  exact reached_congr cr3 same frame

omit arrived short in
/-- Clearing a free frame leaves the same frames reached. -/
theorem clearFree_reached {page : Nat} (free : pageUsed vmm.pmm page = false) (frame : Nat) :
    Reached (({ vmm with pmm := markUsed vmm.pmm page } : Vmm).clear (page * pageSize)) frame ↔
      Reached vmm frame := by
  have same (address : Nat) :
      lookup (({ vmm with pmm := markUsed vmm.pmm page } : Vmm).clear (page * pageSize)) pml4 address =
        lookup vmm pml4 address :=
    walk_agree (clear_agree (valid.free_not_table free)) (tablePath address) le_rfl
  have cr3 : (({ vmm with pmm := markUsed vmm.pmm page } : Vmm).clear (page * pageSize)).cr3 =
      vmm.cr3 := rfl
  rw [← root] at same
  exact reached_congr cr3 same frame

omit arrived short in
/-- A missing table is created in the next frame of `palloc`, or the kernel panics. -/
theorem createTable_eq (message : String) (here : Reached vmm table)
    (missing : present (vmm.frames table index) = none)
    (supply : (palloc vmm.pmm).1 ≠ 0 → Reached vmm (palloc vmm.pmm).1) :
    Passthru.createTable message table index vmm =
      (nextTable message table index vmm).map Prod.snd := by
  rcases nextTable_cases message table index valid with
    ⟨next, named, _⟩ | ⟨_, page, free, allocated, same⟩ | ⟨_, failed, same⟩
  · rw [missing] at named
    cases named
  · have nonzero : (palloc vmm.pmm).1 ≠ 0 := by
      intro failed
      rw [nextTable_panics message missing failed] at same
      cases same
    have fresh := supply nonzero
    have cleared := clearFree_reached valid root free
    rw [allocated] at fresh nonzero
    dsimp only at fresh nonzero
    have emptied : Passthru.clear (page * pageSize) { vmm with pmm := markUsed vmm.pmm page } =
        .ok (({ vmm with pmm := markUsed vmm.pmm page } : Vmm).clear (page * pageSize)) := clear_eq fresh
    have stored := store_eq ((cleared table).mpr here) index (tableEntry (page * pageSize))
    rw [Passthru.createTable, allocated, same, if_neg nonzero, emptied, ok_bind, stored]
    rfl
  · rw [Passthru.createTable, same, if_pos failed]
    rfl

/-- One level of `map_page` through the passthru window, where its table and the frame for a missing
one are reached. -/
theorem nextTable_eq (message : String) {count : Nat} (here : Reached vmm table)
    (supply : SupplyReached
      ((if walk present vmm.frames pml4 (path ++ [index]) = none then 1 else 0) + count) vmm) :
    Passthru.nextTable message table index vmm = nextTable message table index vmm := by
  rw [Passthru.nextTable, load_eq here, ok_bind]
  by_cases absent : vmm.frames table index &&& ptePresent = 0
  · have missing : present (vmm.frames table index) = none := if_pos absent
    rw [walk_snoc, arrived, Option.bind_some, missing, if_pos rfl] at supply
    rw [if_pos absent, createTable_eq valid root message here missing (supply 0 (by omega))]
    rcases nextTable_cases message table index valid with
      ⟨_, named, _⟩ | ⟨_, page, free, _, same⟩ | ⟨_, _, same⟩
    · rw [missing] at named
      cases named
    · have still := addTable_reached valid root arrived short missing free table
      rw [same]
      change (.ok (vmm.addTable table index page) : Except Stop Vmm) >>= _ = _
      rw [ok_bind]
      dsimp only
      rw [load_eq (still.mpr here), ok_bind, nextTable_entry same]
    · rw [same]
      rfl
  · rw [if_neg absent, ok_bind]
    dsimp only
    rw [load_eq here, ok_bind, nextTable, if_neg absent]

/-- What one level of `map_page` leaves for the levels below it. -/
theorem nextTable_reached {message : String} {next count : Nat} {after : Vmm}
    (known : ∀ frame, walk present vmm.frames pml4 (path ++ [index]) = some frame → Reached vmm frame)
    (supply : SupplyReached
      ((if walk present vmm.frames pml4 (path ++ [index]) = none then 1 else 0) + count) vmm)
    (result : nextTable message table index vmm = .ok (next, after)) :
    Reached after next ∧ SupplyReached count after ∧ ∀ frame, Reached after frame ↔ Reached vmm frame := by
  have below := walk_snoc present vmm.frames pml4 path index
  rw [arrived, Option.bind_some] at below
  rcases nextTable_cases message table index valid with
    ⟨found, named, same⟩ | ⟨missing, page, free, allocated, same⟩ | ⟨_, _, same⟩
  · rw [same, Except.ok.injEq, Prod.mk.injEq] at result
    obtain ⟨rfl, rfl⟩ := result
    rw [below, named, if_neg (by simp), Nat.zero_add] at supply
    exact ⟨known found (below.trans named), supply, fun _ => Iff.rfl⟩
  · rw [same, Except.ok.injEq, Prod.mk.injEq] at result
    obtain ⟨rfl, rfl⟩ := result
    rw [below, missing, if_pos rfl] at supply
    have still := addTable_reached valid root arrived short missing free
    have nonzero : (palloc vmm.pmm).1 ≠ 0 := by
      intro failed
      rw [nextTable_panics message missing failed] at same
      cases same
    have fresh := supply 0 (by omega) nonzero
    simp only [pallocs, allocated] at fresh
    refine ⟨(still _).mpr fresh, ?_, still⟩
    intro taken low present
    have later := supply (taken + 1) (by omega)
    simp only [pallocs, allocated] at later
    exact (still _).mpr (later present)
  · rw [same] at result
    cases result

end Levels

/-- What the upper two levels of `map_page` leave. -/
structure UpperTables (pml4 virt : Nat) (vmm : Vmm) (pdpt pd : Nat) (middle : Vmm) : Prop where
  tables : Tables pml4 middle
  grown : Grown pml4 vmm middle
  first : walk present middle.frames pml4 [pml4Index virt] = some pdpt
  second : walk present middle.frames pml4 [pml4Index virt, pdptIndex virt] = some pd
  below : walk present middle.frames pml4 [pml4Index virt, pdptIndex virt, pdIndex virt] =
    walk present vmm.frames pml4 [pml4Index virt, pdptIndex virt, pdIndex virt]
  lookups : ∀ address, lookup middle pml4 address = lookup vmm pml4 address
  pages : middle.pmm = pallocs
    ((if walk present vmm.frames pml4 [pml4Index virt] = none then 1 else 0) +
      if walk present vmm.frames pml4 [pml4Index virt, pdptIndex virt] = none then 1 else 0) vmm.pmm

/-- The first two levels of `map_page` make the upper tables. -/
theorem upperTables {pml4 virt pdpt pd : Nat} {message other : String} {vmm first middle : Vmm}
    (valid : Tables pml4 vmm)
    (firstTable : nextTable message pml4 (pml4Index virt) vmm = .ok (pdpt, first))
    (secondTable : nextTable other pdpt (pdptIndex virt) first = .ok (pd, middle)) :
    UpperTables pml4 virt vmm pdpt pd middle := by
  have top : walk present vmm.frames pml4 [] = some pml4 := walk_nil _ _ _
  obtain ⟨valid', grown, arrived, entries⟩ := nextTable_spec valid top (by decide) firstTable
  obtain ⟨valid'', grown', arrived', entries'⟩ := nextTable_spec valid' arrived (by simp) secondTable
  have walks := nextTable_walks valid top (by decide) firstTable
  have walks' := nextTable_walks valid' arrived (by simp) secondTable
  have pages := nextTable_pallocs valid top firstTable
  have pages' := nextTable_pallocs valid' arrived secondTable
  rw [walks _ (by simp) (by simp)] at pages'
  refine ⟨valid'', grown.trans grown', (walks' _ (by simp) (by simp)).trans arrived, arrived', ?_, ?_, ?_⟩
  · rw [walks' _ (by simp) (by simp), walks _ (by simp) (by simp)]
  · intro address
    rw [lookup_eq, lookup_eq, entries', entries]
  · rw [pages', pages, ← pallocs_add]
    rfl

section Upper

variable {phys virt pml4 count : Nat} {vmm : Vmm} (valid : Tables pml4 vmm)
  (root : vmm.cr3 &&& pteAddrMask = pml4) (path : PathReached pml4 virt vmm)
  (supply : SupplyReached
    ((if walk present vmm.frames pml4 [pml4Index virt] = none then 1 else 0) +
      ((if walk present vmm.frames pml4 [pml4Index virt, pdptIndex virt] = none then 1 else 0) +
        count)) vmm)
include valid root path supply

/-- The upper two levels of `map_page` leave their table and the frames after their own reached. -/
theorem upperTables_reached {pdpt pd : Nat} {message other : String} {first middle : Vmm}
    (firstTable : nextTable message pml4 (pml4Index virt) vmm = .ok (pdpt, first))
    (secondTable : nextTable other pdpt (pdptIndex virt) first = .ok (pd, middle)) :
    Reached middle pd ∧ SupplyReached count middle ∧
      ∀ frame, Reached middle frame ↔ Reached vmm frame := by
  have top : walk present vmm.frames pml4 [] = some pml4 := walk_nil _ _ _
  obtain ⟨valid', grown, arrived, _⟩ := nextTable_spec valid top (by decide) firstTable
  obtain ⟨here, supply, same⟩ := nextTable_reached valid root top (by decide)
    (path [pml4Index virt] ⟨[pdptIndex virt, pdIndex virt], rfl⟩) supply firstTable
  have walks := nextTable_walks valid top (by decide) firstTable
  have root' : first.cr3 &&& pteAddrMask = pml4 := grown.cr3 ▸ root
  rw [← walks [pml4Index virt, pdptIndex virt] (by simp) (by simp)] at supply
  have known (frame : Nat) (found : walk present first.frames pml4
      ([pml4Index virt] ++ [pdptIndex virt]) = some frame) : Reached first frame := by
    rw [walks _ (by simp) (by simp)] at found
    exact (same frame).mpr (path _ ⟨[pdIndex virt], rfl⟩ frame found)
  obtain ⟨here', supply', same'⟩ :=
    nextTable_reached valid' root' arrived (by simp) known supply secondTable
  exact ⟨here', supply', fun frame => (same' frame).trans (same frame)⟩

/-- The upper two levels of `map_page` are the same through the passthru window. -/
theorem mapPage_upper : Passthru.mapPage phys virt pml4 vmm =
    nextTable "Out of memory creating PDPT" pml4 (pml4Index virt) vmm >>= fun one =>
      nextTable "Out of memory creating PD" one.1 (pdptIndex virt) one.2 >>= fun two =>
        Passthru.nextTable "Out of memory creating PT" two.1 (pdIndex virt) two.2 >>= fun three =>
          Passthru.store three.1 (ptIndex virt) (tableEntry phys) three.2 := by
  have top : walk present vmm.frames pml4 [] = some pml4 := walk_nil _ _ _
  have here := path [] List.nil_prefix pml4 top
  rw [Passthru.mapPage, nextTable_eq valid root top (by decide) _ here supply]
  refine bind_congr_ok fun made firstTable => ?_
  obtain ⟨pdpt, first⟩ := made
  obtain ⟨valid', grown, arrived, _⟩ := nextTable_spec valid top (by decide) firstTable
  obtain ⟨here, supply, _⟩ := nextTable_reached valid root top (by decide)
    (path [pml4Index virt] ⟨[pdptIndex virt, pdIndex virt], rfl⟩) supply firstTable
  have walks := nextTable_walks valid top (by decide) firstTable
  have root' : first.cr3 &&& pteAddrMask = pml4 := grown.cr3 ▸ root
  rw [← walks [pml4Index virt, pdptIndex virt] (by simp) (by simp)] at supply
  dsimp only
  rw [nextTable_eq valid' root' arrived (by simp) _ here supply]

end Upper

/-- `map_page` through the passthru window is `map_page` when all that it touches is reached. -/
theorem mapPage_eq {phys virt pml4 : Nat} {vmm : Vmm} (valid : Tables pml4 vmm)
    (root : vmm.cr3 &&& pteAddrMask = pml4) (reached : MapReached pml4 virt vmm) :
    Passthru.mapPage phys virt pml4 vmm = mapPage phys virt pml4 vmm := by
  obtain ⟨path, supply⟩ := reached
  rw [missingTables_levels] at supply
  rw [mapPage_upper valid root path supply, mapPage]
  refine bind_congr_ok fun one firstTable => ?_
  obtain ⟨pdpt, first⟩ := one
  refine bind_congr_ok fun two secondTable => ?_
  obtain ⟨pd, second⟩ := two
  have upper := upperTables valid firstTable secondTable
  obtain ⟨here, supply, same⟩ := upperTables_reached valid root path supply firstTable secondTable
  have root' : second.cr3 &&& pteAddrMask = pml4 := upper.grown.cr3 ▸ root
  rw [← upper.below] at supply
  dsimp only
  rw [nextTable_eq upper.tables root' upper.second (by simp) _ here supply]
  refine bind_congr_ok fun three thirdTable => ?_
  obtain ⟨pt, third⟩ := three
  have known (frame : Nat) (found : walk present second.frames pml4
      ([pml4Index virt, pdptIndex virt] ++ [pdIndex virt]) = some frame) : Reached second frame := by
    refine (same frame).mpr (path _ List.prefix_rfl frame ?_)
    rw [← upper.below]
    exact found
  obtain ⟨here, _⟩ := nextTable_reached upper.tables root' upper.second (by simp) known supply thirdTable
  exact store_eq here _ _

/-- `unmap_page` through the passthru window is `unmap_page` when the tables on its way are reached. -/
theorem unmapPage_eq {virt pml4 : Nat} {vmm : Vmm} (reached : PathReached pml4 virt vmm) :
    Passthru.unmapPage virt pml4 vmm = .ok (unmapPage virt pml4 vmm) := by
  have here := reached [] List.nil_prefix pml4 (walk_nil _ _ _)
  rw [Passthru.unmapPage, unmapPage, load_eq here, ok_bind]
  by_cases first : vmm.frames pml4 (pml4Index virt) &&& ptePresent = 0
  · rw [if_pos first, if_pos first]
  · have below := reached [pml4Index virt] ⟨[pdptIndex virt, pdIndex virt], rfl⟩
    rw [if_neg first, if_neg first]
    dsimp only
    generalize named : vmm.frames pml4 (pml4Index virt) &&& pteAddrMask = pdpt
    have pdptReached : Reached vmm pdpt := below pdpt (by simp [walk, present, first, named])
    rw [load_eq pdptReached, ok_bind]
    by_cases second : vmm.frames pdpt (pdptIndex virt) &&& ptePresent = 0
    · rw [if_pos second, if_pos second]
    · have below := reached [pml4Index virt, pdptIndex virt] ⟨[pdIndex virt], rfl⟩
      rw [if_neg second, if_neg second]
      generalize named' : vmm.frames pdpt (pdptIndex virt) &&& pteAddrMask = pd
      have pdReached : Reached vmm pd := below pd (by simp [walk, present, first, second, named, named'])
      rw [load_eq pdReached, ok_bind]
      by_cases third : vmm.frames pd (pdIndex virt) &&& ptePresent = 0
      · rw [if_pos third, if_pos third]
      · have below := reached _ List.prefix_rfl
        rw [if_neg third, if_neg third]
        generalize named'' : vmm.frames pd (pdIndex virt) &&& pteAddrMask = pt
        have ptReached : Reached vmm pt := below pt
          (by simp [walk, present, first, second, third, named, named', named''])
        rw [load_eq ptReached, ok_bind, store_eq ptReached, ok_bind]

/-- One turn of `vfrees` through the passthru window. -/
theorem vfreeTurn_eq {virtAddr pml4 i : Nat} {vmm : Vmm}
    (reached : PathReached pml4 (add64 virtAddr (mul64 i pageSize)) vmm) :
    Passthru.vfreeTurn virtAddr pml4 vmm i = .ok (vfreeTurn virtAddr pml4 vmm i) := by
  rw [Passthru.vfreeTurn, unmapPage_eq reached, ok_bind, vfreeTurn]

/-- The tables of the pages that `vfrees` unmaps are reached in the state before each turn. -/
def FreesReached (virtAddr pml4 count : Nat) (vmm : Vmm) : Prop :=
  ∀ turns < count, ∀ middle,
    (List.range turns).foldlM (Passthru.vfreeTurn virtAddr pml4) vmm = .ok middle →
    PathReached pml4 (add64 virtAddr (mul64 turns pageSize)) middle

/-- The turns of `vfrees` access tables that are reached directly. -/
theorem vfreeTurns_eq {virtAddr pml4 count : Nat} {vmm : Vmm}
    (reached : FreesReached virtAddr pml4 count vmm) :
    (List.range count).foldlM (Passthru.vfreeTurn virtAddr pml4) vmm =
      .ok ((List.range count).foldl (vfreeTurn virtAddr pml4) vmm) := by
  induction count with
  | zero => rfl
  | succ count ih =>
      have earlier := ih fun turns low => reached turns (low.trans (Nat.lt_succ_self count))
      have here := reached count (Nat.lt_succ_self count) _ earlier
      rw [List.range_succ, List.foldlM_append, earlier, ok_bind, List.foldl_append, List.foldlM_cons,
        vfreeTurn_eq here, ok_bind]
      rfl

/-- `vfrees` through the passthru window is `vfrees` when the tables of its pages are reached. -/
theorem vfrees_reached {virtAddr count : Nat} {vmm : Vmm}
    (reached : FreesReached virtAddr (vmm.cr3 &&& pteAddrMask) count vmm) :
    Passthru.vfrees virtAddr count vmm = .ok (vfrees virtAddr count vmm) := by
  rw [Passthru.vfrees, vfrees, vfreeTurns_eq reached]
  split <;> rfl

/-- In the state before each turn of the loop of `vallocs` that finds a page, all that `map_page`
touches is reached, and when no page is left the pages of the earlier turns can be unmapped. -/
def LoopReached (zero : Bool) (start pml4 remaining turn : Nat) (vmm : Vmm) : Prop :=
  ∀ turns < remaining, ∀ middle,
    Passthru.vallocsFrom zero start pml4 turns turn vmm = .ok (true, middle) →
    if (palloc middle.pmm).1 = 0 then
      FreesReached start (middle.cr3 &&& pteAddrMask) (turn + turns)
        { middle with pmm := (palloc middle.pmm).2 }
    else
      MapReached pml4 (add64 start (mul64 (turn + turns) pageSize))
        { middle with pmm := (palloc middle.pmm).2 }

/-- Clearing the page that `map_page` has just mapped clears no table. -/
theorem memsetPage_tables {pml4 page virt : Nat} {vmm mapped cleared : Vmm} (valid : Tables pml4 vmm)
    (root : vmm.cr3 &&& pteAddrMask = pml4) (free : pageUsed vmm.pmm page = false)
    (mapping : mapPage (page * pageSize) virt pml4 { vmm with pmm := markUsed vmm.pmm page } =
      .ok mapped)
    (clearing : memsetPage virt mapped = .ok cleared) :
    Tables pml4 cleared ∧ cleared.cr3 = mapped.cr3 := by
  have marked := valid.markUsed page
  obtain ⟨valid', grown, _⟩ := mapPage_spec marked mapping
  have cr3 : mapped.cr3 = vmm.cr3 := grown.cr3
  have here : lookup mapped pml4 virt = some (page * pageSize) := by
    rw [mapPage_lookup marked mapping, if_pos rfl, addrMask_page (valid.small page free)]
  have data : ¬ IsTable mapped pml4 (page * pageSize) := by
    refine grown.not_table (valid.free_not_table free) ?_
    rw [pageUsed_markUsed, decide_eq_true rfl, Bool.true_or]
  unfold memsetPage translate at clearing
  rw [cr3, root, here] at clearing
  split at clearing
  · cases clearing
  · rename_i frame named
    obtain rfl := Except.ok.inj clearing
    split at named
    · rw [Option.map_some, Option.some.injEq] at named
      subst named
      refine ⟨valid'.clear fun table => data ?_, rfl⟩
      have top : pml4 &&& pteAddrMask = pml4 := by
        rw [← root, Nat.and_assoc, Nat.and_self]
      have aligned := table.aligned top
      have start : virt % pageSize = 0 := by
        unfold pageSize at *
        omega
      rwa [start, Nat.add_zero] at table
    · cases named

/-- The loop of `vallocs` through the passthru window is the loop of `vallocs` when all that it
touches is reached. -/
theorem vallocsFrom_eq {zero : Bool} {start pml4 remaining : Nat} : ∀ {turn : Nat} {vmm : Vmm},
    Tables pml4 vmm → vmm.cr3 &&& pteAddrMask = pml4 →
    LoopReached zero start pml4 remaining turn vmm →
    Passthru.vallocsFrom zero start pml4 remaining turn vmm =
      vallocsFrom zero start pml4 remaining turn vmm := by
  induction remaining with
  | zero => intros; rfl
  | succ remaining ih =>
      intro turn vmm valid root reached
      have here := reached 0 (Nat.succ_pos remaining) vmm rfl
      rw [Nat.add_zero] at here
      rw [Passthru.vallocsFrom, vallocsFrom]
      dsimp only
      by_cases failed : (palloc vmm.pmm).1 = 0
      · rw [if_pos failed] at here
        rw [if_pos failed, if_pos failed, vfrees_reached here]
        rfl
      · rw [if_neg failed] at here
        rw [if_neg failed, if_neg failed]
        obtain ⟨page, _, free, taken⟩ := palloc_taken failed
        rw [taken] at here ⊢
        dsimp only at here ⊢
        have marked := valid.markUsed page
        have same : Passthru.mapPage (page * pageSize) _ pml4 _ = _ := mapPage_eq marked root here
        rw [same]
        refine bind_congr_ok fun mapped mapping => ?_
        obtain ⟨valid', grown, _⟩ := mapPage_spec marked mapping
        have rest {cleared : Vmm} (kept : Tables pml4 cleared ∧ cleared.cr3 = mapped.cr3)
            (clearing : (if zero then memsetPage (add64 start (mul64 turn pageSize)) mapped
              else .ok mapped) = .ok cleared) :
            Passthru.vallocsFrom zero start pml4 remaining (turn + 1) cleared =
              vallocsFrom zero start pml4 remaining (turn + 1) cleared := by
          refine ih kept.1 (by rw [kept.2, grown.cr3]; exact root) fun turns low middle looped => ?_
          have later := reached (turns + 1) (by omega) middle
          rw [show turn + (turns + 1) = turn + 1 + turns by omega] at later
          refine later ?_
          rw [Passthru.vallocsFrom]
          dsimp only
          rw [if_neg failed, taken, same, mapping, ok_bind]
          cases zero with
          | false =>
              obtain rfl := Except.ok.inj clearing
              exact looped
          | true =>
              rw [if_pos rfl] at clearing ⊢
              rw [clearing]
              exact looped
        cases zero with
        | false => exact rest ⟨valid', rfl⟩ rfl
        | true =>
            refine bind_congr_ok fun cleared clearing => ?_
            exact rest (memsetPage_tables valid root free mapping clearing) clearing

/-- `vallocs` through the passthru window is `vallocs` when all that it touches is reached. -/
theorem vallocs_eq {zero : Bool} {count : Nat} {vmm : Vmm}
    (valid : Tables (vmm.cr3 &&& pteAddrMask) vmm)
    (reached : LoopReached zero vmm.nextVirt (vmm.cr3 &&& pteAddrMask) count 0 vmm) :
    Passthru.vallocs zero count vmm = vallocs zero count vmm := by
  rw [Passthru.vallocs, vallocs]
  dsimp only
  rw [vallocsFrom_eq valid rfl reached]

namespace Passthru

/-- A property that no step loses, whichever frames the accesses to the tables reach. -/
structure Kept (good : Vmm → Prop) : Prop where
  store : ∀ vmm frame index entry, good vmm → good (vmm.store frame index entry)
  clear : ∀ vmm frame, good vmm → good (vmm.clear frame)
  palloc : ∀ vmm, good vmm → good { vmm with pmm := (palloc vmm.pmm).2 }

section Kept

variable {good : Vmm → Prop} (kept : Kept good) {vmm after : Vmm}
include kept

theorem Kept.stored {table entry : Nat} {index : Fin 512}
    (result : Passthru.store table index entry vmm = .ok after) (before : good vmm) : good after := by
  obtain ⟨frame, _, same⟩ := bind_eq_ok.mp result
  obtain rfl := Except.ok.inj same
  exact kept.store vmm frame index entry before

theorem Kept.cleared {table : Nat} (result : Passthru.clear table vmm = .ok after) (before : good vmm) :
    good after := by
  obtain ⟨frame, _, same⟩ := bind_eq_ok.mp result
  obtain rfl := Except.ok.inj same
  exact kept.clear vmm frame before

/-- One level of `map_page` keeps the property. -/
theorem Kept.nextTable {message : String} {table next : Nat} {index : Fin 512}
    (result : Passthru.nextTable message table index vmm = .ok (next, after)) (before : good vmm) :
    good after := by
  rw [Passthru.nextTable, bind_eq_ok] at result
  obtain ⟨_, _, result⟩ := result
  split at result
  · obtain ⟨middle, created, rest⟩ := bind_eq_ok.mp result
    obtain ⟨_, _, same⟩ := bind_eq_ok.mp rest
    obtain ⟨_, rfl⟩ := Prod.mk.inj (Except.ok.inj same)
    unfold createTable at created
    dsimp only at created
    split at created
    · cases created
    · obtain ⟨cleared, clearing, storing⟩ := bind_eq_ok.mp created
      exact kept.stored storing (kept.cleared clearing (kept.palloc vmm before))
  · obtain ⟨middle, unchanged, rest⟩ := bind_eq_ok.mp result
    obtain ⟨_, _, same⟩ := bind_eq_ok.mp rest
    obtain ⟨_, rfl⟩ := Prod.mk.inj (Except.ok.inj same)
    obtain rfl := Except.ok.inj unchanged
    exact before

/-- `map_page` keeps the property. -/
theorem Kept.mapPage {phys virt pml4 : Nat} (result : Passthru.mapPage phys virt pml4 vmm = .ok after)
    (before : good vmm) : good after := by
  simp only [Passthru.mapPage, bind_eq_ok] at result
  obtain ⟨⟨_, first⟩, firstTable, ⟨_, second⟩, secondTable, ⟨_, third⟩, thirdTable, stored⟩ := result
  exact kept.stored stored (kept.nextTable thirdTable (kept.nextTable secondTable
    (kept.nextTable firstTable before)))

/-- `unmap_page` keeps the property. -/
theorem Kept.unmapPage {virt pml4 phys : Nat}
    (result : Passthru.unmapPage virt pml4 vmm = .ok (phys, after)) (before : good vmm) : good after := by
  have unchanged {frame : Nat}
      (same : (Except.ok (frame, vmm) : Except Stop (Nat × Vmm)) = .ok (phys, after)) : good after := by
    obtain ⟨_, rfl⟩ := Prod.mk.inj (Except.ok.inj same)
    exact before
  rw [Passthru.unmapPage, bind_eq_ok] at result
  obtain ⟨_, _, result⟩ := result
  split at result
  · exact unchanged result
  rw [bind_eq_ok] at result
  obtain ⟨_, _, result⟩ := result
  split at result
  · exact unchanged result
  rw [bind_eq_ok] at result
  obtain ⟨_, _, result⟩ := result
  split at result
  · exact unchanged result
  simp only [bind_eq_ok] at result
  obtain ⟨_, _, _, storing, same⟩ := result
  obtain ⟨_, rfl⟩ := Prod.mk.inj (Except.ok.inj same)
  exact kept.stored storing before

theorem Kept.memsetPage {virt : Nat} (result : VirtualMemory.memsetPage virt vmm = .ok after)
    (before : good vmm) : good after := by
  unfold VirtualMemory.memsetPage at result
  split at result
  · cases result
  · obtain rfl := Except.ok.inj result
    exact kept.clear vmm _ before

variable (free : ∀ vmm phys, good vmm → good { vmm with pmm := pfree phys vmm.pmm })
include free

/-- `vfrees` keeps a property that `pfree` keeps. -/
theorem Kept.vfrees {virtAddr count : Nat} (result : Passthru.vfrees virtAddr count vmm = .ok after)
    (before : good vmm) : good after := by
  unfold Passthru.vfrees at result
  split at result
  · obtain rfl := Except.ok.inj result
    exact before
  · have turn (state : Vmm) (i : Nat) (next : Vmm) (_ : i ∈ List.range count) (held : good state)
        (turned : Passthru.vfreeTurn virtAddr (vmm.cr3 &&& pteAddrMask) state i = .ok next) :
        good next := by
      obtain ⟨⟨phys, unmapped⟩, unmapping, same⟩ := bind_eq_ok.mp turned
      have held' := kept.unmapPage unmapping held
      obtain rfl := Except.ok.inj same
      split
      · exact free unmapped phys held'
      · exact held'
    exact foldlM_keeps turn before result

/-- The loop of `vallocs` keeps a property that `pfree` keeps. -/
theorem Kept.vallocsFrom {zero done : Bool} {start pml4 remaining i : Nat}
    (result : Passthru.vallocsFrom zero start pml4 remaining i vmm = .ok (done, after))
    (before : good vmm) : good after := by
  induction remaining generalizing i vmm with
  | zero =>
      obtain ⟨_, rfl⟩ := Prod.mk.inj (Except.ok.inj result)
      exact before
  | succ remaining ih =>
      have taken := kept.palloc vmm before
      rw [Passthru.vallocsFrom] at result
      dsimp only at result
      split at result
      · obtain ⟨freed, freeing, same⟩ := bind_eq_ok.mp result
        obtain ⟨_, rfl⟩ := Prod.mk.inj (Except.ok.inj same)
        exact kept.vfrees free freeing taken
      · obtain ⟨mapped, mapping, rest⟩ := bind_eq_ok.mp result
        have held := kept.mapPage mapping taken
        split at rest
        · obtain ⟨cleared, clearing, looped⟩ := bind_eq_ok.mp rest
          exact ih looped (kept.memsetPage clearing held)
        · exact ih rest held

end Kept

/-- A session with the tables behind the passthru window; a call that stops changes nothing. -/
def step (session : Session) : Request → Session
  | .vallocs zero count =>
      match Passthru.vallocs zero count session.vmm with
      | .error _ => session
      | .ok (start, vmm) =>
          { session with
            vmm := vmm
            returned := if start = 0 then session.returned else (start, count) :: session.returned }
  | .vfrees virtAddr count =>
      match Passthru.vfrees virtAddr count session.vmm with
      | .error _ => session
      | .ok vmm => { session with vmm := vmm, freed := (virtAddr, count) :: session.freed }

/-- Every table that a call touches lies in a frame that the passthru window reaches. -/
def Reaches (vmm : Vmm) : Request → Prop
  | .vallocs zero count => LoopReached zero vmm.nextVirt (vmm.cr3 &&& pteAddrMask) count 0 vmm
  | .vfrees virtAddr count => FreesReached virtAddr (vmm.cr3 &&& pteAddrMask) count vmm

end Passthru

/-- A call whose tables are reached is the call that accesses its tables directly. -/
theorem passthruStep_eq {session : Session} {request : Request}
    (valid : Tables (session.vmm.cr3 &&& pteAddrMask) session.vmm)
    (reaches : Passthru.Reaches session.vmm request) :
    Passthru.step session request = session.step request := by
  cases request with
  | vallocs zero count =>
      rw [Passthru.step, vallocs_eq valid reaches]
      rfl
  | vfrees virtAddr count =>
      rw [Passthru.step, vfrees_reached reaches]
      rfl

end ArchaOS.VirtualMemory
