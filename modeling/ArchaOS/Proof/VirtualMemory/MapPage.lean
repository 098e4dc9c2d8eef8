import ArchaOS.Proof.VirtualMemory.Tables

namespace ArchaOS.VirtualMemory

open Library PhysicalMemory RadixTree

def ptePs : Nat := 1 <<< 7

/-- The entry at an index of a table above the last level names a frame. -/
def UpperEntry (vmm : Vmm) (pml4 table : Nat) (index : Fin 512) (frame : Nat) : Prop :=
  Points present vmm.frames pml4 4 table index frame

/-- The tables form a tree of small-page tables in used frames, and free frames fit into an entry. -/
structure WellFormed (pml4 : Nat) (vmm : Vmm) : Prop where
  aligned : pml4 % pageSize = 0
  single : ∀ frame, IsTable vmm pml4 frame → frame ≠ pml4 →
    ∃! entry : Nat × Fin 512, UpperEntry vmm pml4 entry.1 entry.2 frame
  root : ∀ table index, ¬ UpperEntry vmm pml4 table index pml4
  flat : ∀ table index frame, UpperEntry vmm pml4 table index frame →
    vmm.frames table index &&& ptePs = 0
  used : ∀ frame, IsTable vmm pml4 frame → pageUsed vmm.pmm (frame / pageSize) = true
  small : ∀ page, pageUsed vmm.pmm page = false → page * pageSize < 2 ^ 52

/-- The number of tables that `map_page` has to create for an address. -/
def missingTables (vmm : Vmm) (pml4 virt : Nat) : Nat :=
  if walk present vmm.frames pml4 [pml4Index virt] = none then 3
  else if walk present vmm.frames pml4 [pml4Index virt, pdptIndex virt] = none then 2
  else if walk present vmm.frames pml4 [pml4Index virt, pdptIndex virt, pdIndex virt] = none then 1
  else 0

/-- An address lacks at most three tables. -/
theorem missingTables_le (vmm : Vmm) (pml4 virt : Nat) : missingTables vmm pml4 virt ≤ 3 := by
  unfold missingTables
  split
  · exact le_rfl
  · split
    · decide
    · split <;> decide

/-- The manager after a number of calls of `palloc`. -/
def pallocs : Nat → Pmm → Pmm
  | 0, pmm => pmm
  | count + 1, pmm => pallocs count (palloc pmm).2

/-- Two series of calls are one. -/
theorem pallocs_add (first second : Nat) (pmm : Pmm) :
    pallocs (first + second) pmm = pallocs second (pallocs first pmm) := by
  induction first generalizing pmm with
  | zero => rw [Nat.zero_add, pallocs]
  | succ first ih => rw [Nat.succ_add, pallocs, pallocs, ih]

/-- Tables that one entry points to each form a tree. -/
theorem tree_of_single {pml4 : Nat} {vmm : Vmm}
    (single : ∀ frame, IsTable vmm pml4 frame → frame ≠ pml4 →
      ∃! entry : Nat × Fin 512, UpperEntry vmm pml4 entry.1 entry.2 frame)
    (root : ∀ table index, ¬ UpperEntry vmm pml4 table index pml4) :
    Tree present vmm.frames pml4 4 := by
  rw [tree_iff_points (by decide)]
  refine ⟨root, ?_⟩
  intro table index table' index' frame first second
  have below : frame ≠ pml4 := fun same => root table index (same ▸ first)
  obtain ⟨_, _, only⟩ := single frame (first.holds (by decide)) below
  have same := (only (table, index) first).trans (only (table', index') second).symm
  exact Prod.mk.inj same

/-- The index of a free page is small. -/
theorem tables_small {pmm : Pmm}
    (small : ∀ page, pageUsed pmm page = false → page * pageSize < 2 ^ 52) :
    ∀ page, pageUsed pmm page = false → page < 2 ^ 40 := by
  intro page free
  have bound := small page free
  unfold pageSize at bound
  omega

/-- Well-formed tables are a tree of used frames. -/
theorem WellFormed.tables {pml4 : Nat} {vmm : Vmm} (wellFormed : WellFormed pml4 vmm) :
    Tables pml4 vmm where
  tree := tree_of_single wellFormed.single wellFormed.root
  used := wellFormed.used
  small := tables_small wellFormed.small

/-- A tree of used frames without large pages is well formed. -/
theorem Tables.wellFormed {pml4 : Nat} {vmm : Vmm} (valid : Tables pml4 vmm)
    (aligned : pml4 % pageSize = 0)
    (flat : Every present (fun entry => present entry ≠ none → entry &&& ptePs = 0) vmm.frames pml4 3) :
    WellFormed pml4 vmm where
  aligned := aligned
  single := by
    rintro frame ⟨path, short, reached⟩ below
    obtain ⟨_, parents⟩ := (tree_iff_points (by decide)).mp valid.tree
    cases path using List.reverseRecOn with
    | nil => exact absurd (Option.some.inj reached).symm below
    | append_singleton path index =>
        obtain ⟨table, _, points⟩ := points_of_walk short reached
        refine ⟨(table, index), points, ?_⟩
        rintro ⟨table', index'⟩ points'
        obtain ⟨rfl, rfl⟩ := parents table index table' index' frame points points'
        rfl
  root := ((tree_iff_points (by decide)).mp valid.tree).1
  flat := by
    rintro table index frame ⟨upper, named⟩
    refine flat table index upper ?_
    rw [named]
    intro impossible
    cases impossible
  used := valid.used
  small := by
    intro page free
    have bound := valid.small page free
    unfold pageSize
    omega

/-- No table of the upper levels names a large page. -/
theorem WellFormed.every {pml4 : Nat} {vmm : Vmm} (wellFormed : WellFormed pml4 vmm) :
    Every present (fun entry => present entry ≠ none → entry &&& ptePs = 0) vmm.frames pml4 3 := by
  intro table index upper named
  obtain ⟨frame, named⟩ := Option.ne_none_iff_exists'.mp named
  exact wellFormed.flat table index frame ⟨upper, named⟩

/-- The entry of a table names the table and has its flags. -/
theorem tableEntry_flags (phys : Nat) :
    tableEntry phys &&& pteAddrMask = phys &&& pteAddrMask ∧ tableEntry phys &&& ptePresent ≠ 0 ∧
      tableEntry phys &&& pteRw ≠ 0 ∧ tableEntry phys &&& ptePs = 0 := by
  have distribute (flag : Nat) : tableEntry phys &&& flag =
      (phys &&& (pteAddrMask &&& flag)) ||| (ptePresent &&& flag) ||| (pteRw &&& flag) := by
    rw [tableEntry, Nat.and_or_distrib_right, Nat.and_or_distrib_right, Nat.and_assoc]
  refine ⟨?_, ?_, ?_, ?_⟩
  · rw [distribute, Nat.and_self]
    change (phys &&& pteAddrMask) ||| 0 ||| 0 = _
    rw [Nat.or_zero, Nat.or_zero]
  · rw [distribute]
    change (phys &&& 0) ||| 1 ||| 0 ≠ 0
    simp
  · rw [distribute]
    change (phys &&& 0) ||| 0 ||| 2 ≠ 0
    simp
  · rw [distribute]
    change (phys &&& 0) ||| 0 ||| 0 = 0
    simp

/-- The next calls of `palloc` all succeed. -/
def Room (count : Nat) (pmm : Pmm) : Prop := ∀ taken < count, (palloc (pallocs taken pmm)).1 ≠ 0

/-- With room for one page more the next page is found. -/
theorem Room.next {count : Nat} {pmm : Pmm} (room : Room (count + 1) pmm) :
    (palloc pmm).1 ≠ 0 ∧ Room count (palloc pmm).2 :=
  ⟨room 0 (by omega), fun taken low => room (taken + 1) (by omega)⟩

section Levels

variable {pml4 table : Nat} {index : Fin 512} {path : List (Fin 512)} {vmm : Vmm}
  (valid : Tables pml4 vmm) (reached : walk present vmm.frames pml4 path = some table)
include valid reached

/-- One level of `map_page` returns the table that is there. -/
theorem nextTable_found (message : String) {next : Nat}
    (found : walk present vmm.frames pml4 (path ++ [index]) = some next) :
    nextTable message table index vmm = .ok (next, vmm) := by
  rw [walk_snoc, reached, Option.bind_some] at found
  rcases nextTable_cases message table index valid with
    ⟨other, named, same⟩ | ⟨missing, _⟩ | ⟨missing, _⟩
  · obtain rfl := Option.some.inj (named.symm.trans found)
    exact same
  · rw [missing] at found
    cases found
  · rw [missing] at found
    cases found

/-- One level of `map_page` creates a missing table with one page, and the table is empty. -/
theorem nextTable_created (message : String) (short : path.length + 1 < 4) {count : Nat}
    (missing : walk present vmm.frames pml4 (path ++ [index]) = none)
    (room : Room (count + 1) vmm.pmm) :
    ∃ next after, nextTable message table index vmm = .ok (next, after) ∧ Tables pml4 after ∧
      walk present after.frames pml4 (path ++ [index]) = some next ∧ Room count after.pmm ∧
      ∀ deeper, walk present after.frames pml4 (path ++ [index] ++ [deeper]) = none := by
  obtain ⟨success, rest⟩ := room.next
  have absent := missing
  rw [walk_snoc, reached, Option.bind_some] at absent
  rcases nextTable_cases message table index valid with
    ⟨_, named, _⟩ | ⟨_, page, free, allocated, same⟩ | ⟨_, failed, _⟩
  · rw [named] at absent
    cases absent
  · obtain ⟨added, _, found, empty, _⟩ := valid.addTable_deeper reached short free missing
    refine ⟨_, _, same, added, found, ?_, empty⟩
    rw [allocated] at rest
    exact rest
  · exact absurd failed success

end Levels

/-- `map_page` returns when every page that it needs for missing tables can be allocated. -/
theorem mapPage_returns (phys virt : Nat) {pml4 : Nat} {vmm : Vmm} (valid : Tables pml4 vmm)
    (room : Room (missingTables vmm pml4 virt) vmm.pmm) :
    ∃ after, mapPage phys virt pml4 vmm = .ok after := by
  have top : walk present vmm.frames pml4 [] = some pml4 := walk_nil _ _ _
  unfold missingTables at room
  cases first : walk present vmm.frames pml4 [pml4Index virt] with
  | none =>
      rw [if_pos first] at room
      obtain ⟨pdpt, one, firstTable, valid, reached, room, empty⟩ :=
        nextTable_created valid top "Out of memory creating PDPT" (by decide) first room
      obtain ⟨pd, two, secondTable, valid, reached, room, empty⟩ :=
        nextTable_created valid reached "Out of memory creating PD" (by simp) (empty (pdptIndex virt)) room
      obtain ⟨pt, three, thirdTable, _⟩ :=
        nextTable_created valid reached "Out of memory creating PT" (by simp) (empty (pdIndex virt)) room
      refine ⟨three.store pt (ptIndex virt) (tableEntry phys), ?_⟩
      simp only [mapPage, bind_eq_ok]
      exact ⟨_, firstTable, _, secondTable, _, thirdTable, rfl⟩
  | some pdpt =>
      have firstTable := nextTable_found valid top "Out of memory creating PDPT" first
      rw [if_neg (by simp [first])] at room
      cases second : walk present vmm.frames pml4 [pml4Index virt, pdptIndex virt] with
      | none =>
          rw [if_pos second] at room
          obtain ⟨pd, two, secondTable, valid, reached, room, empty⟩ :=
            nextTable_created valid first "Out of memory creating PD" (by simp) second room
          obtain ⟨pt, three, thirdTable, _⟩ := nextTable_created valid reached
            "Out of memory creating PT" (by simp) (empty (pdIndex virt)) room
          refine ⟨three.store pt (ptIndex virt) (tableEntry phys), ?_⟩
          simp only [mapPage, bind_eq_ok]
          exact ⟨_, firstTable, _, secondTable, _, thirdTable, rfl⟩
      | some pd =>
          have secondTable := nextTable_found valid first "Out of memory creating PD" second
          rw [if_neg (by simp [second])] at room
          cases third : walk present vmm.frames pml4
              [pml4Index virt, pdptIndex virt, pdIndex virt] with
          | none =>
              rw [if_pos third] at room
              obtain ⟨pt, three, thirdTable, _⟩ :=
                nextTable_created valid second "Out of memory creating PT" (by simp) third room
              refine ⟨three.store pt (ptIndex virt) (tableEntry phys), ?_⟩
              simp only [mapPage, bind_eq_ok]
              exact ⟨_, firstTable, _, secondTable, _, thirdTable, rfl⟩
          | some pt =>
              have thirdTable := nextTable_found valid second "Out of memory creating PT" third
              refine ⟨vmm.store pt (ptIndex virt) (tableEntry phys), ?_⟩
              simp only [mapPage, bind_eq_ok]
              exact ⟨_, firstTable, _, secondTable, _, thirdTable, rfl⟩

/-- In a well-formed state with room for the missing tables, `map_page` installs one translation and
changes no other. -/
theorem mapPage_installs (phys virt pml4 : Nat) (vmm : Vmm) (wellFormed : WellFormed pml4 vmm)
    (room : ∀ taken < missingTables vmm pml4 virt, (palloc (pallocs taken vmm.pmm)).1 ≠ 0) :
    ∃ after, mapPage phys virt pml4 vmm = .ok after ∧ WellFormed pml4 after ∧
      (∃ entry, pageEntry after pml4 virt = some entry ∧
        entry &&& pteAddrMask = phys &&& pteAddrMask ∧ entry &&& ptePresent ≠ 0 ∧
        entry &&& pteRw ≠ 0) ∧
      ∀ address, pageKey address ≠ pageKey virt →
        pageEntry after pml4 address = pageEntry vmm pml4 address := by
  obtain ⟨after, result⟩ := mapPage_returns phys virt wellFormed.tables room
  obtain ⟨valid, grown, entries⟩ := mapPage_spec wellFormed.tables result
  have flat := grown.every _ 3 (by decide) (by simp [present_zero])
    (fun frame _ => (tableEntry_flags frame).2.2.2) wellFormed.every
  refine ⟨after, result, valid.wellFormed wellFormed.aligned flat, ?_, ?_⟩
  · obtain ⟨address, flag, writable, _⟩ := tableEntry_flags phys
    exact ⟨tableEntry phys, by rw [entries, if_pos rfl], address, flag, writable⟩
  · intro address different
    rw [entries, if_neg different]

/-- Eight pages, of which the first is reserved and the second holds an empty root table. -/
def blankVmm : Vmm where
  pmm := { sizeofBitmap := 1, maxPages := 8, bitmap := fun _ => 3#8, bitmapAddr := 0,
           bitmapInit := true, freePages := 6, totalPages := 8, totalRamPages := 8,
           totalMemory := 0x8000, totalUsableMemory := 0x8000, maxPhysicalAddress := 0x8000 }
  frames := fun _ _ => 0
  nextVirt := kheapBase
  cr3 := 0x1000

/-- A single empty table is well formed. -/
theorem blankVmm_wellFormed : WellFormed 0x1000 blankVmm := by
  have bare : ∀ index, present (blankVmm.frames 0x1000 index) = none := fun _ => present_zero
  obtain ⟨tree, walks⟩ : Tree present blankVmm.frames 0x1000 4 ∧ _ := Tree.single bare
  refine Tables.wellFormed ⟨tree, ?_, ?_⟩ rfl ?_
  · rintro frame ⟨path, _, reached⟩
    rw [walks] at reached
    split at reached
    · obtain rfl := Option.some.inj reached
      decide
    · cases reached
  · intro page free
    by_contra large
    have outside : page ≥ blankVmm.pmm.maxPages := by
      change 8 ≤ page
      omega
    simp [pageUsed, outside] at free
  · intro table index _ named
    exact absurd present_zero named

/-- The first page of the heap is mapped in an empty table. -/
theorem mapPage_installs_blank :
    WellFormed 0x1000 blankVmm ∧
      (∀ taken < missingTables blankVmm 0x1000 kheapBase,
        (palloc (pallocs taken blankVmm.pmm)).1 ≠ 0) ∧
      ∃ after, mapPage 0x7000 kheapBase 0x1000 blankVmm = .ok after ∧ WellFormed 0x1000 after ∧
        (∃ entry, pageEntry after 0x1000 kheapBase = some entry ∧
          entry &&& pteAddrMask = 0x7000 &&& pteAddrMask ∧ entry &&& ptePresent ≠ 0 ∧
          entry &&& pteRw ≠ 0) ∧
        ∀ address, pageKey address ≠ pageKey kheapBase →
          pageEntry after 0x1000 address = pageEntry blankVmm 0x1000 address := by
  have room : ∀ taken < missingTables blankVmm 0x1000 kheapBase,
      (palloc (pallocs taken blankVmm.pmm)).1 ≠ 0 := by
    decide
  exact ⟨blankVmm_wellFormed, room,
    mapPage_installs 0x7000 kheapBase 0x1000 blankVmm blankVmm_wellFormed room⟩

end ArchaOS.VirtualMemory
