import ArchaOS.Construction.VirtualMemory
import ArchaOS.Library.Outcome
import ArchaOS.Proof.PhysicalMemory.Palloc

namespace ArchaOS.VirtualMemory

open Library PhysicalMemory RadixTree

/-- The number of the page of an address that the tables can tell apart. -/
def pageKey (address : Nat) : Nat := address / pageSize % 2 ^ 36

/-- The page of an address starts at a multiple of its size. -/
theorem pageKey_start {address : Nat} :
    pageKey address = pageKey (address / pageSize * pageSize) := by
  unfold pageKey pageSize
  omega

/-- The mask of an entry keeps forty bits. -/
theorem addrMask_eq (phys : Nat) : phys &&& pteAddrMask = phys / 2 ^ 12 % 2 ^ 40 * 2 ^ 12 :=
  and_mask phys 12 40

/-- The mask of a page clears the offset. -/
theorem pageMask_eq (address : Nat) : address &&& pageMask = address / 2 ^ 12 % 2 ^ 52 * 2 ^ 12 :=
  and_mask address 12 52

/-- A masked address is the start of its page. -/
theorem pageMask_low {address : Nat} (small : address < 2 ^ 64) :
    address &&& pageMask = address / pageSize * pageSize := by
  rw [pageMask_eq]
  unfold pageSize
  omega

/-- The frame of a small page fits into an entry. -/
theorem addrMask_page {page : Nat} (low : page < 2 ^ 40) :
    page * pageSize &&& pteAddrMask = page * pageSize := by
  rw [addrMask_eq]
  unfold pageSize
  omega

theorem present_zero : present 0 = none := rfl

/-- An entry names the frame that it was made for. -/
theorem present_flags (phys : Nat) :
    present (phys ||| ptePresent ||| pteRw) = some (phys &&& pteAddrMask) := by
  have flag : (phys ||| ptePresent ||| pteRw) &&& ptePresent ≠ 0 := by
    rw [Nat.and_or_distrib_right, Nat.and_or_distrib_right]
    have bit : ptePresent &&& ptePresent = 1 := rfl
    have other : pteRw &&& ptePresent = 0 := rfl
    rw [bit, other, Nat.or_zero]
    intro zero
    have right := Nat.right_le_or (n := phys &&& ptePresent) (m := 1)
    omega
  have address : (phys ||| ptePresent ||| pteRw) &&& pteAddrMask = phys &&& pteAddrMask := by
    rw [Nat.and_or_distrib_right, Nat.and_or_distrib_right]
    have low : ptePresent &&& pteAddrMask = 0 := rfl
    have next : pteRw &&& pteAddrMask = 0 := rfl
    rw [low, next, Nat.or_zero, Nat.or_zero]
  rw [present, if_neg flag, address]

/-- The entry of a table names the table. -/
theorem present_tableEntry (phys : Nat) : present (tableEntry phys) = some (phys &&& pteAddrMask) := by
  rw [tableEntry, present_flags, Nat.and_assoc, Nat.and_self]

/-- An index is nine bits of the address. -/
theorem tableIndex_val (shift address : Nat) :
    (tableIndex shift address).val = address / 2 ^ shift % 512 := by
  change (address >>> shift) &&& (2 ^ 9 - 1) = _
  rw [Nat.and_two_pow_sub_one_eq_mod, Nat.shiftRight_eq_div_pow]

/-- Two addresses share their four indices exactly when they lie on the same page. -/
theorem tablePath_eq_iff (first second : Nat) :
    tablePath first = tablePath second ↔ pageKey first = pageKey second := by
  simp only [tablePath, List.cons.injEq, and_true, Fin.ext_iff, pml4Index, pdptIndex, pdIndex,
    ptIndex, tableIndex_val, pageKey, pageSize]
  omega

/-- The addresses of one page are looked up alike. -/
theorem lookup_congr (vmm : Vmm) (pml4 : Nat) {first second : Nat}
    (same : pageKey first = pageKey second) : lookup vmm pml4 first = lookup vmm pml4 second := by
  rw [lookup, lookup, (tablePath_eq_iff first second).mpr same]

/-- The entry that the tables below `pml4` hold for an address, when it is present. -/
def pageEntry (vmm : Vmm) (pml4 address : Nat) : Option Nat :=
  entryAt present vmm.frames pml4 [pml4Index address, pdptIndex address, pdIndex address]
    (ptIndex address)

/-- A page is looked up in its entry. -/
theorem lookup_eq (vmm : Vmm) (pml4 address : Nat) :
    lookup vmm pml4 address = (pageEntry vmm pml4 address).bind present :=
  walk_entryAt present vmm.frames pml4
    [pml4Index address, pdptIndex address, pdIndex address] (ptIndex address)

/-- Two addresses have the same indices exactly when they lie in the same page. -/
theorem upperPath_eq_iff (first second : Nat) :
    ([pml4Index first, pdptIndex first, pdIndex first] =
        [pml4Index second, pdptIndex second, pdIndex second] ∧ ptIndex first = ptIndex second) ↔
      pageKey first = pageKey second := by
  rw [← tablePath_eq_iff]
  simp only [tablePath, List.cons.injEq, and_true, and_assoc]

/-- The frame holds a table of the tree below `pml4`. -/
def IsTable (vmm : Vmm) (pml4 frame : Nat) : Prop := Holds present vmm.frames pml4 4 frame

/-- The tables form a tree of used frames, and free frames fit into an entry. -/
structure Tables (pml4 : Nat) (vmm : Vmm) : Prop where
  tree : Tree present vmm.frames pml4 4
  used : ∀ frame, IsTable vmm pml4 frame → pageUsed vmm.pmm (frame / pageSize) = true
  small : ∀ page, pageUsed vmm.pmm page = false → page < 2 ^ 40

/-- Tables were added out of free pages, and nothing else happened to the pages. -/
structure Grown (pml4 : Nat) (before after : Vmm) : Prop where
  layout : SameLayout after.pmm before.pmm
  ready : Ready before.pmm → Ready after.pmm
  nextVirt : after.nextVirt = before.nextVirt
  cr3 : after.cr3 = before.cr3
  every : ∀ (good : Nat → Prop) level, level ≤ 4 → good 0 → (∀ phys, good (tableEntry phys)) →
    Every present good before.frames pml4 level → Every present good after.frames pml4 level
  tables : ∀ frame, IsTable before pml4 frame → IsTable after pml4 frame
  used : ∀ page, pageUsed before.pmm page = true → pageUsed after.pmm page = true
  taken : ∀ page, pageUsed before.pmm page = false →
    pageUsed after.pmm page = false ∨ IsTable after pml4 (page * pageSize)
  fresh : ∀ frame, IsTable after pml4 frame →
    IsTable before pml4 frame ∨ pageUsed before.pmm (frame / pageSize) = false
  contents : ∀ page, pageUsed after.pmm page = false →
    after.frames (page * pageSize) = before.frames (page * pageSize)

/-- Without a step no table was added. -/
theorem Grown.refl (pml4 : Nat) (vmm : Vmm) : Grown pml4 vmm vmm where
  layout := SameLayout.refl _
  ready := id
  nextVirt := rfl
  cr3 := rfl
  every := fun _ _ _ _ _ => id
  tables := fun _ => id
  used := fun _ => id
  taken := fun _ => Or.inl
  fresh := fun _ => Or.inl
  contents := fun _ _ => rfl

/-- Two steps add the tables of both. -/
theorem Grown.trans {pml4 : Nat} {first second third : Vmm} (left : Grown pml4 first second)
    (right : Grown pml4 second third) : Grown pml4 first third where
  layout := right.layout.trans left.layout
  ready := fun ready => right.ready (left.ready ready)
  nextVirt := right.nextVirt.trans left.nextVirt
  cr3 := right.cr3.trans left.cr3
  every := fun good level below blank entry every =>
    right.every good level below blank entry (left.every good level below blank entry every)
  tables := fun frame table => right.tables frame (left.tables frame table)
  used := fun page held => right.used page (left.used page held)
  taken := by
    intro page free
    rcases left.taken page free with still | table
    · exact right.taken page still
    · exact Or.inr (right.tables _ table)
  fresh := by
    intro frame table
    rcases right.fresh frame table with old | free
    · exact left.fresh frame old
    · right
      cases before : pageUsed first.pmm (frame / pageSize) with
      | false => rfl
      | true =>
          rw [left.used _ before] at free
          cases free
  contents := by
    intro page free
    have still : pageUsed second.pmm page = false := by
      cases held : pageUsed second.pmm page with
      | false => rfl
      | true =>
          rw [right.used page held] at free
          cases free
    rw [right.contents page free, left.contents page still]

/-- The state in which a free page has become the table below one entry. -/
def Vmm.addTable (vmm : Vmm) (table : Nat) (index : Fin 512) (page : Nat) : Vmm :=
  ({ vmm with pmm := markUsed vmm.pmm page }.clear (page * pageSize)).store table index
    (tableEntry (page * pageSize))

/-- Clearing a frame leaves the others. -/
theorem clear_other (vmm : Vmm) {table frame : Nat} (different : table ≠ frame) :
    (vmm.clear frame).frames table = vmm.frames table := Function.update_of_ne different _ _

/-- The number of a frame is its page. -/
theorem page_quotient (page : Nat) : page * pageSize / pageSize = page :=
  Nat.mul_div_cancel page (by decide)

section Changes

variable {pml4 : Nat} {vmm : Vmm} (valid : Tables pml4 vmm)
include valid

/-- A free page holds no table. -/
theorem Tables.free_not_table {page : Nat} (free : pageUsed vmm.pmm page = false) :
    ¬ IsTable vmm pml4 (page * pageSize) := by
  intro table
  have used := valid.used _ table
  rw [page_quotient, free] at used
  cases used

/-- Taking a page keeps the tables. -/
theorem Tables.markUsed (page : Nat) :
    Tables pml4 { vmm with pmm := PhysicalMemory.markUsed vmm.pmm page } where
  tree := valid.tree
  used := by
    intro frame table
    change pageUsed (PhysicalMemory.markUsed vmm.pmm page) _ = true
    rw [pageUsed_markUsed, valid.used frame table, Bool.or_true]
  small := by
    intro other free
    change pageUsed (PhysicalMemory.markUsed vmm.pmm page) other = false at free
    rw [pageUsed_markUsed, Bool.or_eq_false_iff] at free
    exact valid.small other free.2

omit valid in
/-- Clearing a frame that holds no table leaves the tree as it is. -/
theorem clear_agree {frame : Nat} (data : ¬ IsTable vmm pml4 frame) (table : Nat)
    (held : Holds present vmm.frames pml4 4 table) :
    (vmm.clear frame).frames table = vmm.frames table := by
  have different : table ≠ frame := fun same => data (same ▸ held)
  exact clear_other vmm different

/-- Clearing a frame that is no table keeps the tables. -/
theorem Tables.clear {frame : Nat} (data : ¬ IsTable vmm pml4 frame) :
    Tables pml4 (vmm.clear frame) where
  tree := valid.tree.agree (clear_agree data)
  used := fun table held => valid.used table
    ((holds_agree (clear_agree data) le_rfl table).mp held)
  small := valid.small

/-- Storing an entry in a table of the last level keeps the tree. -/
theorem Tables.put {path : List (Fin 512)} {table : Nat} (index : Fin 512) (entry : Nat)
    (reached : walk present vmm.frames pml4 path = some table) (last : path.length + 1 = 4) :
    Tables pml4 (vmm.store table index entry) where
  tree := valid.tree.put reached last
  used := fun frame held => valid.used frame ((holds_put valid.tree reached last le_rfl frame).mp held)
  small := valid.small

/-- Writing an entry of the last level adds no table. -/
theorem Tables.put_grown {path : List (Fin 512)} {table : Nat} (index : Fin 512) {entry : Nat}
    (reached : walk present vmm.frames pml4 path = some table) (last : path.length + 1 = 4)
    (clean : ∀ good : Nat → Prop, good 0 → (∀ phys, good (tableEntry phys)) → good entry) :
    Grown pml4 vmm (vmm.store table index entry) where
  layout := SameLayout.refl _
  ready := id
  nextVirt := rfl
  cr3 := rfl
  every := fun good _ below blank made every =>
    every.put valid.tree reached last below fun _ => clean good blank made
  tables := fun frame => (holds_put valid.tree reached last le_rfl frame).mpr
  used := fun _ => id
  taken := fun _ => Or.inl
  fresh := fun frame held => Or.inl ((holds_put valid.tree reached last le_rfl frame).mp held)
  contents := by
    intro page free
    refine write_of_ne_frame vmm.frames (fun same => ?_) index entry
    have table : IsTable vmm pml4 (page * pageSize) := ⟨path, by omega, same ▸ reached⟩
    exact valid.free_not_table free table

omit valid in
/-- Writing an entry of the last level changes the entry of its page only. -/
theorem put_pageEntry (tree : Tree present vmm.frames pml4 4) {pt virt : Nat} (entry : Nat)
    (reached : walk present vmm.frames pml4 [pml4Index virt, pdptIndex virt, pdIndex virt] = some pt)
    (address : Nat) :
    pageEntry (vmm.store pt (ptIndex virt) entry) pml4 address =
      if pageKey address = pageKey virt then if (present entry).isNone then none else some entry
      else pageEntry vmm pml4 address := by
  have stored : pageEntry (vmm.store pt (ptIndex virt) entry) pml4 address = _ :=
    entryAt_put tree reached rfl [pml4Index address, pdptIndex address, pdIndex address] rfl
      (ptIndex address)
  rw [stored]
  exact if_congr (upperPath_eq_iff address virt) rfl rfl

end Changes

/-- A successful `palloc` takes one free page. -/
theorem palloc_taken {pmm : Pmm} (success : (palloc pmm).1 ≠ 0) :
    ∃ page, page < pmm.maxPages ∧ pageUsed pmm page = false ∧
      palloc pmm = (page * pageSize, markUsed pmm page) := by
  unfold palloc at success ⊢
  split at success
  · exact absurd rfl success
  · rename_i initialised
    rw [if_neg initialised]
    cases search : (List.range pmm.sizeofBitmap).findSome? (pallocBit pmm) with
    | none => simp [search] at success
    | some page =>
        obtain ⟨byte, _, answer, _⟩ := findSome_range_some search
        obtain ⟨_, unset, _⟩ := pallocBit_some answer
        by_cases beyond : page ≥ pmm.maxPages
        · simp [search, beyond] at success
        · refine ⟨page, not_le.mp beyond, ?_, ?_⟩
          · simp [pageUsed, beyond, unset]
          · simp [beyond]

section AddTable

variable {pml4 table page : Nat} {index : Fin 512} {path : List (Fin 512)} {vmm : Vmm}
  (valid : Tables pml4 vmm) (reached : walk present vmm.frames pml4 path = some table)
  (short : path.length + 1 < 4) (missing : present (vmm.frames table index) = none)
  (free : pageUsed vmm.pmm page = false)
include valid reached short missing free

/-- A free page is cleared and linked below an entry that named nothing. -/
theorem Tables.addTable_linking : Linking present vmm.frames
    (({ vmm with pmm := PhysicalMemory.markUsed vmm.pmm page } : Vmm).clear (page * pageSize)).frames
    pml4 4 path index table (page * pageSize) (tableEntry (page * pageSize)) where
  tree := valid.tree
  reached := reached
  short := short
  missing := missing
  named := by rw [present_tableEntry, addrMask_page (valid.small page free)]
  unheld := valid.free_not_table free
  agree := clear_agree (valid.free_not_table free)
  bare := by
    intro position
    simp [Vmm.clear, present_zero]

/-- The tables are the old ones and the new one. -/
theorem Tables.addTable_isTable (frame : Nat) : IsTable (vmm.addTable table index page) pml4 frame ↔
    frame = page * pageSize ∨ IsTable vmm pml4 frame := by
  have linking := valid.addTable_linking reached short missing free
  have held : IsTable (vmm.addTable table index page) pml4 frame ↔ _ := linking.holds_iff le_rfl frame
  rw [held]
  simp only [short, true_and]
  rfl

/-- Adding a table takes one free page. -/
theorem Tables.addTable_grown : Grown pml4 vmm (vmm.addTable table index page) where
  layout := markUsed_layout vmm.pmm page
  ready := fun ready => ready.markUsed page
  nextVirt := rfl
  cr3 := rfl
  every := by
    intro good level below zero made every
    have linking := valid.addTable_linking reached short missing free
    refine linking.every every below (made _) fun position => ?_
    simpa [Vmm.clear] using zero
  tables := fun frame held => (valid.addTable_isTable reached short missing free frame).mpr (Or.inr held)
  used := by
    intro other used
    change pageUsed (PhysicalMemory.markUsed vmm.pmm page) other = true
    rw [pageUsed_markUsed, used, Bool.or_true]
  taken := by
    intro other unused
    by_cases here : other = page
    · apply Or.inr
      rw [valid.addTable_isTable reached short missing free, here]
      exact Or.inl rfl
    · apply Or.inl
      change pageUsed (PhysicalMemory.markUsed vmm.pmm page) other = false
      rw [pageUsed_markUsed, unused, Bool.or_false]
      exact decide_eq_false here
  fresh := by
    intro frame held
    rcases (valid.addTable_isTable reached short missing free frame).mp held with rfl | old
    · apply Or.inr
      rw [page_quotient]
      exact free
    · exact Or.inl old
  contents := by
    intro other unused
    change pageUsed (PhysicalMemory.markUsed vmm.pmm page) other = false at unused
    rw [pageUsed_markUsed, Bool.or_eq_false_iff] at unused
    have parent : other * pageSize ≠ table := by
      intro same
      have held : IsTable vmm pml4 (other * pageSize) := ⟨path, by omega, same ▸ reached⟩
      exact valid.free_not_table unused.2 held
    have apart : other * pageSize ≠ page * pageSize := by
      have different := of_decide_eq_false unused.1
      unfold pageSize
      omega
    have stored := write_of_ne_frame
      (({ vmm with pmm := PhysicalMemory.markUsed vmm.pmm page } : Vmm).clear (page * pageSize)).frames
      parent index (tableEntry (page * pageSize))
    exact stored.trans (clear_other _ apart)

/-- A free page becomes a table of the tree. -/
theorem Tables.addTable :
    Tables pml4 (vmm.addTable table index page) ∧ Grown pml4 vmm (vmm.addTable table index page) ∧
      (∀ target, target.length ≤ 4 →
        walk present (vmm.addTable table index page).frames pml4 target =
          if target = path ++ [index] then some (page * pageSize)
          else walk present vmm.frames pml4 target) ∧
      ∀ address, pageEntry (vmm.addTable table index page) pml4 address =
        pageEntry vmm pml4 address := by
  have linking := valid.addTable_linking reached short missing free
  have grown := valid.addTable_grown reached short missing free
  refine ⟨⟨linking.linked, ?_, (valid.markUsed page).small⟩, grown, linking.walk_eq, ?_⟩
  · intro frame held
    rcases (valid.addTable_isTable reached short missing free frame).mp held with rfl | old
    · change pageUsed (PhysicalMemory.markUsed vmm.pmm page) _ = true
      rw [page_quotient, pageUsed_markUsed, decide_eq_true rfl, Bool.true_or]
    · exact grown.used _ (valid.used frame old)
  · intro address
    exact linking.entryAt_eq [pml4Index address, pdptIndex address, pdIndex address] rfl
      (ptIndex address)

omit missing in
/-- The new table is reached through its entry and is empty. -/
theorem Tables.addTable_deeper (missing : walk present vmm.frames pml4 (path ++ [index]) = none) :
    Tables pml4 (vmm.addTable table index page) ∧ Grown pml4 vmm (vmm.addTable table index page) ∧
      walk present (vmm.addTable table index page).frames pml4 (path ++ [index]) =
        some (page * pageSize) ∧
      (∀ deeper, walk present (vmm.addTable table index page).frames pml4
        (path ++ [index] ++ [deeper]) = none) ∧
      (∀ address, pageEntry (vmm.addTable table index page) pml4 address =
        pageEntry vmm pml4 address) ∧
      ∀ target, target.length ≤ 4 → target ≠ path ++ [index] →
        walk present (vmm.addTable table index page).frames pml4 target =
          walk present vmm.frames pml4 target := by
  have absent := missing
  rw [walk_snoc, reached, Option.bind_some] at absent
  have linking := valid.addTable_linking reached short absent free
  obtain ⟨added, grown, walks, entries⟩ := valid.addTable reached short absent free
  refine ⟨added, grown, linking.walk_fresh, ?_, entries, ?_⟩
  · intro deeper
    rw [walks _ (by simp only [List.length_append, List.length_singleton]; omega), if_neg (by simp),
      walk_snoc, missing]
    rfl
  · intro target small different
    rw [walks target small, if_neg different]

end AddTable

/-- One level of `map_page` finds the next table, creates it from a free page or panics. -/
theorem nextTable_cases (message : String) {pml4 : Nat} (table : Nat) (index : Fin 512) {vmm : Vmm}
    (valid : Tables pml4 vmm) :
    (∃ next, present (vmm.frames table index) = some next ∧
      nextTable message table index vmm = .ok (next, vmm)) ∨
    (present (vmm.frames table index) = none ∧ ∃ page, pageUsed vmm.pmm page = false ∧
      palloc vmm.pmm = (page * pageSize, markUsed vmm.pmm page) ∧
      nextTable message table index vmm = .ok (page * pageSize, vmm.addTable table index page)) ∨
    (present (vmm.frames table index) = none ∧ (palloc vmm.pmm).1 = 0 ∧
      nextTable message table index vmm = .error (.panic message)) := by
  by_cases absent : vmm.frames table index &&& ptePresent = 0
  · have missing : present (vmm.frames table index) = none := if_pos absent
    right
    by_cases failed : (palloc vmm.pmm).1 = 0
    · refine Or.inr ⟨missing, failed, ?_⟩
      simp [nextTable, absent, failed]
    · obtain ⟨page, _, free, allocated⟩ := palloc_taken failed
      refine Or.inl ⟨missing, page, free, allocated, ?_⟩
      have entry : (vmm.addTable table index page).frames table index &&& pteAddrMask =
          page * pageSize := by
        have named := present_tableEntry (page * pageSize)
        rw [addrMask_page (valid.small page free)] at named
        change write _ table index _ table index &&& pteAddrMask = _
        rw [write_self]
        unfold present at named
        split at named
        · cases named
        · exact Option.some.inj named
      rw [allocated] at failed
      unfold nextTable
      simp only [absent, if_true, allocated, failed, if_false]
      exact congrArg (fun next => Except.ok (next, vmm.addTable table index page)) entry
  · refine Or.inl ⟨vmm.frames table index &&& pteAddrMask, if_neg absent, ?_⟩
    simp [nextTable, absent]

/-- One level of `map_page` keeps the tree, returns the next table and keeps every mapping. -/
theorem nextTable_spec {message : String} {pml4 table next : Nat} {index : Fin 512}
    {path : List (Fin 512)} {vmm after : Vmm} (valid : Tables pml4 vmm)
    (reached : walk present vmm.frames pml4 path = some table) (short : path.length + 1 < 4)
    (result : nextTable message table index vmm = .ok (next, after)) :
    Tables pml4 after ∧ Grown pml4 vmm after ∧
      walk present after.frames pml4 (path ++ [index]) = some next ∧
      ∀ address, pageEntry after pml4 address = pageEntry vmm pml4 address := by
  rcases nextTable_cases message table index valid with
    ⟨found, named, same⟩ | ⟨missing, page, free, _, same⟩ | ⟨_, _, same⟩
  · rw [same, Except.ok.injEq, Prod.mk.injEq] at result
    obtain ⟨rfl, rfl⟩ := result
    refine ⟨valid, Grown.refl pml4 vmm, ?_, fun _ => rfl⟩
    rw [walk_snoc, reached, Option.bind_some, named]
  · rw [same, Except.ok.injEq, Prod.mk.injEq] at result
    obtain ⟨rfl, rfl⟩ := result
    obtain ⟨added, grown, _, entries⟩ := valid.addTable reached short missing free
    exact ⟨added, grown, (valid.addTable_linking reached short missing free).walk_fresh, entries⟩
  · rw [same] at result
    cases result

/-- `map_page` keeps the tree, adds tables only out of free pages and changes one page. -/
theorem mapPage_spec {phys virt pml4 : Nat} {vmm after : Vmm} (valid : Tables pml4 vmm)
    (result : mapPage phys virt pml4 vmm = .ok after) :
    Tables pml4 after ∧ Grown pml4 vmm after ∧
      ∀ address, pageEntry after pml4 address =
        if pageKey address = pageKey virt then some (tableEntry phys)
        else pageEntry vmm pml4 address := by
  simp only [mapPage, bind_eq_ok] at result
  obtain ⟨⟨pdpt, first⟩, firstTable, ⟨pd, second⟩, secondTable, ⟨pt, third⟩, thirdTable, stored⟩ := result
  obtain rfl := Except.ok.inj stored
  obtain ⟨valid, grown, reached, entries⟩ :=
    nextTable_spec valid (walk_nil _ _ _) (by decide) firstTable
  obtain ⟨valid, grown', reached, entries'⟩ := nextTable_spec valid reached (by simp) secondTable
  obtain ⟨valid, grown'', reached, entries''⟩ := nextTable_spec valid reached (by simp) thirdTable
  refine ⟨valid.put _ _ reached (by simp), ((grown.trans grown').trans grown'').trans
    (valid.put_grown _ reached (by simp) fun _ _ made => made phys), fun address => ?_⟩
  rw [put_pageEntry valid.tree _ reached, present_tableEntry, entries'', entries', entries]
  rfl

/-- `unmap_page` returns the frame of a mapped page and clears its entry, or changes nothing. -/
theorem unmapPage_cases {pml4 : Nat} {vmm : Vmm}
    (tidy : Every present (fun entry => present entry = none → entry = 0) vmm.frames pml4 4)
    (virt : Nat) :
    (lookup vmm pml4 virt = none ∧ unmapPage virt pml4 vmm = (0, vmm)) ∨
    ∃ pt phys, walk present vmm.frames pml4 [pml4Index virt, pdptIndex virt, pdIndex virt] = some pt ∧
      lookup vmm pml4 virt = some phys ∧
      unmapPage virt pml4 vmm = (phys, vmm.store pt (ptIndex virt) 0) := by
  unfold unmapPage lookup tablePath walk
  by_cases first : vmm.frames pml4 (pml4Index virt) &&& ptePresent = 0
  · left
    simp [first, present]
  · generalize named : vmm.frames pml4 (pml4Index virt) &&& pteAddrMask = pdpt
    by_cases second : vmm.frames pdpt (pdptIndex virt) &&& ptePresent = 0
    · left
      simp [first, second, named, present]
    · generalize named' : vmm.frames pdpt (pdptIndex virt) &&& pteAddrMask = pd
      by_cases third : vmm.frames pd (pdIndex virt) &&& ptePresent = 0
      · left
        simp [first, second, third, named, named', present]
      · generalize named'' : vmm.frames pd (pdIndex virt) &&& pteAddrMask = pt
        have reached : walk present vmm.frames pml4
            [pml4Index virt, pdptIndex virt, pdIndex virt] = some pt := by
          simp [walk, first, second, third, named, named', named'', present]
        by_cases leaf : vmm.frames pt (ptIndex virt) &&& ptePresent = 0
        · left
          have blank := tidy pt (ptIndex virt) ⟨_, by simp, reached⟩ (if_pos leaf)
          have unchanged : vmm.store pt (ptIndex virt) 0 = vmm := by
            unfold Vmm.store
            rw [← blank, write_unchanged]
          simp [first, second, third, named, named', named'', present, blank, unchanged]
        · right
          refine ⟨pt, vmm.frames pt (ptIndex virt) &&& pteAddrMask, reached, ?_, ?_⟩
          · simp [first, second, third, named, named', named'', leaf, present]
          · simp [first, second, third, named', named'']

end ArchaOS.VirtualMemory
