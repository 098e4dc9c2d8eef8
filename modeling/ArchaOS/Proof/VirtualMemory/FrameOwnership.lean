import ArchaOS.Proof.VirtualMemory.TableCount
import ArchaOS.Proof.VirtualMemory.Unmapping

namespace ArchaOS.VirtualMemory

open Library PhysicalMemory RadixTree

/-- The address of a page of the kernel heap. -/
def slot (index : Nat) : Nat := add64 kheapBase (index * pageSize)

/-- Different pages of the heap have different addresses. -/
theorem slot_inj {index other : Nat} (low : index < 2 ^ 36) (low' : other < 2 ^ 36)
    (same : pageKey (slot index) = pageKey (slot other)) : index = other := by
  unfold pageKey slot add64 kheapBase pageSize at same
  omega

/-- The pages of the heap follow each other. -/
theorem slot_add (index more : Nat) : add64 (slot index) (mul64 more pageSize) = slot (index + more) := by
  unfold slot add64 mul64 kheapBase pageSize
  omega

/-- A page of the heap starts at a page. -/
theorem slot_aligned (index : Nat) : slot index % pageSize = 0 := by
  unfold slot add64 kheapBase pageSize
  omega

/-- Every page that was free at first is free, a table or mapped at one of the first pages of the
heap, and those map nothing else. -/
structure Owned (pml4 : Nat) (first : Vmm) (count : Nat) (vmm : Vmm) : Prop where
  tables : Tables pml4 vmm
  tidy : Tidy pml4 vmm
  ready : Ready vmm.pmm
  layout : SameLayout vmm.pmm first.pmm
  low : ∀ frame, IsTable vmm pml4 frame → frame / pageSize < vmm.pmm.maxPages
  used : ∀ page, pageUsed first.pmm page = true → pageUsed vmm.pmm page = true
  held : ∀ page, pageUsed first.pmm page = false → pageUsed vmm.pmm page = false ∨
    IsTable vmm pml4 (page * pageSize) ∨
    ∃ index < count, lookup vmm pml4 (slot index) = some (page * pageSize)
  mapped : ∀ index < count, ∀ frame, lookup vmm pml4 (slot index) = some frame →
    ∃ page, frame = page * pageSize ∧ pageUsed first.pmm page = false ∧
      pageUsed vmm.pmm page = true ∧ ¬ IsTable vmm pml4 frame
  once : ∀ index < count, ∀ other < count, ∀ frame, lookup vmm pml4 (slot index) = some frame →
    lookup vmm pml4 (slot other) = some frame → index = other

/-- At first the heap is empty. -/
theorem Booted.owned {pml4 : Nat} {vmm : Vmm} (booted : Booted pml4 vmm) : Owned pml4 vmm 0 vmm where
  tables := booted.tables
  tidy := booted.tidy
  ready := booted.ready
  layout := SameLayout.refl _
  low := booted.low
  used := fun _ => id
  held := fun _ => Or.inl
  mapped := fun _ none => absurd none (Nat.not_lt_zero _)
  once := fun _ none => absurd none (Nat.not_lt_zero _)

theorem pages_inj {first second : Nat} (same : first * pageSize = second * pageSize) :
    first = second := by
  unfold pageSize at same
  omega

/-- The heap is one page longer, and no other page is mapped anew. -/
structure Lengthened (pml4 : Nat) (first : Vmm) (count : Nat) (vmm after : Vmm) : Prop where
  owned : Owned pml4 first (count + 1) after
  others : ∀ address, pageKey address ≠ pageKey (slot count) →
    lookup after pml4 address = lookup vmm pml4 address
  tables : ∀ frame, IsTable vmm pml4 frame → IsTable after pml4 frame
  counted : after.pmm.freePages + missingTables vmm pml4 (slot count) + 1 = vmm.pmm.freePages
  walks : ∀ path : List (Fin 512), path.length < 4 → path ∉ upperPaths (slot count) →
    walk present after.frames pml4 path = walk present vmm.frames pml4 path
  nextVirt : after.nextVirt = vmm.nextVirt
  cr3 : after.cr3 = vmm.cr3

/-- A longer heap leaves fewer free pages. -/
theorem Lengthened.fewer {pml4 count : Nat} {first vmm after : Vmm}
    (lengthened : Lengthened pml4 first count vmm after) :
    after.pmm.freePages < vmm.pmm.freePages := by
  have counted := lengthened.counted
  omega

section Steps

variable {pml4 count : Nat} {first vmm : Vmm} (owned : Owned pml4 first count vmm)
include owned

/-- A free page was free at first. -/
theorem Owned.free_first {page : Nat} (free : pageUsed vmm.pmm page = false) :
    pageUsed first.pmm page = false := by
  cases held : pageUsed first.pmm page with
  | false => rfl
  | true =>
      rw [owned.used page held] at free
      cases free

section Mapping

variable {page : Nat} {after : Vmm} (free : pageUsed vmm.pmm page = false)
  (grown : Grown pml4 { vmm with pmm := markUsed vmm.pmm page } after)
  (here : lookup after pml4 (slot count) = some (page * pageSize))
  (others : ∀ index < count, lookup after pml4 (slot index) = lookup vmm pml4 (slot index))

omit owned in
include grown in
/-- The page that was taken is in use. -/
theorem Grown.taken_used : pageUsed after.pmm page = true := by
  apply grown.used
  rw [pageUsed_markUsed, decide_eq_true rfl, Bool.true_or]

omit owned in
include grown in
/-- A page in use stays in use. -/
theorem Grown.still_used {other : Nat} (used : pageUsed vmm.pmm other = true) :
    pageUsed after.pmm other = true := by
  apply grown.used
  rw [pageUsed_markUsed, used, Bool.or_true]

omit owned in
include grown in
/-- A page in use, or the page just taken, does not become a table. -/
theorem Grown.not_table {other : Nat} (data : ¬ IsTable vmm pml4 (other * pageSize))
    (used : pageUsed (markUsed vmm.pmm page) other = true) : ¬ IsTable after pml4 (other * pageSize) := by
  intro table
  rcases grown.fresh _ table with old | unused
  · exact data old
  · rw [page_quotient] at unused
    exact Bool.false_ne_true (unused.symm.trans used)

include grown here others in
/-- The pages that were free at first have one of the three roles when the next page is mapped. -/
theorem Owned.held_mapped {other : Nat} (start : pageUsed first.pmm other = false) :
    pageUsed after.pmm other = false ∨ IsTable after pml4 (other * pageSize) ∨
      ∃ index < count + 1, lookup after pml4 (slot index) = some (other * pageSize) := by
  rcases owned.held other start with unused | table | ⟨index, low, found⟩
  · by_cases same : other = page
    · rw [same]
      exact Or.inr (Or.inr ⟨count, Nat.lt_succ_self count, here⟩)
    · have still : pageUsed (markUsed vmm.pmm page) other = false := by
        rw [pageUsed_markUsed, unused, Bool.or_false]
        exact decide_eq_false same
      rcases grown.taken other still with unused | table
      · exact Or.inl unused
      · exact Or.inr (Or.inl table)
  · exact Or.inr (Or.inl (grown.tables _ table))
  · exact Or.inr (Or.inr ⟨index, low.trans (Nat.lt_succ_self count), (others index low).trans found⟩)

include free grown here others in
/-- The pages of the longer heap have frames that are no tables. -/
theorem Owned.mapped_mapped {index : Nat} (low : index < count + 1) {frame : Nat}
    (found : lookup after pml4 (slot index) = some frame) :
    ∃ other, frame = other * pageSize ∧ pageUsed first.pmm other = false ∧
      pageUsed after.pmm other = true ∧ ¬ IsTable after pml4 frame := by
  rcases Nat.lt_succ_iff_lt_or_eq.mp low with old | rfl
  · rw [others index old] at found
    obtain ⟨other, rfl, start, used, data⟩ := owned.mapped index old frame found
    refine ⟨other, rfl, start, grown.still_used used, grown.not_table data ?_⟩
    rw [pageUsed_markUsed, used, Bool.or_true]
  · obtain rfl := Option.some.inj (here.symm.trans found)
    have data := owned.tables.free_not_table free
    refine ⟨page, rfl, owned.free_first free, grown.taken_used, grown.not_table data ?_⟩
    rw [pageUsed_markUsed, decide_eq_true rfl, Bool.true_or]

include free here others in
/-- No older page of the heap has the frame of the new one. -/
theorem Owned.once_mapped {index other frame : Nat} (low : index < count + 1) (low' : other < count + 1)
    (found : lookup after pml4 (slot index) = some frame)
    (found' : lookup after pml4 (slot other) = some frame) : index = other := by
  have clash {older : Nat} (old : older < count)
      (same : lookup after pml4 (slot older) = some frame) (new : frame = page * pageSize) : False := by
    rw [others older old, new] at same
    obtain ⟨found, equal, _, held, _⟩ := owned.mapped older old _ same
    rw [← pages_inj equal, free] at held
    cases held
  rcases Nat.lt_succ_iff_lt_or_eq.mp low with old | rfl
  · rcases Nat.lt_succ_iff_lt_or_eq.mp low' with old' | rfl
    · rw [others index old] at found
      rw [others other old'] at found'
      exact owned.once index old other old' frame found found'
    · exact (clash old found (Option.some.inj (found'.symm.trans here))).elim
  · rcases Nat.lt_succ_iff_lt_or_eq.mp low' with old' | rfl
    · exact (clash old' found' (Option.some.inj (found.symm.trans here))).elim
    · rfl

end Mapping

/-- A page that `palloc` took is mapped at the next page of the heap. -/
theorem Owned.mapPage (room : count < 2 ^ 36) {page : Nat} (free : pageUsed vmm.pmm page = false)
    {after : Vmm} (result : mapPage (page * pageSize) (slot count) pml4
      { vmm with pmm := markUsed vmm.pmm page } = .ok after) :
    Lengthened pml4 first count vmm after ∧
      lookup after pml4 (slot count) = some (page * pageSize) := by
  have marked := owned.tables.markUsed page
  obtain ⟨valid, grown, _⟩ := mapPage_spec marked result
  have here : lookup after pml4 (slot count) = some (page * pageSize) := by
    rw [mapPage_lookup marked result, if_pos rfl, addrMask_page (owned.tables.small page free)]
  have apart (address : Nat) (different : pageKey address ≠ pageKey (slot count)) :
      lookup after pml4 address = lookup vmm pml4 address := by
    rw [mapPage_lookup marked result, if_neg different]
    rfl
  have others (index : Nat) (low : index < count) :
      lookup after pml4 (slot index) = lookup vmm pml4 (slot index) := by
    apply apart
    intro same
    have equal := slot_inj (low.trans room) room same
    omega
  have ready : Ready after.pmm := grown.ready (owned.ready.markUsed page)
  have layout : SameLayout after.pmm vmm.pmm := grown.layout.trans (markUsed_layout vmm.pmm page)
  have tidy : Tidy pml4 { vmm with pmm := markUsed vmm.pmm page } := owned.tidy
  have counted : after.pmm.freePages + missingTables vmm pml4 (slot count) + 1 =
      vmm.pmm.freePages := by
    have tables := mapPage_count marked result (owned.ready.markUsed page)
    have taken := markUsed_freePages owned.ready (free_lt free) free
    change after.pmm.freePages + missingTables vmm pml4 (slot count) =
      (markUsed vmm.pmm page).freePages at tables
    omega
  have walks (path : List (Fin 512)) (short : path.length < 4) (others : path ∉ upperPaths (slot count)) :
      walk present after.frames pml4 path = walk present vmm.frames pml4 path :=
    mapPage_walks marked result short others
  have low (frame : Nat) (table : IsTable after pml4 frame) : frame / pageSize < after.pmm.maxPages := by
    rw [layout.maxPages]
    rcases grown.fresh frame table with old | unused
    · exact owned.low frame old
    · exact free_lt (free_after_markUsed unused).2
  have owned' : Owned pml4 first (count + 1) after :=
    { tables := valid
      tidy := tidy.grown grown
      ready := ready
      layout := layout.trans owned.layout
      low := low
      used := fun other used => grown.still_used (owned.used other used)
      held := fun _ => owned.held_mapped grown here others
      mapped := fun _ low _ => owned.mapped_mapped free grown here others low
      once := fun _ low _ low' _ => owned.once_mapped free here others low low' }
  exact ⟨⟨owned', apart, grown.tables, counted, walks, grown.nextVirt, grown.cr3⟩, here⟩

/-- Clearing a frame that the heap maps changes no table. -/
theorem Owned.clear {index frame : Nat} (low : index < count)
    (found : lookup vmm pml4 (slot index) = some frame) :
    Owned pml4 first count (vmm.clear frame) ∧
      (∀ path : List (Fin 512), path.length ≤ 4 →
        walk present (vmm.clear frame).frames pml4 path = walk present vmm.frames pml4 path) ∧
      ∀ table, IsTable vmm pml4 table → IsTable (vmm.clear frame) pml4 table := by
  obtain ⟨page, rfl, _, _, data⟩ := owned.mapped index low frame found
  have agree := clear_agree data
  have walks (path : List (Fin 512)) (short : path.length ≤ 4) :
      walk present (vmm.clear (page * pageSize)).frames pml4 path = walk present vmm.frames pml4 path :=
    walk_agree agree path short
  have lookups (address : Nat) :
      lookup (vmm.clear (page * pageSize)) pml4 address = lookup vmm pml4 address :=
    walks (tablePath address) le_rfl
  have tables (frame : Nat) : IsTable (vmm.clear (page * pageSize)) pml4 frame ↔ IsTable vmm pml4 frame :=
    holds_agree agree le_rfl frame
  refine ⟨⟨owned.tables.clear data, ?_, owned.ready, owned.layout,
    fun frame table => owned.low frame ((tables frame).mp table), owned.used, ?_, ?_, ?_⟩, walks,
    fun table => (tables table).mpr⟩
  · exact Every.agree owned.tidy agree le_rfl
  · intro other start
    simp only [tables, lookups]
    exact owned.held other start
  · intro other low' frame found'
    rw [lookups] at found'
    simp only [tables]
    exact owned.mapped other low' frame found'
  · intro one low one' low' frame found found'
    rw [lookups] at found found'
    exact owned.once one low one' low' frame found found'

end Steps

/-- The tables of an aligned root are aligned. -/
theorem IsTable.aligned {pml4 frame : Nat} {vmm : Vmm} (top : pml4 &&& pteAddrMask = pml4)
    (table : IsTable vmm pml4 frame) : frame % pageSize = 0 := by
  have masked (entry : Nat) : (entry &&& pteAddrMask) % pageSize = 0 := by
    rw [addrMask_eq]
    exact Nat.mul_mod_left _ _
  obtain ⟨path, _, reached⟩ := table
  cases path using List.reverseRecOn with
  | nil =>
      rw [← Option.some.inj reached, ← top]
      exact masked pml4
  | append_singleton path index =>
      rw [walk_snoc, Option.bind_eq_some_iff] at reached
      obtain ⟨parent, _, named⟩ := reached
      unfold present at named
      split at named
      · cases named
      · rw [← Option.some.inj named]
        exact masked _

/-- One turn of `vfrees`, by its address. -/
def freePage (pml4 : Nat) (vmm : Vmm) (virt : Nat) : Vmm :=
  let unmapped := unmapPage virt pml4 vmm
  if unmapped.1 ≠ 0 then { unmapped.2 with pmm := pfree unmapped.1 unmapped.2.pmm } else unmapped.2

/-- `vfrees` frees its pages one after the other. -/
theorem vfrees_eq (virtAddr count : Nat) (vmm : Vmm) :
    vfrees virtAddr count vmm = ((List.range count).map fun i =>
      add64 virtAddr (mul64 i pageSize)).foldl (freePage (vmm.cr3 &&& pteAddrMask)) vmm := by
  unfold vfrees
  rw [List.foldl_map]
  split
  · rename_i none
    rw [none]
    rfl
  · rfl

/-- The pages of some addresses are no longer mapped, and the other pages are as before. -/
structure Released (pml4 : Nat) (addresses : List Nat) (vmm after : Vmm) : Prop where
  gone : ∀ virt ∈ addresses, lookup after pml4 virt = none
  kept : ∀ address, (∀ virt ∈ addresses, pageKey address ≠ pageKey virt) →
    lookup after pml4 address = lookup vmm pml4 address
  nextVirt : after.nextVirt = vmm.nextVirt
  cr3 : after.cr3 = vmm.cr3

/-- An address that is not mapped stays so. -/
theorem Released.stays {pml4 address : Nat} {addresses : List Nat} {vmm after : Vmm}
    (released : Released pml4 addresses vmm after) (absent : lookup vmm pml4 address = none) :
    lookup after pml4 address = none := by
  by_cases hit : ∃ virt ∈ addresses, pageKey address = pageKey virt
  · obtain ⟨virt, member, same⟩ := hit
    rw [lookup_congr after pml4 same]
    exact released.gone virt member
  · rw [released.kept address fun virt member same => hit ⟨virt, member, same⟩]
    exact absent

/-- A page that is not mapped is not freed again. -/
theorem freePage_idle {pml4 virt : Nat} {vmm : Vmm} (tidy : Tidy pml4 vmm)
    (absent : lookup vmm pml4 virt = none) : freePage pml4 vmm virt = vmm := by
  rcases unmapPage_cases tidy virt with ⟨_, same⟩ | ⟨pt, phys, _, found, _⟩
  · simp [freePage, same]
  · rw [absent] at found
    cases found

/-- Freeing pages that are not mapped changes nothing. -/
theorem freePages_idle {pml4 : Nat} {vmm : Vmm} (tidy : Tidy pml4 vmm) {addresses : List Nat}
    (absent : ∀ virt ∈ addresses, lookup vmm pml4 virt = none) :
    addresses.foldl (freePage pml4) vmm = vmm := by
  induction addresses with
  | nil => rfl
  | cons virt rest ih =>
      obtain ⟨here, later⟩ := List.forall_mem_cons.mp absent
      rw [List.foldl_cons, freePage_idle tidy here]
      exact ih later

/-- A page is no longer mapped, and the tables are as before. -/
structure Dropped (pml4 virt : Nat) (vmm after : Vmm) : Prop where
  tree : Tree present after.frames pml4 4
  tidy : Tidy pml4 after
  tables : ∀ frame, IsTable after pml4 frame ↔ IsTable vmm pml4 frame
  lookups : ∀ address, lookup after pml4 address =
    if pageKey address = pageKey virt then none else lookup vmm pml4 address
  nextVirt : after.nextVirt = vmm.nextVirt
  cr3 : after.cr3 = vmm.cr3

/-- A page is no longer mapped and its frame is free, and the tables are as before. -/
structure Unmapped (pml4 virt page : Nat) (vmm after : Vmm) : Prop extends
    Dropped pml4 virt vmm after where
  pages : after.pmm = markFree vmm.pmm page

/-- A dropped page is released. -/
theorem Dropped.released {pml4 virt : Nat} {vmm after : Vmm} (dropped : Dropped pml4 virt vmm after) :
    Released pml4 [virt] vmm after where
  gone := by
    intro other member
    rw [List.mem_singleton.mp member, dropped.lookups, if_pos rfl]
  kept := by
    intro address apart
    rw [dropped.lookups, if_neg (apart virt (List.mem_singleton.mpr rfl))]
  nextVirt := dropped.nextVirt
  cr3 := dropped.cr3

/-- One turn of `vfrees` on a mapped page; the frame at address zero is never freed. -/
theorem freePage_drops {pml4 virt page : Nat} {vmm : Vmm} (tables : Tables pml4 vmm)
    (tidy : Tidy pml4 vmm) (found : lookup vmm pml4 virt = some (page * pageSize)) :
    Dropped pml4 virt vmm (freePage pml4 vmm virt) ∧
      (freePage pml4 vmm virt).pmm = if page = 0 then vmm.pmm else markFree vmm.pmm page := by
  rcases unmapPage_cases tidy virt with ⟨absent, _⟩ | ⟨pt, phys, reached, found', result⟩
  · rw [absent] at found
    cases found
  · obtain rfl := Option.some.inj (found'.symm.trans found)
    have turned : freePage pml4 vmm virt = { vmm.store pt (ptIndex virt) 0 with
        pmm := if page = 0 then vmm.pmm else markFree vmm.pmm page } := by
      unfold freePage
      rw [result]
      by_cases zero : page = 0
      · rw [if_pos zero, zero, Nat.zero_mul]
        rfl
      · have nonzero : page * pageSize ≠ 0 := fun same =>
          zero (pages_inj (same.trans (Nat.zero_mul _).symm))
        rw [if_neg zero]
        dsimp only
        rw [if_pos nonzero, pfree, page_quotient]
        rfl
    rw [turned]
    refine ⟨⟨tables.tree.put reached rfl, ?_, ?_, ?_, rfl, rfl⟩, rfl⟩
    · exact Every.put tidy tables.tree reached rfl le_rfl (fun _ _ => rfl)
    · exact fun frame => holds_put tables.tree reached rfl le_rfl frame
    · intro address
      exact put_zero tables.tree reached address

/-- Freeing a mapped page unmaps it. -/
theorem freePage_unmaps {pml4 virt page : Nat} {vmm : Vmm} (tables : Tables pml4 vmm)
    (tidy : Tidy pml4 vmm) (found : lookup vmm pml4 virt = some (page * pageSize))
    (nonzero : page ≠ 0) : Unmapped pml4 virt page vmm (freePage pml4 vmm virt) := by
  obtain ⟨dropped, pages⟩ := freePage_drops tables tidy found
  rw [if_neg nonzero] at pages
  exact ⟨dropped, pages⟩

/-- One turn of `vfrees` keeps the way to every table. -/
theorem freePage_walk {pml4 : Nat} {vmm : Vmm} (tree : Tree present vmm.frames pml4 4)
    (tidy : Tidy pml4 vmm) (virt : Nat) {path : List (Fin 512)} (short : path.length < 4) :
    walk present (freePage pml4 vmm virt).frames pml4 path = walk present vmm.frames pml4 path := by
  rcases unmapPage_cases tidy virt with ⟨_, same⟩ | ⟨pt, phys, reached, _, same⟩
  · simp [freePage, same]
  · have kept : walk present (vmm.store pt (ptIndex virt) 0).frames pml4 path =
        walk present vmm.frames pml4 path := walk_put_short tree reached rfl path short
    unfold freePage
    rw [same]
    dsimp only
    split <;> exact kept

section Turn

variable {pml4 count virt page index : Nat} {first vmm after : Vmm}
  (unmapped : Unmapped pml4 virt page vmm after)
include unmapped

/-- The other pages stay in use or free. -/
theorem Unmapped.used_other {other : Nat} (apart : other ≠ page) :
    pageUsed after.pmm other = pageUsed vmm.pmm other := by
  rw [unmapped.pages, pageUsed_markFree]
  simp [apart]

variable (owned : Owned pml4 first count vmm) (start : pageUsed first.pmm page = false)
include owned start

/-- The frame of the page is free. -/
theorem Unmapped.page_free : pageUsed after.pmm page = false := by
  have inside : page < vmm.pmm.maxPages := by
    rw [owned.layout.maxPages]
    exact free_lt start
  rw [unmapped.pages, pageUsed_markFree]
  simp [inside]

/-- The frame of the page was no table, so the tables keep their pages. -/
theorem Unmapped.validTables (booted : Booted pml4 first) (data : ¬ IsTable vmm pml4 (page * pageSize)) :
    Tables pml4 after where
  tree := unmapped.tree
  used := by
    intro frame table
    have old := (unmapped.tables frame).mp table
    rw [unmapped.used_other]
    · exact owned.tables.used frame old
    · intro equal
      have whole : frame / pageSize * pageSize = frame :=
        Nat.div_mul_cancel (Nat.dvd_of_mod_eq_zero (old.aligned booted.root))
      apply data
      rw [← equal, whole]
      exact old
  small := by
    intro other unused
    by_cases here : other = page
    · rw [here]
      exact booted.tables.small page start
    · rw [unmapped.used_other here] at unused
      exact owned.tables.small other unused

variable (low : index < count) (same : pageKey virt = pageKey (slot index))
  (found : lookup vmm pml4 (slot index) = some (page * pageSize))
include low same found

omit start in
/-- The pages of the heap that stay mapped were mapped to other frames. -/
theorem Unmapped.other_frame {other frame : Nat} (below : other < count)
    (found' : lookup after pml4 (slot other) = some frame) :
    lookup vmm pml4 (slot other) = some frame ∧ frame ≠ page * pageSize := by
  rw [unmapped.lookups] at found'
  split at found'
  · cases found'
  · rename_i apart
    refine ⟨found', ?_⟩
    rintro rfl
    have equal := owned.once other below index low _ found' found
    rw [equal, same] at apart
    exact apart rfl

/-- A page that was free at first is free again, or has the role that it had. -/
theorem Unmapped.held (room : count ≤ 2 ^ 36) {other : Nat} (free : pageUsed first.pmm other = false) :
    pageUsed after.pmm other = false ∨ IsTable after pml4 (other * pageSize) ∨
      ∃ index < count, lookup after pml4 (slot index) = some (other * pageSize) := by
  by_cases here : other = page
  · rw [here]
    exact Or.inl (unmapped.page_free owned start)
  · rcases owned.held other free with unused | table | ⟨other', below, found'⟩
    · exact Or.inl ((unmapped.used_other here).trans unused)
    · exact Or.inr (Or.inl ((unmapped.tables _).mpr table))
    · refine Or.inr (Or.inr ⟨other', below, ?_⟩)
      rw [unmapped.lookups, if_neg]
      · exact found'
      · intro equal
        have slotSame := slot_inj (by omega) (by omega) (equal.trans same)
        rw [slotSame, found] at found'
        exact here (pages_inj (Option.some.inj found')).symm

/-- Unmapping a page of the heap keeps the owners of the frames. -/
theorem Unmapped.keepsOwned (booted : Booted pml4 first) (room : count ≤ 2 ^ 36)
    (data : ¬ IsTable vmm pml4 (page * pageSize)) : Owned pml4 first count after where
  tables := unmapped.validTables owned start booted data
  tidy := unmapped.tidy
  ready := by
    rw [unmapped.pages]
    exact owned.ready.markFree page
  layout := by
    rw [unmapped.pages]
    exact (markFree_layout vmm.pmm page).trans owned.layout
  low := by
    rw [unmapped.pages, (markFree_layout vmm.pmm page).maxPages]
    exact fun frame table => owned.low frame ((unmapped.tables frame).mp table)
  used := by
    intro other usedFirst
    rw [unmapped.used_other]
    · exact owned.used other usedFirst
    · rintro rfl
      rw [start] at usedFirst
      cases usedFirst
  held := fun _ => unmapped.held owned start low same found room
  mapped := by
    intro other below frame found'
    obtain ⟨before, apart⟩ := unmapped.other_frame owned low same found below found'
    obtain ⟨page', rfl, start', held', data'⟩ := owned.mapped other below frame before
    refine ⟨page', rfl, start', ?_, fun table => data' ((unmapped.tables _).mp table)⟩
    rw [unmapped.used_other fun equal => apart (by rw [equal])]
    exact held'
  once := by
    intro one below one' below' frame one_found other_found
    exact owned.once one below one' below' frame
      (unmapped.other_frame owned low same found below one_found).1
      (unmapped.other_frame owned low same found below' other_found).1

end Turn

section Frees

variable {pml4 count : Nat} {first vmm : Vmm} (booted : Booted pml4 first)
  (owned : Owned pml4 first count vmm) (room : count ≤ 2 ^ 36)
include booted owned room

/-- One turn of `vfrees` on a page of the heap gives its frame back. -/
theorem Owned.freePage {virt index : Nat} (low : index < count)
    (same : pageKey virt = pageKey (slot index)) :
    Owned pml4 first count (freePage pml4 vmm virt) ∧
      Released pml4 [virt] vmm (VirtualMemory.freePage pml4 vmm virt) ∧
      ∀ frame, IsTable vmm pml4 frame → IsTable (VirtualMemory.freePage pml4 vmm virt) pml4 frame := by
  cases found : lookup vmm pml4 virt with
  | none =>
      rw [freePage_idle owned.tidy found]
      exact ⟨owned, ⟨by simpa using found, fun _ _ => rfl, rfl, rfl⟩, fun _ => id⟩
  | some phys =>
      have foundSlot : lookup vmm pml4 (slot index) = some phys := by
        rw [← lookup_congr vmm pml4 same]
        exact found
      obtain ⟨page, rfl, start, _, data⟩ := owned.mapped index low phys foundSlot
      have nonzero : page ≠ 0 := by
        rintro rfl
        rw [booted.zero] at start
        cases start
      have unmapped := freePage_unmaps owned.tables owned.tidy found nonzero
      exact ⟨unmapped.keepsOwned owned start low same foundSlot booted room data, unmapped.released,
        fun frame => (unmapped.tables frame).mpr⟩

/-- `vfrees` on pages of the heap gives their frames back. -/
theorem Owned.freePages {addresses : List Nat}
    (inside : ∀ virt ∈ addresses, ∃ index < count, pageKey virt = pageKey (slot index)) :
    Owned pml4 first count (addresses.foldl (VirtualMemory.freePage pml4) vmm) ∧
      Released pml4 addresses vmm (addresses.foldl (VirtualMemory.freePage pml4) vmm) ∧
      ∀ frame, IsTable vmm pml4 frame →
        IsTable (addresses.foldl (VirtualMemory.freePage pml4) vmm) pml4 frame := by
  induction addresses generalizing vmm with
  | nil => exact ⟨owned, ⟨by simp, fun _ _ => rfl, rfl, rfl⟩, fun _ => id⟩
  | cons virt rest ih =>
      obtain ⟨⟨index, low, same⟩, later⟩ := List.forall_mem_cons.mp inside
      obtain ⟨owned', released, tables⟩ := owned.freePage booted room low same
      obtain ⟨owned'', released', tables'⟩ := ih owned' later
      rw [List.foldl_cons]
      refine ⟨owned'', ⟨?_, ?_, released'.nextVirt.trans released.nextVirt,
        released'.cr3.trans released.cr3⟩, fun frame table => tables' frame (tables frame table)⟩
      · refine List.forall_mem_cons.mpr ⟨?_, released'.gone⟩
        exact released'.stays (released.gone virt (List.mem_singleton.mpr rfl))
      · intro address apart
        obtain ⟨here, others⟩ := List.forall_mem_cons.mp apart
        rw [released'.kept address others]
        refine released.kept address ?_
        intro other member
        rw [List.mem_singleton.mp member]
        exact here

end Frees

end ArchaOS.VirtualMemory
