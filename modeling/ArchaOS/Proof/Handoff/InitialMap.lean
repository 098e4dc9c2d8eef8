import ArchaOS.Proof.Handoff.Pages

namespace ArchaOS.Handoff

open Library PhysicalMemory VirtualMemory RadixTree

/-- The entry of the 2 MiB page that `efi_main` writes at index `i` of directory `j`. -/
def largeEntry (j i : Fin 512) : Nat :=
  (j.val * 0x40000000 + i.val * 0x200000) ||| ptePresent ||| pteRw ||| ptePs

/-- The entry that links a table to the table above it. -/
def linkEntry (page : Nat) : Nat := page ||| ptePresent ||| pteRw

/-- A stored entry is read back. -/
theorem Loader.store_self (loader : Loader) (table : Nat) (index : Fin 512) (entry : Nat) :
    (loader.store table index entry).frames table index = entry := write_self _ _ _ _

/-- A store takes no page. -/
theorem Loader.store_supply (loader : Loader) (table : Nat) (index : Fin 512) (entry : Nat) :
    (loader.store table index entry).supply = loader.supply := rfl

/-- A store leaves the other frames. -/
theorem Loader.store_of_ne_frame (loader : Loader) {table frame : Nat} (different : frame ≠ table)
    (index position : Fin 512) (entry : Nat) :
    (loader.store table index entry).frames frame position = loader.frames frame position :=
  congrFun (write_of_ne_frame loader.frames different index entry) position

/-- A store leaves the other entries. -/
theorem Loader.store_of_ne_index (loader : Loader) (table : Nat) {index position : Fin 512}
    (different : position ≠ index) (entry : Nat) :
    (loader.store table index entry).frames table position = loader.frames table position :=
  write_of_ne_index loader.frames table different entry

section Loops

variable (pd : Fin 512 → Nat) (pdpt : Nat)

/-- Clearing the directories leaves every other page as it is. -/
theorem clear_frames {frame : Nat} (outside : ∀ j, frame ≠ pd j) (indices : List (Fin 512))
    (loader : Loader) :
    (indices.foldl (fun loader j => loader.setMem (pd j)) loader).frames frame =
      loader.frames frame := by
  induction indices generalizing loader with
  | nil => rfl
  | cons j rest ih =>
      rw [List.foldl_cons, ih]
      exact Function.update_of_ne (outside j) _ _

/-- Clearing tables takes no page. -/
theorem clear_supply (indices : List (Fin 512)) (loader : Loader) :
    (indices.foldl (fun loader j => loader.setMem (pd j)) loader).supply = loader.supply := by
  induction indices generalizing loader with
  | nil => rfl
  | cons j rest ih => rw [List.foldl_cons, ih]; rfl

/-- The stores of one directory reach the chosen indices of that directory. -/
theorem stores_frames (page : Nat) (value : Fin 512 → Nat) (indices : List (Fin 512))
    (loader : Loader) (frame : Nat) (index : Fin 512) :
    (indices.foldl (fun loader i => loader.store page i (value i)) loader).frames frame index =
      if frame = page ∧ index ∈ indices then value index else loader.frames frame index := by
  induction indices generalizing loader with
  | nil => simp
  | cons i rest ih =>
      rw [List.foldl_cons, ih]
      by_cases later : frame = page ∧ index ∈ rest
      · rw [if_pos later, if_pos ⟨later.1, List.mem_cons_of_mem _ later.2⟩]
      · rw [if_neg later]
        by_cases here : frame = page
        · subst here
          by_cases same : index = i
          · subst same
            rw [loader.store_self, if_pos ⟨rfl, List.mem_cons_self⟩]
          · rw [if_neg (by simp [same]; simpa using later)]
            exact loader.store_of_ne_index _ same _
        · rw [if_neg (fun both => here both.1)]
          exact loader.store_of_ne_frame here _ _ _

/-- Stores take no page. -/
theorem stores_supply (page : Nat) (value : Fin 512 → Nat) (indices : List (Fin 512))
    (loader : Loader) :
    (indices.foldl (fun loader i => loader.store page i (value i)) loader).supply =
      loader.supply := by
  induction indices generalizing loader with
  | nil => rfl
  | cons i rest ih => rw [List.foldl_cons, ih]; rfl

/-- A filled directory maps its large pages, and the other frames stay. -/
theorem fillDirectory_frames (page : Nat) (j : Fin 512) (loader : Loader) (frame : Nat)
    (index : Fin 512) : (fillDirectory page j loader).frames frame index =
      if frame = page then largeEntry j index else loader.frames frame index := by
  unfold fillDirectory
  rw [stores_frames]
  by_cases here : frame = page
  · rw [if_pos ⟨here, List.mem_finRange index⟩, if_pos here, largeEntry]
  · rw [if_neg (fun both => here both.1), if_neg here]

/-- Filling a directory takes no page. -/
theorem fillDirectory_supply (page : Nat) (j : Fin 512) (loader : Loader) :
    (fillDirectory page j loader).supply = loader.supply := by
  unfold fillDirectory
  rw [stores_supply]

/-- The outer loop of `efi_main` over the directories that are left. -/
def linkDirectories (indices : List (Fin 512)) (loader : Loader) : Loader :=
  indices.foldl (fun loader j => fillDirectory (pd j) j
    (loader.store pdpt j (pd j ||| ptePresent ||| pteRw))) loader

/-- Linking the directories takes no page. -/
theorem linkDirectories_supply (indices : List (Fin 512)) (loader : Loader) :
    (linkDirectories pd pdpt indices loader).supply = loader.supply := by
  unfold linkDirectories
  induction indices generalizing loader with
  | nil => rfl
  | cons j rest ih => rw [List.foldl_cons, ih, fillDirectory_supply]; rfl

/-- The loop leaves every page but the tables that it fills. -/
theorem linkDirectories_outside {frame : Nat} (top : frame ≠ pdpt) (outside : ∀ j, frame ≠ pd j)
    (indices : List (Fin 512)) (loader : Loader) :
    (linkDirectories pd pdpt indices loader).frames frame = loader.frames frame := by
  unfold linkDirectories
  induction indices generalizing loader with
  | nil => rfl
  | cons j rest ih =>
      rw [List.foldl_cons, ih]
      funext index
      rw [fillDirectory_frames, if_neg (outside j)]
      exact loader.store_of_ne_frame top _ _ _

/-- The loop links every directory that it visits. -/
theorem linkDirectories_pdpt (apart : ∀ j, pdpt ≠ pd j) (indices : List (Fin 512))
    (loader : Loader) (index : Fin 512) :
    (linkDirectories pd pdpt indices loader).frames pdpt index =
      if index ∈ indices then linkEntry (pd index) else loader.frames pdpt index := by
  unfold linkDirectories
  induction indices generalizing loader with
  | nil => rfl
  | cons j rest ih =>
      rw [List.foldl_cons, ih, fillDirectory_frames, if_neg (apart j)]
      by_cases later : index ∈ rest
      · rw [if_pos later, if_pos (List.mem_cons_of_mem _ later)]
      · rw [if_neg later]
        by_cases same : index = j
        · subst same
          rw [loader.store_self, if_pos List.mem_cons_self, linkEntry]
        · rw [if_neg (by simp [same, later])]
          exact loader.store_of_ne_index _ same _

/-- The loop fills every directory that it visits with 2 MiB pages. -/
theorem linkDirectories_directory (apart : ∀ j, pdpt ≠ pd j) (injective : Function.Injective pd)
    (indices : List (Fin 512)) (loader : Loader) (target index : Fin 512) :
    (linkDirectories pd pdpt indices loader).frames (pd target) index =
      if target ∈ indices then largeEntry target index else loader.frames (pd target) index := by
  unfold linkDirectories
  induction indices generalizing loader with
  | nil => rfl
  | cons j rest ih =>
      rw [List.foldl_cons, ih, fillDirectory_frames]
      by_cases later : target ∈ rest
      · rw [if_pos later, if_pos (List.mem_cons_of_mem _ later)]
      · rw [if_neg later]
        by_cases same : target = j
        · subst same
          rw [if_pos rfl, if_pos List.mem_cons_self]
        · rw [if_neg (fun equal => same (injective equal)), if_neg (by simp [same, later])]
          exact loader.store_of_ne_frame (apart target).symm _ _ _

end Loops

/-- The directories come from the front of the supply. -/
theorem allocateDirectories_spec {count : Nat} {loader after : Loader} {pds : List Nat}
    (success : allocateDirectories count loader = some (pds, after)) :
    pds.length = count ∧ after.frames = loader.frames ∧
      loader.supply = pds.map some ++ after.supply := by
  induction count generalizing loader pds with
  | zero =>
      obtain ⟨rfl, rfl⟩ := Prod.mk.inj (Option.some.inj success)
      exact ⟨rfl, rfl, rfl⟩
  | succ count ih =>
      cases supply : loader.supply with
      | nil => simp [allocateDirectories, allocatePages, supply] at success
      | cons answer rest =>
          cases answer with
          | none => simp [allocateDirectories, allocatePages, supply] at success
          | some page =>
              simp only [allocateDirectories, allocatePages, supply, List.head?_cons,
                Option.join_some, List.tail_cons, Option.map_eq_some_iff, Prod.exists,
                Prod.mk.injEq] at success
              obtain ⟨others, last, taken, rfl, rfl⟩ := success
              obtain ⟨size, frames, split⟩ := ih taken
              refine ⟨by simp [size], frames, ?_⟩
              simpa using split

/-- Enough answers with a page let every allocation succeed. -/
theorem allocateDirectories_success (frames : Nat → Fin 512 → Nat) (pds : List Nat)
    (rest : List (Option Nat)) :
    allocateDirectories pds.length ⟨frames, pds.map some ++ rest⟩ = some (pds, ⟨frames, rest⟩) := by
  induction pds with
  | nil => rfl
  | cons page others ih =>
      simp [allocateDirectories, allocatePages, ih]

/-- The pages that `AllocatePages` hands out are page aligned, within the physical address width and
never handed out twice. -/
structure Fresh (supply : List (Option Nat)) : Prop where
  aligned : ∀ page, some page ∈ supply → page % pageSize = 0 ∧ page < 2 ^ 52
  distinct : (supply.filterMap id).Nodup

/-- The tables that `efi_main` leaves before the first call of `map_handoff_range`. -/
structure Initial (pml4 pdpt : Nat) (pd : Fin 512 → Nat) (loader : Loader) : Prop where
  first : loader.frames pml4 0 = linkEntry pdpt
  blank : ∀ index, index ≠ 0 → loader.frames pml4 index = 0
  links : ∀ j, loader.frames pdpt j = linkEntry (pd j)
  large : ∀ j i, loader.frames (pd j) i = largeEntry j i
  topApart : pml4 ≠ pdpt ∧ ∀ j, pml4 ≠ pd j
  apart : ∀ j, pdpt ≠ pd j
  injective : Function.Injective pd
  pdptAligned : pdpt % pageSize = 0 ∧ pdpt < 2 ^ 52
  pdAligned : ∀ j, pd j % pageSize = 0 ∧ pd j < 2 ^ 52
  fresh : Fresh loader.supply
  unused : ∀ page, some page ∈ loader.supply → page ≠ pml4 ∧ page ≠ pdpt ∧ ∀ j, page ≠ pd j

/-- A successful allocation takes the first answer of the supply. -/
theorem allocatePages_some {loader after : Loader} {page : Nat}
    (success : allocatePages loader = (some page, after)) :
    loader.supply = some page :: after.supply ∧ after.frames = loader.frames := by
  obtain ⟨taken, rfl⟩ := Prod.mk.inj success
  cases supply : loader.supply with
  | nil => simp [supply] at taken
  | cons answer rest =>
      cases answer with
      | none => simp [supply] at taken
      | some other =>
          simp only [supply, List.head?_cons, Option.join_some, Option.some.injEq] at taken
          simp [taken]

/-- The state after the loops of `efi_main`, for the pages that its allocations returned. -/
def Loader.handoff (loader : Loader) (pml4 pdpt : Nat) (pd : Fin 512 → Nat) : Loader :=
  linkDirectories pd pdpt (List.finRange 512)
    (((List.finRange 512).foldl (fun loader j => loader.setMem (pd j))
      ((loader.setMem pml4).setMem pdpt)).store pml4 0 (linkEntry pdpt))

/-- The stores of the first map take no page. -/
theorem Loader.handoff_supply (loader : Loader) (pml4 pdpt : Nat) (pd : Fin 512 → Nat) :
    (loader.handoff pml4 pdpt pd).supply = loader.supply := by
  rw [Loader.handoff, linkDirectories_supply, Loader.store_supply, clear_supply]
  rfl

/-- `efi_main` takes the root, the second level and the directories from the front of the supply. -/
theorem buildHandoffMap_eq {loader after : Loader} {pml4 : Nat}
    (built : buildHandoffMap loader = some (pml4, after)) :
    ∃ (pdpt : Nat) (pds : List Nat) (rest : List (Option Nat)), pds.length = 512 ∧
      loader.supply = some pml4 :: some pdpt :: pds.map some ++ rest ∧
      after = Loader.handoff ⟨loader.frames, rest⟩ pml4 pdpt fun j => pds.getD j.val 0 := by
  unfold buildHandoffMap at built
  rcases first : allocatePages loader with ⟨_ | root, loaderFirst⟩
  · rw [first] at built
    cases built
  rcases second : allocatePages loaderFirst with ⟨_ | pdpt, loaderSecond⟩
  · simp only [first, second] at built
    cases built
  rcases third : allocateDirectories 512 loaderSecond with _ | ⟨pds, loaderThird⟩
  · simp only [first, second, third] at built
    cases built
  simp only [first, second, third] at built
  obtain ⟨rfl, rfl⟩ := Prod.mk.inj (Option.some.inj built)
  obtain ⟨supplyFirst, framesFirst⟩ := allocatePages_some first
  obtain ⟨supplySecond, framesSecond⟩ := allocatePages_some second
  obtain ⟨size, framesThird, supplyThird⟩ := allocateDirectories_spec third
  refine ⟨pdpt, pds, loaderThird.supply, size, ?_, ?_⟩
  · rw [supplyFirst, supplySecond, supplyThird]
    rfl
  · have same : loaderThird = ⟨loader.frames, loaderThird.supply⟩ := by
      rw [← framesFirst, ← framesSecond, ← framesThird]
    rw [← same]
    rfl

/-- The map is built when the first 514 allocations succeed. -/
theorem buildHandoffMap_success (frames : Nat → Fin 512 → Nat) (pml4 pdpt : Nat) {pds : List Nat}
    (size : pds.length = 512) (rest : List (Option Nat)) :
    buildHandoffMap ⟨frames, some pml4 :: some pdpt :: (pds.map some ++ rest)⟩ =
      some (pml4, Loader.handoff ⟨frames, rest⟩ pml4 pdpt fun j => pds.getD j.val 0) := by
  have directories := allocateDirectories_success frames pds rest
  rw [size] at directories
  simp only [buildHandoffMap, allocatePages, List.head?_cons, Option.join_some, List.tail_cons,
    directories]
  rfl

/-- The loops of `efi_main` leave the initial tables. -/
theorem buildHandoffMap_initial {loader after : Loader} {pml4 : Nat} (fresh : Fresh loader.supply)
    (built : buildHandoffMap loader = some (pml4, after)) :
    ∃ pdpt pd, Initial pml4 pdpt pd after := by
  obtain ⟨pdpt, pds, rest, size, supply, result⟩ := buildHandoffMap_eq built
  rw [result]
  have distinct := fresh.distinct
  have aligned := fresh.aligned
  rw [supply] at distinct aligned
  have inside (j : Fin 512) : j.val < pds.length := by
    rw [size]
    exact j.isLt
  have value (j : Fin 512) : pds.getD j.val 0 = pds.get ⟨j.val, inside j⟩ := by
    simp [List.getD_eq_getElem?_getD, List.getElem?_eq_getElem (inside j)]
  have listed (j : Fin 512) : pds.getD j.val 0 ∈ pds := by
    rw [value j]
    exact List.get_mem _ _
  simp only [List.cons_append, List.filterMap_cons, id_eq, List.filterMap_append,
    List.filterMap_map, Function.comp_def, List.filterMap_some, List.nodup_cons, List.mem_cons,
    List.mem_append, List.nodup_append, not_or] at distinct
  obtain ⟨⟨topSecond, topDirectories, topRest⟩, ⟨secondDirectories, secondRest⟩, directories,
    remaining, split⟩ := distinct
  have named {page : Nat} (member : some page ∈ rest) : page ∈ rest.filterMap id :=
    List.mem_filterMap.mpr ⟨some page, member, rfl⟩
  have injective : Function.Injective fun j : Fin 512 => pds.getD j.val 0 := by
    intro first second same
    dsimp only at same
    rw [value first, value second] at same
    exact Fin.ext (Fin.mk.inj ((List.Nodup.get_inj_iff directories).mp same))
  have topApart (j : Fin 512) : pml4 ≠ pds.getD j.val 0 :=
    fun same => topDirectories (same ▸ listed j)
  have apart (j : Fin 512) : pdpt ≠ pds.getD j.val 0 :=
    fun same => secondDirectories (same ▸ listed j)
  refine ⟨pdpt, fun j => pds.getD j.val 0, ?_⟩
  refine
    { first := ?_, blank := ?_, links := ?_, large := ?_, topApart := ⟨topSecond, topApart⟩
      apart := apart, injective := injective, pdptAligned := aligned pdpt (by simp)
      pdAligned := ?_, fresh := ?_, unused := ?_ }
  · rw [Loader.handoff, linkDirectories_outside _ _ topSecond topApart, Loader.store_self]
  · intro index notFirst
    rw [Loader.handoff, linkDirectories_outside _ _ topSecond topApart,
      Loader.store_of_ne_index _ _ notFirst, clear_frames _ topApart]
    simp [Loader.setMem, Function.update_of_ne topSecond]
  · intro j
    rw [Loader.handoff, linkDirectories_pdpt _ _ apart, if_pos (List.mem_finRange j)]
  · intro j i
    rw [Loader.handoff, linkDirectories_directory _ _ apart injective,
      if_pos (List.mem_finRange j)]
  · intro j
    have offered : some (pds.getD j.val 0) ∈ pds.map some := List.mem_map_of_mem (listed j)
    exact aligned _ (List.mem_append_left _ (List.mem_cons_of_mem _ (List.mem_cons_of_mem _ offered)))
  · rw [Loader.handoff_supply]
    exact ⟨fun page member => aligned page (by simp [member]), remaining⟩
  · rw [Loader.handoff_supply]
    intro page member
    refine ⟨?_, ?_, ?_⟩
    · rintro rfl
      exact topRest (named member)
    · rintro rfl
      exact secondRest (named member)
    · rintro j rfl
      exact split _ (listed j) _ (named member) rfl

end ArchaOS.Handoff
