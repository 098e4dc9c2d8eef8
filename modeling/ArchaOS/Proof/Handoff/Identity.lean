import ArchaOS.Library.Runs
import ArchaOS.Proof.Handoff.InitialMap

namespace ArchaOS.Handoff

open Library PhysicalMemory VirtualMemory RadixTree

/-- The entry of a 2 MiB page ends the walk and names the start of that page. -/
theorem largeEntry_spec (j i : Fin 512) :
    nextLevel (largeEntry j i) = none ∧ largePage (largeEntry j i) = true ∧
      largeEntry j i &&& pteAddrMask = j.val * 2 ^ 30 + i.val * 2 ^ 21 := by
  have base : (j.val * 2 ^ 30 + i.val * 2 ^ 21) &&& pteAddrMask =
      j.val * 2 ^ 30 + i.val * 2 ^ 21 := by
    rw [addrMask_eq]
    have := j.isLt
    have := i.isLt
    omega
  have split (flag : Nat) : largeEntry j i &&& flag =
      ((j.val * 2 ^ 30 + i.val * 2 ^ 21) &&& flag) ||| (ptePresent &&& flag) ||| (pteRw &&& flag) |||
        (ptePs &&& flag) := by
    unfold largeEntry
    rw [Nat.and_or_distrib_right, Nat.and_or_distrib_right, Nat.and_or_distrib_right]
    rfl
  have shown : largeEntry j i &&& ptePresent ≠ 0 := by
    rw [split]
    change _ ||| 1 ||| 0 ||| 0 ≠ 0
    simp
  have large : largeEntry j i &&& ptePs ≠ 0 := by
    rw [split]
    change _ ||| 0 ||| 0 ||| 128 ≠ 0
    simp
  refine ⟨?_, ?_, ?_⟩
  · rw [nextLevel, if_neg shown, if_neg large]
  · simp [largePage, shown, large]
  · rw [split, base]
    change _ ||| 0 ||| 0 ||| 0 = _
    simp

/-- The map sends every address that it translates to itself and covers the first 512 GiB. -/
structure Exact (pml4 : Nat) (loader : Loader) : Prop extends Sound pml4 loader where
  low : ∀ address, address < handoffIdentitySize →
    translate loader.frames pml4 address = some address
  identity : ∀ address physical, translate loader.frames pml4 address = some physical →
    physical = address

section Initial

variable {pml4 pdpt : Nat} {pd : Fin 512 → Nat} {loader : Loader}
  (initial : Initial pml4 pdpt pd loader)
include initial

/-- The root of the first map has one table. -/
theorem Initial.next_pml4 (index : Fin 512) :
    nextLevel (loader.frames pml4 index) = if index = 0 then some pdpt else none := by
  by_cases first : index = 0
  · rw [if_pos first, first, initial.first]
    exact (nextLevel_page initial.pdptAligned.1 initial.pdptAligned.2).1
  · rw [if_neg first, initial.blank index first]
    exact nextLevel_zero.1

/-- The second table of the first map leads to the directories. -/
theorem Initial.next_pdpt (index : Fin 512) :
    nextLevel (loader.frames pdpt index) = some (pd index) := by
  rw [initial.links]
  exact (nextLevel_page (initial.pdAligned index).1 (initial.pdAligned index).2).1

/-- The directories of the first map lead to no table. -/
theorem Initial.next_pd (j index : Fin 512) : nextLevel (loader.frames (pd j) index) = none := by
  rw [initial.large]
  exact (largeEntry_spec j index).1

/-- The first map has tables at the empty path, at `[0]` and at every `[0, j]`. -/
theorem Initial.walk_cases {path : List (Fin 512)} {frame : Nat}
    (reached : walk nextLevel loader.frames pml4 path = some frame) :
    (path = [] ∧ frame = pml4) ∨ (path = [0] ∧ frame = pdpt) ∨ ∃ j, path = [0, j] ∧ frame = pd j := by
  induction path using List.reverseRecOn generalizing frame with
  | nil => exact .inl ⟨rfl, (Option.some.inj reached).symm⟩
  | append_singleton before index ih =>
      rw [walk_snoc, Option.bind_eq_some_iff] at reached
      obtain ⟨table, arrived, named⟩ := reached
      rcases ih arrived with ⟨rfl, rfl⟩ | ⟨rfl, rfl⟩ | ⟨j, rfl, rfl⟩
      · rw [initial.next_pml4] at named
        split at named
        · rename_i first
          exact .inr (.inl ⟨by rw [first]; rfl, (Option.some.inj named).symm⟩)
        · cases named
      · rw [initial.next_pdpt] at named
        exact .inr (.inr ⟨index, rfl, (Option.some.inj named).symm⟩)
      · rw [initial.next_pd] at named
        cases named

/-- The first map is a sound tree. -/
theorem Initial.sound : Sound pml4 loader where
  tree := by
    intro first second frame _ _ left right
    have topSecond := initial.topApart.1
    have topDirectory := initial.topApart.2
    have secondDirectory := initial.apart
    rcases initial.walk_cases left with ⟨rfl, rfl⟩ | ⟨rfl, rfl⟩ | ⟨j, rfl, rfl⟩ <;>
      rcases initial.walk_cases right with ⟨rfl, same⟩ | ⟨rfl, same⟩ | ⟨k, rfl, same⟩
    · rfl
    · exact absurd same topSecond
    · exact absurd same (topDirectory k)
    · exact absurd same.symm topSecond
    · rfl
    · exact absurd same (secondDirectory k)
    · exact absurd same.symm (topDirectory j)
    · exact absurd same.symm (secondDirectory j)
    · rw [initial.injective same]
  aligned := initial.fresh.aligned
  distinct := initial.fresh.distinct
  unused := by
    rintro page member ⟨path, _, reached⟩
    obtain ⟨notTop, notSecond, notDirectory⟩ := initial.unused page member
    rcases initial.walk_cases reached with ⟨_, same⟩ | ⟨_, same⟩ | ⟨j, _, same⟩
    · exact notTop same
    · exact notSecond same
    · exact notDirectory j same
  small := by
    intro path frame index _ reached notFirst
    rcases initial.walk_cases reached with ⟨rfl, rfl⟩ | ⟨rfl, rfl⟩ | ⟨j, rfl, rfl⟩
    · have different : index ≠ 0 := by simpa using notFirst
      rw [initial.blank index different]
      exact nextLevel_zero.2
    · exact absurd rfl notFirst
    · exact absurd rfl notFirst

/-- Below 512 GiB the first map has 2 MiB pages, and above it has nothing. -/
theorem Initial.leaf (address : Nat) :
    leafAt nextLevel largePage loader.frames pml4 (tablePath address) =
      if pml4Index address = 0 then some (1, largeEntry (pdptIndex address) (pdIndex address))
      else none := by
  unfold tablePath
  rw [leafAt, initial.next_pml4]
  by_cases first : pml4Index address = 0
  · rw [if_pos first, if_pos first]
    simp only [List.isEmpty_cons, Bool.false_eq_true, if_false]
    rw [leafAt, initial.next_pdpt]
    simp only [List.isEmpty_cons, Bool.false_eq_true, if_false]
    rw [leafAt, initial.next_pd, initial.large]
    simp [(largeEntry_spec (pdptIndex address) (pdIndex address)).2.1]
  · rw [if_neg first, if_neg first, initial.blank _ first]
    simp [nextLevel_zero.2]

omit initial in
/-- An address is canonical exactly when it lies in one of the two halves. -/
theorem canonical_iff (address : Nat) :
    canonical address ↔ address < 2 ^ 47 ∨ (2 ^ 64 - 2 ^ 47 ≤ address ∧ address < 2 ^ 64) := by
  rw [canonical, Bool.or_eq_true, Bool.and_eq_true, decide_eq_true_iff, decide_eq_true_iff,
    decide_eq_true_iff]

omit initial in
/-- The canonical addresses of the first entry of the root are those below 512 GiB. -/
theorem pml4Index_zero_iff {address : Nat} (valid : canonical address) :
    pml4Index address = 0 ↔ address < handoffIdentitySize := by
  rw [canonical_iff] at valid
  rw [Fin.ext_iff, pml4Index, tableIndex_val, Fin.val_zero]
  change _ ↔ address < 2 ^ 39
  omega

/-- The first map sends the addresses below 512 GiB to themselves and maps nothing else. -/
theorem Initial.translate_eq (address : Nat) : translate loader.frames pml4 address =
    if address < handoffIdentitySize then some address else none := by
  unfold translate
  by_cases valid : canonical address
  · rw [if_pos valid, initial.leaf]
    by_cases below : address < handoffIdentitySize
    · rw [if_pos ((pml4Index_zero_iff valid).mpr below), if_pos below, Option.map_some]
      have j : (pdptIndex address).val = address / 2 ^ 30 % 512 := tableIndex_val 30 address
      have i : (pdIndex address).val = address / 2 ^ 21 % 512 := tableIndex_val 21 address
      have bound : address < 2 ^ 39 := below
      simp only [(largeEntry_spec _ _).2.2, j, i, pageSize, Option.some.injEq]
      omega
    · rw [if_neg (fun zero => below ((pml4Index_zero_iff valid).mp zero)), if_neg below]
      rfl
  · rw [if_neg valid, if_neg]
    intro below
    have bound : address < 2 ^ 39 := below
    exact valid ((canonical_iff address).mpr (by omega))

/-- The first map maps exactly the first 512 GiB to themselves. -/
theorem Initial.exact : Exact pml4 loader where
  toSound := initial.sound
  low := by
    intro address below
    rw [initial.translate_eq, if_pos below]
  identity := by
    intro address physical mapped
    rw [initial.translate_eq] at mapped
    split at mapped
    · exact (Option.some.inj mapped).symm
    · cases mapped

end Initial

/-- `map_handoff_page` maps the addresses of its page to themselves and changes nothing else. -/
theorem mapHandoffPage_translate {pml4 page : Nat} {loader : Loader} (sound : Sound pml4 loader)
    (aligned : page % pageSize = 0) (high : handoffIdentitySize ≤ page) (below : page < 2 ^ 47)
    (address : Nat) :
    translate (mapHandoffPage pml4 page loader).2.frames pml4 address =
      if (mapHandoffPage pml4 page loader).1 = .success ∧ address / pageSize * pageSize = page then
        some address
      else translate loader.frames pml4 address := by
  have valid : canonical page := (canonical_iff page).mpr (.inl below)
  have notFirst : pml4Index page ≠ 0 := by
    rw [Ne, pml4Index_zero_iff valid]
    omega
  have leaves := (mapHandoffPage_spec sound notFirst).2 address
  have masked : tableEntry page &&& pteAddrMask = page := by
    have named := (nextLevel_tableEntry page).1
    have same : page &&& pteAddrMask = page := by
      rw [addrMask_eq]
      unfold pageSize at aligned
      omega
    rw [tableEntry, flags_and, same, same]
    change page ||| 0 ||| 0 = page
    simp
  unfold translate
  by_cases proper : canonical address
  · have range := (canonical_iff address).mp proper
    have samePath : tablePath address = tablePath page ↔ address / pageSize * pageSize = page := by
      rw [tablePath_eq_iff]
      unfold pageKey pageSize at *
      omega
    rw [if_pos proper, if_pos proper, leaves]
    by_cases success : (mapHandoffPage pml4 page loader).1 = .success ∧
        address / pageSize * pageSize = page
    · rw [if_pos ⟨success.1, samePath.mpr success.2⟩, if_pos success, Option.map_some]
      simp only [masked, Option.some.injEq]
      rw [pow_zero, Nat.mul_one, Nat.div_mul_cancel (Nat.dvd_of_mod_eq_zero aligned), ← success.2]
      exact Nat.div_add_mod' address pageSize
    · rw [if_neg success, if_neg]
      intro both
      exact success ⟨both.1, samePath.mp both.2⟩
  · rw [if_neg proper, if_neg proper, if_neg]
    rintro ⟨_, here⟩
    have small : address < 2 ^ 47 := by
      unfold pageSize at *
      omega
    exact proper ((canonical_iff address).mpr (.inl small))

/-- Every address that the first map translates has the same translation in the second. -/
def Keeps (pml4 : Nat) (before after : Loader) : Prop :=
  ∀ address physical, translate before.frames pml4 address = some physical →
    translate after.frames pml4 address = some physical

/-- `map_handoff_page` keeps the map exact and every translation that it had. -/
theorem mapHandoffPage_exact {pml4 page : Nat} {loader : Loader} (correct : Exact pml4 loader)
    (aligned : page % pageSize = 0) (high : handoffIdentitySize ≤ page) (below : page < 2 ^ 47) :
    Exact pml4 (mapHandoffPage pml4 page loader).2 ∧
      Keeps pml4 loader (mapHandoffPage pml4 page loader).2 := by
  have changed := mapHandoffPage_translate correct.toSound aligned high below
  have notFirst : pml4Index page ≠ 0 := by
    rw [Ne, pml4Index_zero_iff ((canonical_iff page).mpr (.inl below))]
    omega
  have keeps : Keeps pml4 loader (mapHandoffPage pml4 page loader).2 := by
    intro address physical mapped
    rw [changed address]
    split
    · rw [correct.identity address physical mapped]
    · exact mapped
  refine ⟨⟨(mapHandoffPage_spec correct.toSound notFirst).1, ?_, ?_⟩, keeps⟩
  · intro address small
    exact keeps address address (correct.low address small)
  · intro address physical mapped
    rw [changed address] at mapped
    split at mapped
    · exact (Option.some.inj mapped).symm
    · exact correct.identity address physical mapped

/-- The loop of `map_handoff_range` keeps the map exact and every translation, and when it succeeds
every page that it visited is mapped to itself. -/
theorem mapHandoffPages_exact {pml4 : Nat} {pages : List Nat} {loader : Loader}
    (correct : Exact pml4 loader) (proper : ∀ page ∈ pages, page % pageSize = 0 ∧ page < 2 ^ 47) :
    Exact pml4 (mapHandoffPages pml4 pages loader).2 ∧
      Keeps pml4 loader (mapHandoffPages pml4 pages loader).2 ∧
      ((mapHandoffPages pml4 pages loader).1 = .success →
        ∀ address, address / pageSize * pageSize ∈ pages →
          translate (mapHandoffPages pml4 pages loader).2.frames pml4 address = some address) := by
  induction pages generalizing loader with
  | nil => exact ⟨correct, fun _ _ mapped => mapped, fun _ _ member => by cases member⟩
  | cons page rest ih =>
      have later : ∀ other ∈ rest, other % pageSize = 0 ∧ other < 2 ^ 47 :=
        fun other member => proper other (List.mem_cons_of_mem _ member)
      by_cases small : page < handoffIdentitySize
      · rw [mapHandoffPages, if_pos small]
        obtain ⟨after, keeps, mapped⟩ := ih correct later
        refine ⟨after, keeps, ?_⟩
        intro success address member
        rcases List.mem_cons.mp member with here | there
        · refine after.low address ?_
          change page < 2 ^ 39 at small
          change address < 2 ^ 39
          unfold pageSize at here
          omega
        · exact mapped success address there
      · obtain ⟨aligned, below⟩ := proper page List.mem_cons_self
        have high : handoffIdentitySize ≤ page := Nat.le_of_not_lt small
        obtain ⟨next, keepsPage⟩ := mapHandoffPage_exact correct aligned high below
        have changed := mapHandoffPage_translate correct.toSound aligned high below
        rw [mapHandoffPages, if_neg small]
        rcases result : mapHandoffPage pml4 page loader with ⟨status, loaderNext⟩
        rw [result] at next keepsPage changed
        cases status with
        | success =>
            obtain ⟨after, keeps, mapped⟩ := ih next later
            refine ⟨after, fun address physical old => keeps _ _ (keepsPage _ _ old), ?_⟩
            intro success address member
            rcases List.mem_cons.mp member with here | there
            · exact keeps address address (by rw [changed address, if_pos ⟨rfl, here⟩])
            · exact mapped success address there
        | invalidParameter => exact ⟨next, keepsPage, fun impossible => by cases impossible⟩
        | outOfResources => exact ⟨next, keepsPage, fun impossible => by cases impossible⟩

/-- The loop visits the page of every address of the range. -/
theorem handoffPages_covers {physical size address : Nat} (below : physical + size ≤ 2 ^ 64)
    (lower : physical ≤ address) (upper : address < physical + size) :
    address / pageSize * pageSize ∈ handoffPages (physical &&& pageMask) (physical + size) := by
  rw [pageMask_eq]
  unfold handoffPages pageSize
  rw [List.mem_map]
  refine ⟨address / 4096 - physical / 4096, ?_, ?_⟩
  · rw [List.mem_range]
    omega
  · omega

/-- The pages of a range in the lower half are aligned and lie there. -/
theorem handoffPages_proper {physical size page : Nat} (below : physical + size ≤ 2 ^ 47)
    (member : page ∈ handoffPages (physical &&& pageMask) (physical + size)) :
    page % pageSize = 0 ∧ page < 2 ^ 47 := by
  rw [pageMask_eq] at member
  unfold handoffPages pageSize at member
  obtain ⟨i, range, rfl⟩ := List.mem_map.mp member
  rw [List.mem_range] at range
  unfold pageSize
  omega

/-- `map_handoff_range` keeps the map exact and every translation, and a successful call maps its
range to itself. -/
theorem mapHandoffRange_exact {pml4 physical size : Nat} {loader : Loader}
    (correct : Exact pml4 loader) (below : physical + size ≤ 2 ^ 47) :
    Exact pml4 (mapHandoffRange pml4 physical size loader).2 ∧
      Keeps pml4 loader (mapHandoffRange pml4 physical size loader).2 ∧
      ((mapHandoffRange pml4 physical size loader).1 = .success →
        ∀ address, physical ≤ address → address < physical + size →
          translate (mapHandoffRange pml4 physical size loader).2.frames pml4 address =
            some address) := by
  have last : add64 physical size = physical + size := add64_eq (by omega)
  have ordered : ¬ physical + size < physical := by omega
  simp only [mapHandoffRange, last, if_neg ordered]
  have proper : ∀ page ∈ handoffPages (physical &&& pageMask) (physical + size),
      page % pageSize = 0 ∧ page < 2 ^ 47 := fun page member => handoffPages_proper below member
  obtain ⟨after, keeps, mapped⟩ := mapHandoffPages_exact correct proper
  refine ⟨after, keeps, ?_⟩
  intro success address lower upper
  exact mapped success address (handoffPages_covers (below.trans (by decide)) lower upper)

/-- The memory of the loader and the ranges whose calls have succeeded. -/
structure Session where
  loader : Loader
  mapped : List (Nat × Nat)

/-- One call of `map_handoff_range` for a start and a size. -/
def Session.step (pml4 : Nat) (session : Session) (range : Nat × Nat) : Session :=
  let result := mapHandoffRange pml4 range.1 range.2 session.loader
  ⟨result.2, if result.1 = .success then range :: session.mapped else session.mapped⟩

/-- The map is exact and every range that a call has mapped translates to itself. -/
structure Session.Good (pml4 : Nat) (session : Session) : Prop where
  correct : Exact pml4 session.loader
  ranges : ∀ range ∈ session.mapped, ∀ address, range.1 ≤ address → address < range.1 + range.2 →
    translate session.loader.frames pml4 address = some address

/-- One range keeps the map and adds the range. -/
theorem Session.Good.step {pml4 : Nat} {session : Session} {range : Nat × Nat}
    (good : session.Good pml4) (below : range.1 + range.2 ≤ 2 ^ 47) :
    (session.step pml4 range).Good pml4 ∧
      Keeps pml4 session.loader (session.step pml4 range).loader := by
  obtain ⟨after, keeps, mapped⟩ := mapHandoffRange_exact good.correct below
  refine ⟨⟨after, ?_⟩, keeps⟩
  intro other member address lower upper
  have old (earlier : other ∈ session.mapped) :
      translate (session.step pml4 range).loader.frames pml4 address = some address :=
    keeps address address (good.ranges other earlier address lower upper)
  by_cases success : (mapHandoffRange pml4 range.1 range.2 session.loader).1 = .success
  · simp only [Session.step, if_pos success] at member
    rcases List.mem_cons.mp member with rfl | earlier
    · exact mapped success address lower upper
    · exact old earlier
  · simp only [Session.step, if_neg success] at member
    exact old member

/-- In every state that calls of `map_handoff_range` reach, the first 512 GiB and every range whose
call succeeded translate to themselves, and a further call changes no translation. -/
theorem handoff_run {frames : Nat → Fin 512 → Nat} {supply : List (Option Nat)} {pml4 : Nat}
    {loader : Loader} (fresh : Fresh supply)
    (built : buildHandoffMap ⟨frames, supply⟩ = some (pml4, loader)) {ranges : List (Nat × Nat)}
    (below : ∀ range ∈ ranges, range.1 + range.2 ≤ 2 ^ 47) :
    ∀ session ∈ visited (Session.step pml4) ⟨loader, []⟩ ranges,
      (∀ address, address < handoffIdentitySize →
        translate session.loader.frames pml4 address = some address) ∧
      (∀ range ∈ session.mapped, ∀ address, range.1 ≤ address → address < range.1 + range.2 →
        translate session.loader.frames pml4 address = some address) ∧
      ∀ physical size, physical + size ≤ 2 ^ 47 → ∀ address target,
        translate session.loader.frames pml4 address = some target →
        translate (session.step pml4 (physical, size)).loader.frames pml4 address =
          some target := by
  obtain ⟨pdpt, pd, initial⟩ := buildHandoffMap_initial fresh built
  have start : Session.Good pml4 ⟨loader, []⟩ :=
    ⟨initial.exact, fun range member => by cases member⟩
  have guarded : Guarded (Session.step pml4) (fun _ range => range.1 + range.2 ≤ 2 ^ 47)
      ⟨loader, []⟩ ranges := guarded_of_forall below _
  have keeps : ∀ (session : Session) (range : Nat × Nat), session.Good pml4 →
      range.1 + range.2 ≤ 2 ^ 47 → (session.step pml4 range).Good pml4 :=
    fun _ _ good below => (good.step below).1
  intro session member
  have good := visited_invariant keeps start guarded session member
  refine ⟨good.correct.low, good.ranges, ?_⟩
  intro physical size bounded
  have call : Keeps pml4 session.loader (session.step pml4 (physical, size)).loader :=
    (good.step bounded).2
  exact call

/-- A firmware that hands out the pages from 1 MiB on. -/
def firmwareSupply (count : Nat) : List (Option Nat) :=
  (List.range' 256 count).map fun page => some (page * pageSize)

/-- The pages of the firmware are distinct and aligned. -/
theorem firmwareSupply_fresh {count : Nat} (bounded : count ≤ 2 ^ 32) :
    Fresh (firmwareSupply count) where
  aligned := by
    intro page member
    obtain ⟨number, range, same⟩ := List.mem_map.mp member
    rw [List.mem_range'_1] at range
    obtain rfl := Option.some.inj same
    unfold pageSize
    omega
  distinct := by
    have pages : (firmwareSupply count).filterMap id =
        (List.range' 256 count).map fun page => page * pageSize := by
      simp [firmwareSupply, List.filterMap_map]
    rw [pages]
    refine List.Nodup.map ?_ List.nodup_range'
    intro first second same
    simp only [pageSize] at same
    omega

/-- With enough pages the first map is built. -/
theorem firmwareSupply_built (frames : Nat → Fin 512 → Nat) (spare : Nat) :
    ∃ pml4 loader, buildHandoffMap ⟨frames, firmwareSupply (512 + spare + 1 + 1)⟩ =
      some (pml4, loader) := by
  have split : firmwareSupply (512 + spare + 1 + 1) =
      some (256 * pageSize) :: some (257 * pageSize) ::
        (((List.range' 258 512).map fun page => page * pageSize).map some ++
          (List.range' 770 spare).map fun page => some (page * pageSize)) := by
    unfold firmwareSupply
    rw [List.range'_succ, List.range'_succ, ← List.range'_append_1, List.map_cons, List.map_cons,
      List.map_append, List.map_map]
    rfl
  rw [split]
  exact ⟨_, _, buildHandoffMap_success frames _ _ (by simp) _⟩

/-- The firmware leaves three pages, enough for one page of a frame buffer above 512 GiB. -/
theorem handoff_run_frameBuffer : ∃ pml4 loader,
    buildHandoffMap ⟨fun _ _ => 0, firmwareSupply (512 + 3 + 1 + 1)⟩ = some (pml4, loader) ∧
      ∀ session ∈ visited (Session.step pml4) ⟨loader, []⟩ [(2 ^ 39, 4096), (2 ^ 40, 4096)],
        (∀ address, address < handoffIdentitySize →
          translate session.loader.frames pml4 address = some address) ∧
        (∀ range ∈ session.mapped, ∀ address, range.1 ≤ address → address < range.1 + range.2 →
          translate session.loader.frames pml4 address = some address) ∧
        ∀ physical size, physical + size ≤ 2 ^ 47 → ∀ address target,
          translate session.loader.frames pml4 address = some target →
          translate (session.step pml4 (physical, size)).loader.frames pml4 address =
            some target := by
  obtain ⟨pml4, loader, built⟩ := firmwareSupply_built (fun _ _ => 0) 3
  refine ⟨pml4, loader, built, ?_⟩
  exact handoff_run (firmwareSupply_fresh (by decide)) built (by decide)

end ArchaOS.Handoff
