import ArchaOS.Construction.Handoff
import ArchaOS.Proof.VirtualMemory.Tables

namespace ArchaOS.Handoff

open Library PhysicalMemory VirtualMemory RadixTree

/-- The frame holds a table of the map. -/
def IsTable (pml4 : Nat) (frames : Nat → Fin 512 → Nat) (frame : Nat) : Prop :=
  Holds nextLevel frames pml4 4 frame

/-- The tables form a tree, the pages that can still be allocated are distinct and hold no table, and
only the first 512 GiB have large pages. -/
structure Sound (pml4 : Nat) (loader : Loader) : Prop where
  tree : Tree nextLevel loader.frames pml4 4
  aligned : ∀ page, some page ∈ loader.supply → page % pageSize = 0 ∧ page < 2 ^ 52
  distinct : (loader.supply.filterMap id).Nodup
  unused : ∀ page, some page ∈ loader.supply → ¬ IsTable pml4 loader.frames page
  small : ∀ path frame index, path.length < 3 → walk nextLevel loader.frames pml4 path = some frame →
    (path ++ [index]).head? ≠ some 0 → largePage (loader.frames frame index) = false

/-- An empty entry leads nowhere. -/
theorem nextLevel_zero : nextLevel 0 = none ∧ largePage 0 = false := ⟨rfl, rfl⟩

/-- The flags of an entry are tested one by one. -/
theorem flags_and (phys flag : Nat) : (phys ||| ptePresent ||| pteRw) &&& flag =
    (phys &&& flag) ||| (ptePresent &&& flag) ||| (pteRw &&& flag) := by
  rw [Nat.and_or_distrib_right, Nat.and_or_distrib_right]

/-- The entry made for an aligned page names that page. -/
theorem nextLevel_page {page : Nat} (aligned : page % pageSize = 0) (low : page < 2 ^ 52) :
    nextLevel (page ||| ptePresent ||| pteRw) = some page ∧
      largePage (page ||| ptePresent ||| pteRw) = false := by
  have masked : page &&& pteAddrMask = page := by
    rw [addrMask_eq]
    unfold pageSize at aligned
    omega
  have flag : (page ||| ptePresent ||| pteRw) &&& ptePresent ≠ 0 := by
    rw [flags_and]
    change (page &&& ptePresent) ||| 1 ||| 0 ≠ 0
    simp
  have large : (page ||| ptePresent ||| pteRw) &&& ptePs = 0 := by
    rw [flags_and, ← masked, Nat.and_assoc]
    change (page &&& 0) ||| 0 ||| 0 = 0
    simp
  have address : (page ||| ptePresent ||| pteRw) &&& pteAddrMask = page := by
    rw [flags_and, masked]
    change page ||| 0 ||| 0 = page
    simp
  constructor
  · rw [nextLevel, if_neg flag, if_pos large, address]
  · simp [largePage, large]

/-- The entry of a table leads to the table. -/
theorem nextLevel_tableEntry (phys : Nat) :
    nextLevel (tableEntry phys) = some (phys &&& pteAddrMask) ∧ largePage (tableEntry phys) = false := by
  have masked : (phys &&& pteAddrMask) % pageSize = 0 ∧ phys &&& pteAddrMask < 2 ^ 52 := by
    rw [addrMask_eq]
    unfold pageSize
    omega
  exact nextLevel_page masked.1 masked.2

/-- The state in which an allocated page has become the table below one entry. -/
def Loader.addTable (loader : Loader) (rest : List (Option Nat)) (table : Nat) (index : Fin 512)
    (page : Nat) : Loader :=
  ({ loader with supply := rest }.setMem page).store table index (page ||| ptePresent ||| pteRw)

/-- An entry without the present bit names nothing. -/
theorem absent_entry {entry : Nat} (absent : entry &&& ptePresent = 0) :
    nextLevel entry = none ∧ largePage entry = false := by
  simp [nextLevel, largePage, absent]

section Level

variable {pml4 table : Nat} {index : Fin 512} {path : List (Fin 512)} {loader : Loader}
  (sound : Sound pml4 loader) (reached : walk nextLevel loader.frames pml4 path = some table)
  (short : path.length < 3)
include sound reached short

/-- An allocated page is cleared and linked below an entry without the present bit. -/
theorem Sound.addTable_linking {page : Nat} (absent : loader.frames table index &&& ptePresent = 0)
    (offered : some page ∈ loader.supply) :
    Linking nextLevel loader.frames (loader.setMem page).frames pml4 4 path index table page
      (page ||| ptePresent ||| pteRw) where
  tree := sound.tree
  reached := reached
  short := Nat.succ_lt_succ short
  missing := (absent_entry absent).1
  named := (nextLevel_page (sound.aligned page offered).1 (sound.aligned page offered).2).1
  unheld := sound.unused page offered
  agree := by
    intro frame held
    have different : frame ≠ page := fun same => sound.unused page offered (same ▸ held)
    exact Function.update_of_ne different _ _
  bare := by
    intro position
    simp [Loader.setMem, nextLevel_zero.1]

/-- An allocated page becomes a table of the map, and every translation stays. -/
theorem Sound.addTable {page : Nat} {rest : List (Option Nat)}
    (absent : loader.frames table index &&& ptePresent = 0)
    (supply : loader.supply = some page :: rest) :
    Sound pml4 (loader.addTable rest table index page) ∧
      walk nextLevel (loader.addTable rest table index page).frames pml4 (path ++ [index]) = some page ∧
      ∀ target, target.length = 4 →
        leafAt nextLevel largePage (loader.addTable rest table index page).frames pml4 target =
          leafAt nextLevel largePage loader.frames pml4 target := by
  have offered : some page ∈ loader.supply := by simp [supply]
  have linking := sound.addTable_linking reached short absent offered
  have blank : ∀ position, largePage ((loader.setMem page).frames page position) = false := by
    intro position
    simp [Loader.setMem, nextLevel_zero.2]
  have before {other : Nat} (member : some other ∈ rest) : some other ∈ loader.supply := by
    rw [supply]
    exact List.mem_cons_of_mem _ member
  have distinct := sound.distinct
  rw [supply] at distinct
  obtain ⟨once, remaining⟩ := List.nodup_cons.mp distinct
  refine ⟨⟨linking.linked, fun other member => sound.aligned other (before member), remaining, ?_, ?_⟩,
    linking.walk_fresh, linking.leafAt_eq blank (absent_entry absent).2⟩
  · intro other member held
    rcases (linking.holds_iff le_rfl other).mp held with ⟨_, rfl⟩ | old
    · exact once (List.mem_filterMap.mpr ⟨some other, member, rfl⟩)
    · exact sound.unused other (before member) old
  · intro walked frame position bounded arrived notFirst
    rcases linking.entry_cases (by omega) arrived position with same | same | ⟨old, same⟩
    · exact (congrArg largePage same).trans (blank position)
    · exact (congrArg largePage same).trans
        (nextLevel_page (sound.aligned page offered).1 (sound.aligned page offered).2).2
    · exact (congrArg largePage same).trans
        (sound.small walked frame position bounded old notFirst)

omit reached short in
/-- A failed allocation leaves the map as it is. -/
theorem Sound.tail : Sound pml4 { loader with supply := loader.supply.tail } where
  tree := sound.tree
  aligned := fun page member => sound.aligned page (List.mem_of_mem_tail member)
  distinct := sound.distinct.sublist ((List.tail_sublist _).filterMap _)
  unused := fun page member => sound.unused page (List.mem_of_mem_tail member)
  small := sound.small

variable (index) in
/-- One level of `map_handoff_page` keeps the map sound and every translation, and returns the next
table unless an allocation fails. -/
theorem handoffTable_spec (high : (path ++ [index]).head? ≠ some 0) :
    Sound pml4 (handoffTable table index loader).2 ∧
      (∀ target, target.length = 4 →
        leafAt nextLevel largePage (handoffTable table index loader).2.frames pml4 target =
          leafAt nextLevel largePage loader.frames pml4 target) ∧
      ∀ next, (handoffTable table index loader).1 = some next →
        walk nextLevel (handoffTable table index loader).2.frames pml4 (path ++ [index]) = some next := by
  by_cases absent : loader.frames table index &&& ptePresent = 0
  · cases supply : loader.supply with
    | nil =>
        have result : handoffTable table index loader =
            (none, { loader with supply := loader.supply.tail }) := by
          simp [handoffTable, absent, allocateTable, allocatePages, supply]
        rw [result]
        exact ⟨sound.tail, fun _ _ => rfl, fun next impossible => by cases impossible⟩
    | cons answer rest =>
        cases answer with
        | none =>
            have result : handoffTable table index loader =
                (none, { loader with supply := loader.supply.tail }) := by
              simp [handoffTable, absent, allocateTable, allocatePages, supply]
            rw [result]
            exact ⟨sound.tail, fun _ _ => rfl, fun next impossible => by cases impossible⟩
        | some page =>
            have offered : some page ∈ loader.supply := by simp [supply]
            have named := (nextLevel_page (sound.aligned page offered).1
              (sound.aligned page offered).2).1
            have masked : (page ||| ptePresent ||| pteRw) &&& pteAddrMask = page := by
              unfold nextLevel at named
              split at named
              · cases named
              · split at named
                · exact Option.some.inj named
                · cases named
            have result : handoffTable table index loader =
                (some page, loader.addTable rest table index page) := by
              simp only [handoffTable, absent, if_true, allocateTable, allocatePages, supply,
                List.head?_cons, Option.join_some, List.tail_cons, Loader.addTable, Loader.store,
                write_self, masked, Loader.setMem]
            obtain ⟨added, arrived, leaves⟩ := sound.addTable reached short absent supply
            rw [result]
            refine ⟨added, leaves, ?_⟩
            intro next same
            rw [arrived]
            exact same
  · have notLarge := sound.small path table index short reached high
    have named : nextLevel (loader.frames table index) =
        some (loader.frames table index &&& pteAddrMask) := by
      have small : loader.frames table index &&& ptePs = 0 := by
        simpa [largePage, absent] using notLarge
      rw [nextLevel, if_neg absent, if_pos small]
    have result : handoffTable table index loader =
        (some (loader.frames table index &&& pteAddrMask), loader) := by
      simp [handoffTable, absent]
    rw [result]
    refine ⟨sound, fun _ _ => rfl, ?_⟩
    intro next same
    rw [walk_snoc, reached, Option.bind_some, named]
    exact same

end Level

/-- The last level of `map_handoff_page` changes one small page. -/
theorem Sound.put {pml4 table : Nat} (index : Fin 512) {path : List (Fin 512)} {loader : Loader}
    (sound : Sound pml4 loader) (reached : walk nextLevel loader.frames pml4 path = some table)
    (last : path.length = 3) (phys : Nat) :
    Sound pml4 (loader.store table index (tableEntry phys)) ∧
      ∀ target, target.length = 4 →
        leafAt nextLevel largePage (loader.store table index (tableEntry phys)).frames pml4 target =
          if target = path ++ [index] then some (0, tableEntry phys)
          else leafAt nextLevel largePage loader.frames pml4 target := by
  have deep : path.length + 1 = 4 := by omega
  refine ⟨⟨sound.tree.put reached deep, sound.aligned, sound.distinct, ?_, ?_⟩,
    leafAt_put sound.tree reached deep (nextLevel_tableEntry phys).1⟩
  · intro page member held
    exact sound.unused page member ((holds_put sound.tree reached deep le_rfl page).mp held)
  · intro walked frame position bounded arrived notFirst
    have before : walk nextLevel loader.frames pml4 walked = some frame := by
      rw [← walk_put_short sound.tree reached deep walked (by omega)]
      exact arrived
    have different : frame ≠ table := by
      rintro rfl
      have same := sound.tree walked path frame (by omega) (by omega) before reached
      rw [same] at bounded
      omega
    change largePage (write loader.frames table index _ frame position) = false
    rw [write_of_ne_frame _ different]
    exact sound.small walked frame position bounded before notFirst

/-- `map_handoff_page` keeps the map sound and changes the translation of its own page alone. -/
theorem mapHandoffPage_spec {pml4 physical : Nat} {loader : Loader} (sound : Sound pml4 loader)
    (high : pml4Index physical ≠ 0) :
    Sound pml4 (mapHandoffPage pml4 physical loader).2 ∧
      ∀ address, leafAt nextLevel largePage (mapHandoffPage pml4 physical loader).2.frames pml4
          (tablePath address) =
        if (mapHandoffPage pml4 physical loader).1 = .success ∧
            tablePath address = tablePath physical then some (0, tableEntry physical)
        else leafAt nextLevel largePage loader.frames pml4 (tablePath address) := by
  have full (address : Nat) : (tablePath address).length = 4 := rfl
  have top : walk nextLevel loader.frames pml4 [] = some pml4 := walk_nil _ _ _
  obtain ⟨soundFirst, leavesFirst, reachedFirst⟩ :=
    handoffTable_spec (pml4Index physical) sound top (by decide) (by simpa using high)
  rcases first : handoffTable pml4 (pml4Index physical) loader with ⟨_ | pdpt, loaderFirst⟩
  · rw [first] at soundFirst leavesFirst
    simp only [mapHandoffPage, first]
    exact ⟨soundFirst, fun address => by simp [leavesFirst _ (full address)]⟩
  rw [first] at soundFirst leavesFirst reachedFirst
  obtain ⟨soundSecond, leavesSecond, reachedSecond⟩ :=
    handoffTable_spec (pdptIndex physical) soundFirst (reachedFirst pdpt rfl) (by simp)
      (by simpa using high)
  dsimp only at soundSecond leavesSecond reachedSecond leavesFirst
  rcases second : handoffTable pdpt (pdptIndex physical) loaderFirst with ⟨_ | pd, loaderSecond⟩
  · rw [second] at soundSecond leavesSecond
    simp only [mapHandoffPage, first, second]
    exact ⟨soundSecond, fun address => by
      simp [leavesSecond _ (full address), leavesFirst _ (full address)]⟩
  rw [second] at soundSecond leavesSecond reachedSecond
  obtain ⟨soundThird, leavesThird, reachedThird⟩ :=
    handoffTable_spec (pdIndex physical) soundSecond (reachedSecond pd rfl) (by simp)
      (by simpa using high)
  dsimp only at soundThird leavesThird reachedThird leavesSecond
  rcases third : handoffTable pd (pdIndex physical) loaderSecond with ⟨_ | pt, loaderThird⟩
  · rw [third] at soundThird leavesThird
    simp only [mapHandoffPage, first, second, third]
    exact ⟨soundThird, fun address => by
      simp [leavesThird _ (full address), leavesSecond _ (full address),
        leavesFirst _ (full address)]⟩
  rw [third] at soundThird leavesThird reachedThird
  obtain ⟨soundLast, stored⟩ :=
    Sound.put (ptIndex physical) soundThird (reachedThird pt rfl) rfl physical
  simp only [mapHandoffPage, first, second, third, true_and]
  refine ⟨soundLast, fun address => ?_⟩
  rw [stored _ (full address), leavesThird _ (full address), leavesSecond _ (full address),
    leavesFirst _ (full address)]
  rfl

end ArchaOS.Handoff
