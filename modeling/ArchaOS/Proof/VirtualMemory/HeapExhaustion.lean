import ArchaOS.Proof.VirtualMemory.HeapCursor

namespace ArchaOS.VirtualMemory

open Library PhysicalMemory RadixTree

/-- The region of a page of the heap. -/
theorem slot_region_eq {index : Nat} (low : index < windowPages) :
    slot index / 2 ^ 21 % 2 ^ 27 = 2 ^ 27 - 2 ^ 12 + index / 512 := by
  unfold windowPages at low
  unfold slot add64
  unfold kheapBase passthruBase pageSize at *
  omega

/-- Below the tables of a mapped page nothing is missing. -/
theorem missingTables_region {vmm : Vmm} {pml4 address other frame : Nat}
    (found : lookup vmm pml4 address = some frame)
    (same : other / 2 ^ 21 % 2 ^ 27 = address / 2 ^ 21 % 2 ^ 27) :
    missingTables vmm pml4 other = 0 := by
  obtain ⟨first, second, third⟩ := upperIndex_region same
  have reached {upper lower : List (Fin 512)} (split : upper ++ lower = tablePath address) :
      walk present vmm.frames pml4 upper ≠ none := by
    rw [lookup, ← split] at found
    exact walk_prefix _ _ _ found
  unfold missingTables
  rw [first, second, third, if_neg (reached rfl), if_neg (reached rfl), if_neg (reached rfl)]

section Exhaustion

variable {pml4 : Nat} {first : Vmm} (booted : Booted pml4 first)
include booted

/-- The free pages are a supply. -/
theorem Owned.supplied {count : Nat} {vmm : Vmm} (owned : Owned pml4 first count vmm) :
    Supplied vmm.pmm.freePages vmm.pmm :=
  ⟨owned.ready, owned.used 0 booted.zero, le_rfl⟩

/-- Inside one region the loop of `vallocs` goes on until no page is left. -/
theorem vallocsFrom_exhausts {count pages : Nat} : ∀ {turn : Nat} {vmm : Vmm},
    Owned pml4 first (count + turn) vmm → vmm.pmm.freePages = pages →
    pages = 0 ∨ missingTables vmm pml4 (slot (count + turn)) < pages →
    (count + turn) % 512 + pages ≤ 512 → count + turn + pages ≤ windowPages →
    ∃ turns ≤ pages, ∃ middle, vallocsFrom false (slot count) pml4 turns turn vmm = .ok (true, middle) ∧
      (palloc middle.pmm).1 = 0 := by
  induction pages using Nat.strong_induction_on with
  | _ pages ih =>
      intro turn vmm owned free enough region window
      rcases palloc_cases owned.ready with ⟨page, inside, unused, _, taken⟩ | ⟨_, failed⟩
      · have positive := owned.ready.counted.freePages_pos inside unused
        have missing := enough.resolve_left (by omega)
        have supplied : Supplied (missingTables vmm pml4 (slot (count + turn)) + 1) vmm.pmm :=
          (owned.supplied booted).less (by omega)
        have rest := supplied.palloc.2
        have nonzero := supplied.palloc.1
        rw [taken] at rest nonzero
        dsimp only at rest nonzero
        obtain ⟨mapped, mapping⟩ := mapPage_returns (page * pageSize) (slot (count + turn))
          (owned.tables.markUsed page) fun taken low => rest.room taken low
        obtain ⟨lengthened, here⟩ :=
          owned.mapPage (lt_of_le_of_lt (by omega) (by decide : windowPages < 2 ^ 36)) unused mapping
        have fewer := lengthened.fewer
        have near : mapped.pmm.freePages = 0 ∨
            missingTables mapped pml4 (slot (count + (turn + 1))) < mapped.pmm.freePages := by
          rcases Nat.eq_zero_or_pos mapped.pmm.freePages with none | some
          · exact Or.inl none
          · refine Or.inr ?_
            rw [missingTables_region here]
            · exact some
            · rw [slot_region_eq (by omega), slot_region_eq (by omega)]
              omega
        obtain ⟨turns, few, middle, looped, full⟩ :=
          ih mapped.pmm.freePages (by omega) lengthened.owned rfl near (by omega) (by omega)
        refine ⟨turns + 1, by omega, middle, ?_, full⟩
        rw [vallocsFrom, taken]
        simp only [nonzero, if_false, slot_add, bind_eq_ok]
        exact ⟨mapped, mapping, looped⟩
      · exact ⟨0, Nat.zero_le _, vmm, rfl, by rw [failed]⟩

/-- The region of the next page of the heap. -/
def nextRegion (count : Nat) : Finset Nat := {slot count / 2 ^ 21 % 2 ^ 27}

omit booted in
/-- One region needs at most three tables. -/
theorem nextRegion_paths (count : Nat) : (regionPaths (nextRegion count)).card ≤ 3 := by
  have bound := regionPaths_card (nextRegion count)
  rwa [nextRegion, Finset.card_singleton] at bound

omit booted in
/-- The tables of the pages of one region are the same. -/
theorem nextRegion_covers {count index : Nat} (same : index / 512 = count / 512)
    (low : index < windowPages) (low' : count < windowPages) :
    upperPaths (slot index) ⊆ regionPaths (nextRegion count) := by
  refine upperPaths_subset (Finset.mem_singleton.mpr ?_)
  rw [slot_region_eq low, slot_region_eq low', same]

/-- With four free pages the heap has tables for its next page. -/
theorem Invariant.circulating {count spare : Nat} {session : Session}
    (invariant : Invariant pml4 first count session) (enough : spare + 4 ≤ session.vmm.pmm.freePages) :
    Circulating (regionPaths (nextRegion count)) spare session.vmm.pmm.freePages pml4 first count
      session := by
  refine ⟨invariant, ⟨invariant.owned.tables, (invariant.owned.supplied booted).less ?_⟩, le_rfl⟩
  have few := (Finset.card_filter_le (regionPaths (nextRegion count)) fun path =>
    walk present session.vmm.frames pml4 path = none).trans (nextRegion_paths count)
  unfold missingPaths
  omega

/-- Allocations of one page take the free pages down to a limit. -/
theorem Invariant.drain {limit : Nat} (four : 4 ≤ limit) {pages : Nat} :
    ∀ {count : Nat} {session : Session}, Invariant pml4 first count session →
      session.vmm.pmm.freePages = pages → limit ≤ pages → count + pages ≤ windowPages →
      ∃ requests count', Guarded Session.step Session.Bounded session requests ∧
        Invariant pml4 first count' (requests.foldl Session.step session) ∧
        limit ≤ (requests.foldl Session.step session).vmm.pmm.freePages ∧
        (requests.foldl Session.step session).vmm.pmm.freePages < limit + 4 ∧
        count' ≤ count + pages := by
  induction pages using Nat.strong_induction_on with
  | _ pages ih =>
      intro count session invariant free above window
      rcases Nat.lt_or_ge pages (limit + 4) with low | high
      · exact ⟨[], count, trivial, invariant, by simpa [free] using above, by simpa [free] using low,
          Nat.le_add_right _ _⟩
      · obtain ⟨bounded, grown, fewer, page, loaned⟩ :=
          (invariant.circulating booted (show pages - 4 + 4 ≤ _ by omega)).grows
            (fun _ => upperPaths_short) booted (nextRegion_covers rfl (by omega) (by omega)) (by omega)
        have left := loaned.stocked.supplied.enough
        rw [free] at fewer
        obtain ⟨requests, count', guarded, invariant', lower, upper, place⟩ :=
          ih _ fewer grown rfl (by omega) (by omega)
        exact ⟨.vallocs false 1 :: requests, count', ⟨bounded, guarded⟩, invariant', lower, upper, by omega⟩

/-- The heap moves on to the start of its next region, and almost all free pages remain. -/
theorem Invariant.nextStart {count : Nat} {session : Session}
    (invariant : Invariant pml4 first count session) (eight : 8 ≤ session.vmm.pmm.freePages)
    (window : count + 512 ≤ windowPages) :
    ∃ requests count', Guarded Session.step Session.Bounded session requests ∧
      Invariant pml4 first count' (requests.foldl Session.step session) ∧
      4 ≤ (requests.foldl Session.step session).vmm.pmm.freePages ∧
      (requests.foldl Session.step session).vmm.pmm.freePages ≤ session.vmm.pmm.freePages ∧
      count' % 512 = 0 ∧ count' ≤ count + 512 := by
  have circulating := invariant.circulating booted (show 4 + 4 ≤ _ from eight)
  obtain ⟨bounded, next⟩ := circulating.cycles (fun _ => upperPaths_short) booted (512 - count % 512)
    (by omega) fun index above below => nextRegion_covers (by omega) (by omega) (by omega)
  have left := next.stocked.supplied.enough
  exact ⟨_, _, bounded, next.invariant, by omega, next.few, by omega, by omega⟩

/-- Some run leads to a state where a call runs out of pages. -/
theorem Invariant.refusal {count : Nat} {session : Session}
    (invariant : Invariant pml4 first count session) (eight : 8 ≤ session.vmm.pmm.freePages)
    (window : count + session.vmm.pmm.freePages + 1024 ≤ windowPages) :
    ∃ requests, Guarded Session.step Session.Bounded session requests ∧
      (requests.foldl Session.step session).vmm.nextVirt + 512 * pageSize ≤ passthruBase ∧
      ∃ turns < 512, ∃ middle, vallocsFrom false (requests.foldl Session.step session).vmm.nextVirt pml4
        turns 0 (requests.foldl Session.step session).vmm = .ok (true, middle) ∧
        (palloc middle.pmm).1 = 0 := by
  obtain ⟨drains, drained, bounded, invariant, lower, upper, place⟩ :=
    invariant.drain booted (show 4 ≤ 8 by decide) rfl eight (by omega)
  obtain ⟨moves, moved, bounded', invariant', lower', upper', start, place'⟩ :=
    invariant.nextStart booted lower (by omega)
  refine ⟨drains ++ moves, guarded_append.mpr ⟨bounded, bounded'⟩, ?_⟩
  rw [List.foldl_append]
  generalize moves.foldl Session.step (drains.foldl Session.step session) = reached at *
  have next := invariant'.next_slot
  have few := missingTables_le reached.vmm pml4 (slot (moved + 0))
  obtain ⟨turns, bound, middle, looped, full⟩ := vallocsFrom_exhausts booted
    (show Owned pml4 first (moved + 0) reached.vmm from invariant'.owned) rfl (Or.inr (by omega))
    (by omega) (by omega)
  constructor
  · rw [invariant'.nextVirt]
    unfold windowPages at window
    unfold kheapBase passthruBase pageSize at *
    omega
  · refine ⟨turns, by omega, middle, ?_, full⟩
    rw [next]
    exact looped

end Exhaustion

end ArchaOS.VirtualMemory
