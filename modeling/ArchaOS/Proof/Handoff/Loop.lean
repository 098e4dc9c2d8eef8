import ArchaOS.Construction.HandoffLoop
import ArchaOS.Proof.Handoff.Identity

namespace ArchaOS.Handoff

open Library PhysicalMemory VirtualMemory Traced

/-- At the end of the range no page is left. -/
theorem handoffPages_nil {page last : Nat} (done : last ≤ page) : handoffPages page last = [] := by
  have none : (last - page + pageSize - 1) / pageSize = 0 := by
    unfold pageSize
    omega
  rw [handoffPages, none]
  rfl

/-- Before the end of the range the next page is visited. -/
theorem handoffPages_cons {page last : Nat} (more : page < last) :
    handoffPages page last = page :: handoffPages (page + pageSize) last := by
  have count : (last - page + pageSize - 1) / pageSize =
      (last - (page + pageSize) + pageSize - 1) / pageSize + 1 := by
    unfold pageSize
    omega
  rw [handoffPages, handoffPages, count, List.range_succ_eq_map, List.map_cons, List.map_map,
    Nat.zero_mul, Nat.add_zero]
  congr 1
  apply List.map_congr_left
  intro i _
  unfold pageSize
  simp only [Function.comp_apply]
  omega

/-- The pages are listed in increasing order, each once. -/
theorem handoffPages_ordered (page last : Nat) : (handoffPages page last).Pairwise (· < ·) := by
  rw [handoffPages, List.pairwise_map]
  refine List.pairwise_lt_range.imp fun {first second} less => ?_
  unfold pageSize
  omega

/-- Below the last page the loop variable does not wrap. -/
theorem add64_pageSize {page last : Nat} (below : last ≤ 2 ^ 64 - pageSize) (more : page < last) :
    add64 page pageSize = page + pageSize := by
  apply add64_eq
  unfold pageSize at below ⊢
  omega

/-- One turn of the loop visits its page and goes on unless the page cannot be mapped. -/
theorem handoffLoop_turn {pml4 last page : Nat} (more : page < last) (fuel : Nat) (loader : Loader) :
    (∃ after, handoffLoop pml4 last (fuel + 1) page loader =
        ⟨page :: (handoffLoop pml4 last fuel (add64 page pageSize) after).events,
          (handoffLoop pml4 last fuel (add64 page pageSize) after).value⟩ ∧
        ∀ rest, mapHandoffPages pml4 (page :: rest) loader = mapHandoffPages pml4 rest after) ∨
      ∃ failed after, failed ≠ .success ∧
        handoffLoop pml4 last (fuel + 1) page loader = ⟨[page], (some failed, after)⟩ ∧
        ∀ rest, mapHandoffPages pml4 (page :: rest) loader = (failed, after) := by
  by_cases small : page < handoffIdentitySize
  · refine .inl ⟨loader, ?_, fun rest => ?_⟩
    · rw [handoffLoop, if_pos more, if_pos small]
      rfl
    · rw [mapHandoffPages, if_pos small]
  · rcases mapped : mapHandoffPage pml4 page loader with ⟨status, after⟩
    cases status with
    | success =>
        refine .inl ⟨after, ?_, fun rest => ?_⟩
        · rw [handoffLoop, if_pos more, if_neg small, mapped]
          rfl
        · rw [mapHandoffPages, if_neg small, mapped]
    | invalidParameter =>
        refine .inr ⟨.invalidParameter, after, by decide, ?_, fun rest => ?_⟩
        · rw [handoffLoop, if_pos more, if_neg small, mapped]
          rfl
        · rw [mapHandoffPages, if_neg small, mapped]
    | outOfResources =>
        refine .inr ⟨.outOfResources, after, by decide, ?_, fun rest => ?_⟩
        · rw [handoffLoop, if_pos more, if_neg small, mapped]
          rfl
        · rw [mapHandoffPages, if_neg small, mapped]

/-- Where its variable cannot wrap, the loop visits the listed pages from the front, and with enough
turns it returns what a pass over the list returns. -/
theorem handoffLoop_spec {pml4 last : Nat} (below : last ≤ 2 ^ 64 - pageSize) (fuel page : Nat)
    (loader : Loader) :
    (handoffLoop pml4 last fuel page loader).events <+: handoffPages page last ∧
      ((handoffLoop pml4 last fuel page loader).value.1 = some .success →
        (handoffLoop pml4 last fuel page loader).events = handoffPages page last) ∧
      ((handoffPages page last).length < fuel →
        (handoffLoop pml4 last fuel page loader).value =
          Prod.map some id (mapHandoffPages pml4 (handoffPages page last) loader)) := by
  induction fuel generalizing page loader with
  | zero =>
      exact ⟨List.nil_prefix, fun impossible => (by cases impossible),
        fun few => absurd few (Nat.not_lt_zero _)⟩
  | succ fuel ih =>
      by_cases more : page < last
      · have next := add64_pageSize below more
        rw [handoffPages_cons more]
        rcases handoffLoop_turn more fuel loader with
          ⟨after, turn, list⟩ | ⟨failed, after, notSuccess, turn, list⟩
        · obtain ⟨front, whole, result⟩ := ih (page + pageSize) after
          rw [turn, list, next]
          refine ⟨List.cons_prefix_cons.mpr ⟨rfl, front⟩, fun success => ?_, fun enough => ?_⟩
          · exact congrArg (page :: ·) (whole success)
          · rw [List.length_cons] at enough
            exact result (Nat.lt_of_succ_lt_succ enough)
        · rw [turn, list]
          refine ⟨List.cons_prefix_cons.mpr ⟨rfl, List.nil_prefix⟩, fun success => ?_, fun _ => rfl⟩
          exact absurd (Option.some.inj success) notSuccess
      · rw [handoffPages_nil (Nat.le_of_not_lt more), handoffLoop, if_neg more]
        exact ⟨List.nil_prefix, fun _ => rfl, fun _ => rfl⟩

/-- Where the loop variable cannot wrap, the function of the list is the function of the loop. -/
theorem mapHandoffRangeLoop_eq {physical size : Nat} (below : physical + size ≤ 2 ^ 64 - pageSize)
    (pml4 : Nat) (loader : Loader) :
    ∃ enough, ∀ fuel ≥ enough, (mapHandoffRangeLoop pml4 physical size fuel loader).value =
      Prod.map some id (mapHandoffRange pml4 physical size loader) := by
  have last : add64 physical size = physical + size := by
    unfold pageSize at below
    exact add64_eq (by omega)
  refine ⟨(handoffPages (physical &&& pageMask) (physical + size)).length + 1, fun fuel enough => ?_⟩
  have ordered : ¬ physical + size < physical := by omega
  simp only [mapHandoffRangeLoop, mapHandoffRange, last, if_neg ordered]
  exact (handoffLoop_spec below fuel _ loader).2.2 enough

/-- The loop ends for every state of the tables and the firmware. It visits pages in increasing
order, each at most once, and unless it returns an error it visits the page of every byte. -/
structure VisitsRange (physical size : Nat) : Prop where
  ends : ∀ pml4 loader, ∃ enough, ∀ fuel ≥ enough,
    (mapHandoffRangeLoop pml4 physical size fuel loader).value.1 ≠ none
  ordered : ∀ pml4 loader fuel,
    (mapHandoffRangeLoop pml4 physical size fuel loader).events.Pairwise (· < ·)
  complete : ∀ pml4 loader fuel,
    (mapHandoffRangeLoop pml4 physical size fuel loader).value.1 = some .success →
    ∀ address, physical ≤ address → address < physical + size →
      address / pageSize * pageSize ∈ (mapHandoffRangeLoop pml4 physical size fuel loader).events

/-- A range that ends below the last page is visited page by page. -/
theorem visitsRange_of_le {physical size : Nat} (below : physical + size ≤ 2 ^ 64 - pageSize) :
    VisitsRange physical size := by
  have last : add64 physical size = physical + size := by
    unfold pageSize at below
    exact add64_eq (by omega)
  have ordered : ¬ physical + size < physical := by omega
  have run (pml4 fuel : Nat) (loader : Loader) : mapHandoffRangeLoop pml4 physical size fuel loader =
      handoffLoop pml4 (physical + size) fuel (physical &&& pageMask) loader := by
    simp only [mapHandoffRangeLoop, last, if_neg ordered]
  constructor
  · intro pml4 loader
    obtain ⟨enough, result⟩ := mapHandoffRangeLoop_eq below pml4 loader
    refine ⟨enough, fun fuel more => ?_⟩
    rw [result fuel more]
    exact Option.some_ne_none _
  · intro pml4 loader fuel
    rw [run]
    exact (handoffPages_ordered _ _).sublist (handoffLoop_spec below fuel _ loader).1.sublist
  · intro pml4 loader fuel success address lower upper
    rw [run] at success ⊢
    rw [(handoffLoop_spec below fuel _ loader).2.1 success]
    exact handoffPages_covers (below.trans (Nat.sub_le _ _)) lower upper

/-- An end beyond `2 ^ 64` is refused. -/
theorem visitsRange_of_ge {physical size : Nat} (sizeFits : size < 2 ^ 64)
    (beyond : 2 ^ 64 ≤ physical + size) (fits : physical < 2 ^ 64) : VisitsRange physical size := by
  have wrapped : add64 physical size < physical := by
    unfold add64
    omega
  have run (pml4 fuel : Nat) (loader : Loader) :
      mapHandoffRangeLoop pml4 physical size fuel loader = pure (some .invalidParameter, loader) := by
    simp only [mapHandoffRangeLoop, if_pos wrapped]
  constructor
  · intro pml4 loader
    refine ⟨0, fun fuel _ => ?_⟩
    rw [run]
    exact Option.some_ne_none _
  · intro pml4 loader fuel
    rw [run]
    exact List.Pairwise.nil
  · intro pml4 loader fuel success
    rw [run] at success
    cases success

/-- Every entry is present, so that no page has to be allocated. -/
def Loader.Full (loader : Loader) : Prop := ∀ table index, loader.frames table index &&& ptePresent ≠ 0

/-- Storing a present entry keeps the tables full. -/
theorem Loader.Full.store {loader : Loader} (full : loader.Full) (table : Nat) (index : Fin 512)
    {entry : Nat} (shown : entry &&& ptePresent ≠ 0) : (loader.store table index entry).Full := by
  intro frame position
  change RadixTree.write loader.frames table index entry frame position &&& ptePresent ≠ 0
  by_cases here : frame = table
  · by_cases same : position = index
    · rw [here, same, RadixTree.write_self]
      exact shown
    · rw [here, RadixTree.write_of_ne_index _ _ same]
      exact full table position
  · rw [RadixTree.write_of_ne_frame _ here]
    exact full frame position

/-- The entry of a table is present. -/
theorem tableEntry_shown (phys : Nat) : tableEntry phys &&& ptePresent ≠ 0 := by
  intro absent
  have named := present_tableEntry phys
  rw [present, if_pos absent] at named
  cases named

/-- With full tables a page is mapped. -/
theorem mapHandoffPage_full (pml4 physical : Nat) {loader : Loader} (full : loader.Full) :
    (mapHandoffPage pml4 physical loader).1 = .success ∧ (mapHandoffPage pml4 physical loader).2.Full := by
  have level (table : Nat) (index : Fin 512) : handoffTable table index loader =
      (some (loader.frames table index &&& pteAddrMask), loader) := by
    rw [handoffTable, if_neg (full table index)]
  simp only [mapHandoffPage, level, true_and]
  exact full.store _ _ (tableEntry_shown physical)

/-- When the end lies in the last page, the variable wraps and the loop goes on. -/
theorem handoffLoop_endless {pml4 last : Nat} (high : 2 ^ 64 - pageSize < last) (fuel : Nat)
    {page : Nat} (aligned : page % pageSize = 0) (fits : page < 2 ^ 64) {loader : Loader}
    (full : loader.Full) : (handoffLoop pml4 last fuel page loader).value.1 = none := by
  induction fuel generalizing page loader with
  | zero => rfl
  | succ fuel ih =>
      have more : page < last := by
        unfold pageSize at high aligned
        omega
      have nextAligned : add64 page pageSize % pageSize = 0 := by
        unfold add64 pageSize at *
        omega
      by_cases small : page < handoffIdentitySize
      · rw [handoffLoop, if_pos more, if_pos small]
        exact ih nextAligned (add64_lt _ _) full
      · obtain ⟨success, after⟩ := mapHandoffPage_full pml4 page full
        rw [handoffLoop, if_pos more, if_neg small]
        rcases mapped : mapHandoffPage pml4 page loader with ⟨status, next⟩
        rw [mapped] at success after
        cases success
        exact ih nextAligned (add64_lt _ _) after

/-- `map_handoff_range` terminates exactly when the range does not end in the last page of the address
space, or ends so far beyond it that its end is smaller than its start. -/
theorem visitsRange_iff (physical size : BitVec 64) :
    VisitsRange physical.toNat size.toNat ↔
      physical.toNat + size.toNat ≤ 2 ^ 64 - 4096 ∨ 2 ^ 64 ≤ physical.toNat + size.toNat := by
  constructor
  · intro visits
    by_contra within
    rw [not_or, not_le, not_le] at within
    have shown : ptePresent &&& ptePresent ≠ 0 := by decide
    have full : Loader.Full ⟨fun _ _ => ptePresent, []⟩ := fun _ _ => shown
    obtain ⟨enough, ends⟩ := visits.ends 0 ⟨fun _ _ => ptePresent, []⟩
    have last : add64 physical.toNat size.toNat = physical.toNat + size.toNat := add64_eq within.2
    have ordered : ¬ physical.toNat + size.toNat < physical.toNat := by omega
    apply ends enough le_rfl
    simp only [mapHandoffRangeLoop, last, if_neg ordered]
    have start := pageMask_low physical.isLt
    have fits := physical.isLt
    apply handoffLoop_endless within.1 enough _ _ full
    · rw [start]
      exact Nat.mul_mod_left _ _
    · rw [start]
      exact (Nat.div_mul_le_self _ _).trans_lt fits
  · rintro (below | beyond)
    · exact visitsRange_of_le below
    · exact visitsRange_of_ge size.isLt beyond physical.isLt

/-- With three pages for tables, a byte in the last page is mapped, and then page 0 is visited. -/
theorem visitsRange_fails : ¬ ∀ physical size : BitVec 64, VisitsRange physical.toNat size.toNat := by
  intro visits
  have ordered := (visits (2 ^ 64 - 4096) 1).ordered 0x1000
    ⟨fun _ _ => 0, [some 0x2000, some 0x3000, some 0x4000]⟩ 2
  have events : (mapHandoffRangeLoop 0x1000 (2 ^ 64 - 4096 : BitVec 64).toNat (1 : BitVec 64).toNat 2
      ⟨fun _ _ => 0, [some 0x2000, some 0x3000, some 0x4000]⟩).events = [2 ^ 64 - 4096, 0] := by
    decide +kernel
  rw [events] at ordered
  exact absurd ordered (by decide)

end ArchaOS.Handoff
