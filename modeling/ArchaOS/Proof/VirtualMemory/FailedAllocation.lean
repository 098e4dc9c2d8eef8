import ArchaOS.Proof.VirtualMemory.HeapExhaustion

namespace ArchaOS.VirtualMemory

open Library PhysicalMemory RadixTree

/-- The page is a table now that was none before. -/
def NewTable (before after : Vmm) (page : Nat) : Prop :=
  IsTable after (after.cr3 &&& pteAddrMask) (page * pageSize) ∧
    ¬ IsTable before (before.cr3 &&& pteAddrMask) (page * pageSize)

namespace Passthru

/-- `palloc` leaves no more pages free. -/
theorem palloc_fewer {pmm : Pmm} (ready : Ready pmm) : (palloc pmm).2.freePages ≤ pmm.freePages := by
  rcases palloc_cases ready with ⟨page, inside, free, _, taken⟩ | ⟨_, failed⟩
  · have fewer := markUsed_freePages ready inside free
    rw [taken]
    dsimp only
    omega
  · rw [failed]

/-- A call keeps the pages counted and the end of the heap. -/
theorem counted_kept (start : Nat) : Kept fun vmm => Ready vmm.pmm ∧ vmm.nextVirt = start :=
  ⟨fun _ _ _ _ => id, fun _ _ => id, fun _ => And.imp_left Ready.palloc⟩

/-- Every turn of `vallocs` takes a page. -/
theorem vallocsFrom_takes {zero : Bool} {start pml4 remaining : Nat} :
    ∀ {turn : Nat} {vmm after : Vmm}, Ready vmm.pmm →
      Passthru.vallocsFrom zero start pml4 remaining turn vmm = .ok (true, after) →
      after.pmm.freePages + remaining ≤ vmm.pmm.freePages := by
  induction remaining with
  | zero =>
      intro turn vmm after _ result
      obtain ⟨_, rfl⟩ := Prod.mk.inj (Except.ok.inj result)
      exact le_rfl
  | succ remaining ih =>
      intro turn vmm after ready result
      rw [Passthru.vallocsFrom] at result
      dsimp only at result
      split at result
      · obtain ⟨freed, _, same⟩ := bind_eq_ok.mp result
        cases (Prod.mk.inj (Except.ok.inj same)).1
      · rename_i success
        obtain ⟨page, inside, free, taken⟩ := palloc_taken success
        have left := markUsed_freePages ready inside free
        rw [taken, bind_eq_ok] at result
        obtain ⟨mapped, mapping, result⟩ := result
        have fewer : Kept fun vmm' => Ready vmm'.pmm ∧ vmm'.pmm.freePages + 1 ≤ vmm.pmm.freePages :=
          ⟨fun _ _ _ _ => id, fun _ _ => id, fun _ held =>
            ⟨held.1.palloc, (Nat.add_le_add_right (palloc_fewer held.1) 1).trans held.2⟩⟩
        have held := fewer.mapPage mapping ⟨ready.markUsed page, by dsimp only; omega⟩
        split at result
        · obtain ⟨cleared, clearing, looped⟩ := bind_eq_ok.mp result
          have held' := fewer.memsetPage clearing held
          have count := ih held'.1 looped
          omega
        · have count := ih held.1 result
          omega

end Passthru

/-- An allocation that the free pages suffice for does not wrap around the address space, and a freed
range consists of harmless pages. -/
def Session.Upward (session : Session) : Request → Prop
  | .vallocs _ count => count ≤ session.vmm.pmm.freePages →
      session.vmm.nextVirt + count * pageSize < 2 ^ 64
  | .vfrees virtAddr count => ∀ i < count, session.vmm.Harmless (add64 virtAddr (mul64 i pageSize))

/-- A call keeps the pages counted, and does not lower the end of the heap. -/
theorem Session.Upward.rises {session : Session} {request : Request} (upward : session.Upward request)
    (ready : Ready session.vmm.pmm) : Ready (Passthru.step session request).vmm.pmm ∧
      session.vmm.nextVirt ≤ (Passthru.step session request).vmm.nextVirt := by
  have kept := Passthru.counted_kept session.vmm.nextVirt
  have free (vmm : Vmm) (phys : Nat) (held : Ready vmm.pmm ∧ vmm.nextVirt = session.vmm.nextVirt) :
      Ready (pfree phys vmm.pmm) ∧ vmm.nextVirt = session.vmm.nextVirt :=
    ⟨held.1.markFree _, held.2⟩
  cases request with
  | vfrees virtAddr n =>
      cases result : Passthru.vfrees virtAddr n session.vmm with
      | error stop => simp only [Passthru.step, result, ready, le_refl, and_self]
      | ok after =>
          obtain ⟨ready', start⟩ := kept.vfrees free result ⟨ready, rfl⟩
          simp only [Passthru.step, result]
          exact ⟨ready', start.ge⟩
  | vallocs zero n =>
      cases result : Passthru.vallocs zero n session.vmm with
      | error stop => simp only [Passthru.step, result, ready, le_refl, and_self]
      | ok answer =>
          simp only [Passthru.step, result]
          unfold Passthru.vallocs at result
          split at result
          · obtain rfl := Except.ok.inj result
            exact ⟨ready, le_rfl⟩
          · obtain ⟨⟨done, after⟩, looped, same⟩ := bind_eq_ok.mp result
            obtain ⟨ready', start⟩ := kept.vallocsFrom free looped ⟨ready, rfl⟩
            cases done with
            | true =>
                obtain rfl := Except.ok.inj same
                have fewer := Passthru.vallocsFrom_takes ready looped
                have room := upward (by omega)
                refine ⟨ready', ?_⟩
                dsimp only at start ⊢
                rw [start]
                unfold add64 mul64 pageSize at *
                omega
            | false =>
                obtain rfl := Except.ok.inj same
                exact ⟨ready', start.ge⟩

/-- A call of `vallocs` runs out of pages at one of its turns, and no turn before it panics. -/
def Refused (zero : Bool) (count : Nat) (vmm : Vmm) : Prop :=
  ∃ turns < count, ∃ middle,
    Passthru.vallocsFrom zero vmm.nextVirt (vmm.cr3 &&& pteAddrMask) turns 0 vmm = .ok (true, middle) ∧
      (palloc middle.pmm).1 = 0

/-- The turns of a call that reaches its frames access their tables directly. -/
theorem vallocsFrom_reaches {zero : Bool} {count turns : Nat} {vmm : Vmm}
    (valid : Tables (vmm.cr3 &&& pteAddrMask) vmm)
    (reaches : Passthru.Reaches vmm (.vallocs zero count)) (fewer : turns < count) :
    Passthru.vallocsFrom zero vmm.nextVirt (vmm.cr3 &&& pteAddrMask) turns 0 vmm =
      vallocsFrom zero vmm.nextVirt (vmm.cr3 &&& pteAddrMask) turns 0 vmm :=
  vallocsFrom_eq valid rfl fun earlier below => reaches earlier (below.trans fewer)

/-- Nothing but new tables remains of a call. -/
structure TracelessButTables (before after : Vmm) : Prop where
  nextVirt : after.nextVirt = before.nextVirt
  translations : ∀ address, translate after address = translate before address
  used : ∀ page, pageUsed after.pmm page = true ↔
    pageUsed before.pmm page = true ∨ NewTable before after page

/-- The loop of `vallocs` stops at the turn that finds no page. -/
theorem vallocsFrom_refused {zero : Bool} {start pml4 turns : Nat} {middle : Vmm}
    (refused : (palloc middle.pmm).1 = 0) :
    ∀ {turn remaining : Nat} {vmm : Vmm}, turns < remaining →
      vallocsFrom zero start pml4 turns turn vmm = .ok (true, middle) →
      ∃ after, vallocsFrom zero start pml4 remaining turn vmm = .ok (false, after) := by
  induction turns with
  | zero =>
      intro turn remaining vmm more result
      obtain ⟨rest, rfl⟩ : ∃ rest, remaining = rest + 1 := ⟨remaining - 1, by omega⟩
      obtain ⟨_, rfl⟩ := Prod.mk.inj (Except.ok.inj result)
      rw [vallocsFrom, if_pos refused]
      exact ⟨_, rfl⟩
  | succ turns ih =>
      intro turn remaining vmm more result
      obtain ⟨rest, rfl⟩ : ∃ rest, remaining = rest + 1 := ⟨remaining - 1, by omega⟩
      rw [vallocsFrom] at result ⊢
      dsimp only at result ⊢
      split at result
      · cases (Prod.mk.inj (Except.ok.inj result)).1
      · rename_i found
        rw [if_neg found]
        have shorter : turns < rest := by omega
        cases zero with
        | false =>
            simp only [Bool.false_eq_true, if_false, bind_eq_ok] at result ⊢
            obtain ⟨mapped, mapping, cleared, clearing, result⟩ := result
            obtain ⟨after, later⟩ := ih shorter result
            exact ⟨after, mapped, mapping, cleared, clearing, later⟩
        | true =>
            simp only [if_true, bind_eq_ok] at result ⊢
            obtain ⟨mapped, mapping, cleared, clearing, result⟩ := result
            obtain ⟨after, later⟩ := ih shorter result
            exact ⟨after, mapped, mapping, cleared, clearing, later⟩

/-- The pages in use after a failing allocation. -/
theorem Extended.used_iff {pml4 count low middle high : Nat} {first vmm after : Vmm} {done : Bool}
    (extended : Extended pml4 first count 0 vmm after) (owned : Owned pml4 first count vmm)
    (confined : Confined pml4 low middle high done vmm after) (page : Nat) :
    pageUsed after.pmm page = true ↔ pageUsed vmm.pmm page = true ∨
      IsTable after pml4 (page * pageSize) ∧ ¬ IsTable vmm pml4 (page * pageSize) := by
  have owned' := extended.owned
  have table_used {state : Vmm} (tables : Tables pml4 state)
      (table : IsTable state pml4 (page * pageSize)) : pageUsed state.pmm page = true := by
    have used := tables.used _ table
    rwa [page_quotient] at used
  have mapped_used {state : Vmm} (owned : Owned pml4 first count state) {index : Nat}
      (low : index < count) (found : lookup state pml4 (slot index) = some (page * pageSize)) :
      pageUsed state.pmm page = true := by
    obtain ⟨other, same, _, used, _⟩ := owned.mapped index low _ found
    rwa [← pages_inj same] at used
  cases start : pageUsed first.pmm page with
  | true => simp [owned.used page start, owned'.used page start]
  | false =>
      constructor
      · intro used
        rcases owned'.held page start with free | table | ⟨index, low, found⟩
        · rw [free] at used
          cases used
        · by_cases old : IsTable vmm pml4 (page * pageSize)
          · exact Or.inl (table_used owned.tables old)
          · exact Or.inr ⟨table, old⟩
        · rw [extended.kept index low] at found
          exact Or.inl (mapped_used owned low found)
      · rintro (used | ⟨table, _⟩)
        · rcases owned.held page start with free | table | ⟨index, low, found⟩
          · rw [free] at used
            cases used
          · exact table_used owned'.tables (confined.tables _ table)
          · rw [← extended.kept index low] at found
            exact mapped_used owned' low found
        · exact table_used owned'.tables table

/-- The heap and the unmapped pages behind it. -/
structure Vacant (pml4 : Nat) (first : Vmm) (count : Nat) (vmm : Vmm) : Prop where
  standing : Standing pml4 first count vmm
  fresh : Fresh pml4 count vmm

/-- A run of the loop of `vallocs` keeps the pages behind the heap unmapped. -/
theorem Fresh.looped {pml4 count n turns : Nat} {done : Bool} {first vmm after : Vmm}
    (fresh : Fresh pml4 count vmm) (looped : Looped pml4 first count 0 n turns done vmm after)
    (room : count + turns < 2 ^ 36) : Fresh pml4 (if done then count + n else count) after := by
  intro index above low
  have vacant : count ≤ index := by
    refine le_trans ?_ above
    split
    · exact Nat.le_add_right _ _
    · exact le_rfl
  rcases looped.confined.lookups (slot index) with same | ⟨other, _, below, same, absent⟩
  · rw [same]
    exact fresh index vacant low
  · cases done with
    | false => exact absent rfl
    | true =>
        have all := looped.all rfl
        have equal := slot_inj (low.trans (by decide)) (below.trans_le room.le) same
        rw [if_pos rfl] at above
        omega

section Steps

variable {pml4 count : Nat} {first : Vmm} {session : Session} (booted : Booted pml4 first)
  (vacant : Vacant pml4 first count session.vmm)
include booted vacant

/-- A call that reaches its tables accesses them directly. -/
theorem Vacant.step_eq {request : Request} (reaches : Passthru.Reaches session.vmm request) :
    Passthru.step session request = session.step request := by
  have root := vacant.standing.root booted
  exact passthruStep_eq (root.symm ▸ vacant.standing.owned.tables) reaches

/-- An allocation keeps the pages behind the heap unmapped, or the heap leaves its window. -/
theorem Vacant.vallocs {zero : Bool} {n : Nat} (upward : session.Upward (.vallocs zero n))
    (reaches : Passthru.Reaches session.vmm (.vallocs zero n)) :
    (∃ count', Vacant pml4 first count' (Passthru.step session (.vallocs zero n)).vmm) ∨
      passthruBase < (Passthru.step session (.vallocs zero n)).vmm.nextVirt := by
  have standing := vacant.standing
  have window := standing.inside
  have limit := standing.nextVirt
  have free := standing.few_free booted
  have small : count < 2 ^ 35 := by
    unfold kheapBase pageSize passthruBase at window
    omega
  have rises := (upward.rises standing.owned.ready).2
  rw [vacant.step_eq booted reaches] at rises ⊢
  rcases standing.vallocs_cases booted zero n with idle | ⟨turns, middle, looped, stepped⟩ |
    ⟨middle, looped, stepped⟩
  · rw [idle]
    exact Or.inl ⟨count, vacant⟩
  · rw [stepped]
    have few := looped.pages
    exact Or.inl ⟨count, standing.refused looped.refused, vacant.fresh.looped looped (by omega)⟩
  · have few := looped.pages
    have fresh := vacant.fresh.looped looped (by omega)
    rw [stepped] at rises ⊢
    have next : add64 session.vmm.nextVirt (mul64 n pageSize) =
        kheapBase + (count + n) * pageSize := by
      dsimp only at rises
      rw [limit] at rises ⊢
      unfold add64 mul64 kheapBase pageSize passthruBase at *
      omega
    rcases le_or_gt (kheapBase + (count + n) * pageSize) passthruBase with inside | outside
    · exact Or.inl ⟨count + n, standing.granted looped.granted.1 next inside, fresh⟩
    · apply Or.inr
      dsimp only
      rw [next]
      exact outside

/-- Freeing harmless pages keeps the pages behind the heap unmapped. -/
theorem Vacant.vfrees {virtAddr n : Nat} (upward : session.Upward (.vfrees virtAddr n))
    (reaches : Passthru.Reaches session.vmm (.vfrees virtAddr n)) :
    Vacant pml4 first count (Passthru.step session (.vfrees virtAddr n)).vmm := by
  have standing := vacant.standing
  have spared := standing.vfrees_spared booted upward
  rw [vacant.step_eq booted reaches]
  exact ⟨⟨spared.owned, spared.cr3.trans standing.cr3, spared.nextVirt.trans standing.nextVirt,
    standing.inside⟩, fun index vacant' low => spared.stays _ (vacant.fresh index vacant' low)⟩

/-- A call of `vallocs` that runs out of pages leaves nothing but new tables. -/
theorem Vacant.refused {zero : Bool} {n : Nat}
    (room : session.vmm.nextVirt + n * pageSize ≤ passthruBase)
    (reaches : Passthru.Reaches session.vmm (.vallocs zero n)) (refused : Refused zero n session.vmm) :
    ∃ after, Passthru.vallocs zero n session.vmm = .ok (0, after) ∧
      TracelessButTables session.vmm after := by
  have standing := vacant.standing
  have limit := standing.nextVirt
  have root := standing.root booted
  have valid : Tables (session.vmm.cr3 &&& pteAddrMask) session.vmm := root.symm ▸ standing.owned.tables
  obtain ⟨turns, fewer, middle, loop, full⟩ := refused
  rw [vallocsFrom_reaches valid reaches fewer] at loop
  obtain ⟨after, stopped⟩ := vallocsFrom_refused full fewer loop
  have positive : n ≠ 0 := by omega
  have result : VirtualMemory.vallocs zero n session.vmm = .ok (0, after) := by
    rw [VirtualMemory.vallocs, if_neg positive]
    dsimp only
    rw [stopped]
    rfl
  refine ⟨after, (vallocs_eq valid reaches).trans result, ?_⟩
  obtain ⟨done, taken, _, _, looped, same⟩ := standing.loop booted positive result
  cases done with
  | true =>
      have zero := (Prod.mk.inj same).1
      rw [limit] at zero
      unfold kheapBase at zero
      omega
  | false =>
      obtain rfl := (Prod.mk.inj same).2
      have extended := looped.refused
      have top : after.cr3 &&& pteAddrMask = pml4 := by
        rw [extended.cr3, root]
      refine ⟨extended.nextVirt, fun address => ?_, fun page => ?_⟩
      · refine translate_congr extended.cr3 ?_
        rw [root]
        rcases looped.confined.lookups address with same | ⟨index, above, below, same, absent⟩
        · exact same
        · have low : index < windowPages := by
            have fewer := looped.few
            rw [limit] at room
            unfold windowPages
            unfold kheapBase pageSize passthruBase at *
            omega
          rw [absent rfl, lookup_congr session.vmm pml4 same]
          exact (vacant.fresh index (by omega) low).symm
      · rw [NewTable, top, root]
        exact extended.used_iff standing.owned looped.confined page

end Steps

/-- One gigabyte has few free pages. -/
theorem oneGigabyte_few {first : Vmm} (result : initMemory oneGigabyte.toMachine (fun _ => 0#8)
    (fun _ _ => 0) 0 blankPmm = .ok first) : first.pmm.freePages ≤ 2 ^ 18 + 512 := by
  obtain ⟨pml4, _, last, _, _, _, rfl, top, booted⟩ :=
    initMemory_spec (show initMemory oneGigabyte.toLoadedMachine.toMachine _ _ _ _ = _ from result)
  have bound := PackedBits.clearBelow_card_le last.pmm.bitmap last.pmm.maxPages
  rw [← booted.ready.counted.freePages] at bound
  refine bound.trans ?_
  have limit : last.pmm.maxPages = last.pmm.maxPhysicalAddress / pageSize := booted.ready.maxPages
  rw [limit, top, oneGigabyte_top]
  decide

/-- A call inside the heap is a call that the heap allows. -/
theorem Standing.upward {pml4 count : Nat} {first : Vmm} {session : Session}
    (standing : Standing pml4 first count session.vmm) {request : Request}
    (bounded : session.Bounded request) : session.Upward request := by
  cases request with
  | vfrees virtAddr n => exact standing.staysInside bounded
  | vallocs zero n => exact fun _ => lt_of_le_of_lt bounded (by decide)

end ArchaOS.VirtualMemory
