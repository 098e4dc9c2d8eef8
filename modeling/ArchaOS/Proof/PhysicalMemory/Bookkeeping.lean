import ArchaOS.Library.Runs
import ArchaOS.Proof.PhysicalMemory.Init

namespace ArchaOS.PhysicalMemory

open Library

/-- The firmware aligns the start of every range to a page. -/
structure UefiMap extends MemoryMap where
  aligned : ∀ index, (descriptor index).physicalStart % pageSize = 0

/-- The calls that clients make on an initialised manager. -/
inductive Request where
  | palloc
  | reserveRegion (base length : Nat)
  | pfree (address : Nat)

/-- A session records the addresses that clients hold. -/
structure Session where
  pmm : Pmm
  live : List Nat

def Session.step (session : Session) : Request → Session
  | .palloc =>
      let result := PhysicalMemory.palloc session.pmm
      ⟨result.2, if result.1 = 0 then session.live else result.1 :: session.live⟩
  | .reserveRegion base length => ⟨PhysicalMemory.reserveRegion base length session.pmm, session.live⟩
  | .pfree address => ⟨PhysicalMemory.pfree address session.pmm, session.live.erase address⟩

/-- A client frees only an address that it holds. -/
def Session.Legal (session : Session) : Request → Prop
  | .pfree address => address ∈ session.live
  | _ => True

instance (session : Session) (request : Request) : Decidable (session.Legal request) :=
  match request with
  | .palloc => .isTrue trivial
  | .reserveRegion _ _ => .isTrue trivial
  | .pfree address => inferInstanceAs (Decidable (address ∈ session.live))

/-- Some byte of the bitmap lies on this page. -/
def HoldsBitmap (pmm : Pmm) (page : Nat) : Prop :=
  ∃ byte, pmm.bitmapAddr ≤ byte ∧ byte < pmm.bitmapAddr + pmm.sizeofBitmap ∧ byte / pageSize = page

/-- The counter, the padding, the reserved pages and the held addresses are in order. -/
structure Bookkeeping (session : Session) : Prop where
  freePages : session.pmm.freePages =
    ((Finset.range session.pmm.maxPages).filter fun page =>
      PackedBits.isSet session.pmm.bitmap page = false).card
  padding : ∀ page, session.pmm.maxPages ≤ page → page < 8 * session.pmm.sizeofBitmap →
    PackedBits.isSet session.pmm.bitmap page = true
  zero : pageUsed session.pmm 0 = true
  bitmap : ∀ page, HoldsBitmap session.pmm page → pageUsed session.pmm page = true
  distinct : session.live.Nodup
  live : ∀ address ∈ session.live, address ≠ 0 ∧ address % pageSize = 0 ∧
    address < session.pmm.maxPhysicalAddress ∧
    PackedBits.isSet session.pmm.bitmap (address / pageSize) = true
  fresh : ∀ address, (palloc session.pmm).1 = address → address ≠ 0 →
    address ∉ session.live ∧ address / pageSize ≠ 0 ∧
      ¬ HoldsBitmap session.pmm (address / pageSize)

/-- Clients hold distinct used pages outside page zero and the bitmap. -/
structure Invariant (session : Session) : Prop where
  ready : Ready session.pmm
  zero : pageUsed session.pmm 0 = true
  bitmap : ∀ page, HoldsBitmap session.pmm page → pageUsed session.pmm page = true
  distinct : session.live.Nodup
  live : ∀ address ∈ session.live, ∃ page, address = page * pageSize ∧ 0 < page ∧
    page < session.pmm.maxPages ∧ pageUsed session.pmm page = true ∧ ¬ HoldsBitmap session.pmm page

/-- The bitmap lies in the same pages of the same layout. -/
theorem HoldsBitmap.of_layout {first second : Pmm} (layout : SameLayout first second) (page : Nat) :
    HoldsBitmap first page ↔ HoldsBitmap second page := by
  unfold HoldsBitmap
  rw [layout.bitmapAddr, layout.sizeofBitmap]

/-- Marking more pages used keeps the invariant. -/
theorem Invariant.grow {session : Session} {pmm : Pmm} (invariant : Invariant session)
    (layout : SameLayout pmm session.pmm) (ready : Ready pmm)
    (grows : ∀ page, pageUsed session.pmm page = true → pageUsed pmm page = true) :
    Invariant ⟨pmm, session.live⟩ where
  ready := ready
  zero := grows 0 invariant.zero
  bitmap := fun page holds =>
    grows page (invariant.bitmap page ((HoldsBitmap.of_layout layout page).mp holds))
  distinct := invariant.distinct
  live := by
    intro address member
    obtain ⟨page, same, positive, inside, used, outside⟩ := invariant.live address member
    refine ⟨page, same, positive, ?_, grows page used, ?_⟩
    · rw [layout.maxPages]
      exact inside
    · exact fun holds => outside ((HoldsBitmap.of_layout layout page).mp holds)

/-- A free page differs from page zero, from the bitmap and from every held page. -/
theorem Invariant.free_page {session : Session} (invariant : Invariant session) {page : Nat}
    (free : pageUsed session.pmm page = false) :
    0 < page ∧ ¬ HoldsBitmap session.pmm page ∧ page * pageSize ∉ session.live := by
  refine ⟨?_, ?_, ?_⟩
  · by_contra zero
    have same : page = 0 := by omega
    rw [same, invariant.zero] at free
    cases free
  · intro holds
    rw [invariant.bitmap page holds] at free
    cases free
  · intro member
    obtain ⟨other, same, _, _, used, _⟩ := invariant.live _ member
    have equal : page = other := Nat.eq_of_mul_eq_mul_right (by decide) same
    rw [equal, used] at free
    cases free

/-- `palloc` keeps the invariant. -/
theorem Invariant.palloc {session : Session} (invariant : Invariant session) :
    Invariant (session.step .palloc) := by
  have next := invariant.ready.palloc
  rcases palloc_cases invariant.ready with ⟨page, inside, free, _, result⟩ | ⟨_, result⟩
  · obtain ⟨positive, outside, fresh⟩ := invariant.free_page free
    have nonzero : page * pageSize ≠ 0 := Nat.mul_ne_zero (by omega) (by decide)
    have layout := markUsed_layout session.pmm page
    have ready := invariant.ready.markUsed page
    have grown := invariant.grow layout ready fun other used => by
      rw [pageUsed_markUsed, used, Bool.or_true]
    have stepped : session.step .palloc =
        ⟨markUsed session.pmm page, page * pageSize :: session.live⟩ := by
      simp [Session.step, result, nonzero]
    rw [stepped]
    refine ⟨grown.ready, grown.zero, grown.bitmap, ?_, ?_⟩
    · exact List.nodup_cons.mpr ⟨fresh, invariant.distinct⟩
    · intro address member
      rcases List.mem_cons.mp member with rfl | old
      · refine ⟨page, rfl, positive, ?_, ?_, ?_⟩
        · rw [layout.maxPages]
          exact inside
        · simp [pageUsed_markUsed]
        · exact fun holds => outside ((HoldsBitmap.of_layout layout page).mp holds)
      · exact grown.live address old
  · have stepped : session.step .palloc = session := by
      simp [Session.step, result]
    rw [stepped]
    exact invariant

/-- `reserve_region` keeps the invariant. -/
theorem Invariant.reserveRegion {session : Session} (invariant : Invariant session)
    (base length : Nat) : Invariant (session.step (.reserveRegion base length)) := by
  change Invariant ⟨PhysicalMemory.reserveRegion base length session.pmm, session.live⟩
  rw [reserveRegion_eq]
  obtain ⟨layout, counted, used⟩ := markUsed_loop ((List.range
    (add64 length (pageSize - 1) / pageSize)).map fun i => add64 (base / pageSize) i) session.pmm
  apply invariant.grow layout
  · exact invariant.ready.of_layout layout (counted invariant.ready.counted)
  · intro page present
    rw [used page, present, Bool.or_true]

/-- `pfree` of a live page keeps the invariant. -/
theorem Invariant.pfree {session : Session} (invariant : Invariant session) {address : Nat}
    (held : address ∈ session.live) : Invariant (session.step (.pfree address)) := by
  obtain ⟨page, rfl, positive, inside, used, outside⟩ := invariant.live address held
  have quotient : page * pageSize / pageSize = page := Nat.mul_div_cancel page (by decide)
  have layout := markFree_layout session.pmm page
  have keeps (other : Nat) (different : other ≠ page) :
      pageUsed (markFree session.pmm page) other = pageUsed session.pmm other := by
    simp [pageUsed_markFree, different]
  have stepped : session.step (.pfree (page * pageSize)) =
      ⟨markFree session.pmm page, session.live.erase (page * pageSize)⟩ := by
    simp [Session.step, PhysicalMemory.pfree, quotient]
  rw [stepped]
  refine ⟨invariant.ready.markFree page, ?_, ?_, invariant.distinct.erase _, ?_⟩
  · change pageUsed (markFree session.pmm page) 0 = true
    rw [keeps 0 (by omega)]
    exact invariant.zero
  · intro other holds
    have held' := (HoldsBitmap.of_layout layout other).mp holds
    have different : other ≠ page := fun same => outside (same ▸ held')
    change pageUsed (markFree session.pmm page) other = true
    rw [keeps other different]
    exact invariant.bitmap other held'
  · intro other member
    obtain ⟨unequal, old⟩ := invariant.distinct.mem_erase_iff.mp member
    obtain ⟨target, rfl, above, below, present, clear⟩ := invariant.live other old
    have different : target ≠ page := fun same => unequal (by rw [same])
    refine ⟨target, rfl, above, ?_, ?_, ?_⟩
    · rw [layout.maxPages]
      exact below
    · change pageUsed (markFree session.pmm page) target = true
      rw [keeps target different]
      exact present
    · exact fun holds => clear ((HoldsBitmap.of_layout layout target).mp holds)

/-- Every legal request keeps the invariant. -/
theorem Invariant.step (session : Session) (request : Request) (invariant : Invariant session)
    (legal : session.Legal request) : Invariant (session.step request) := by
  cases request with
  | palloc => exact invariant.palloc
  | reserveRegion base length => exact invariant.reserveRegion base length
  | pfree address => exact invariant.pfree legal

/-- An aligned bitmap lies on exactly the pages that `init_pmm` reserves for it. -/
theorem holdsBitmap_mem {pmm : Pmm} (aligned : pmm.bitmapAddr % pageSize = 0) {page : Nat}
    (holds : HoldsBitmap pmm page) : page ∈ bitmapPages pmm := by
  obtain ⟨byte, lower, upper, rfl⟩ := holds
  simp only [bitmapPages, List.mem_map, List.mem_range]
  unfold pageSize at aligned ⊢
  exact ⟨byte / 0x1000 - pmm.bitmapAddr / 0x1000, by omega, by omega⟩

/-- `init_pmm` leaves the invariant. -/
theorem invariant_initial {map : UefiMap} {pmm : Pmm} (initialised : Initialised map.toMemoryMap pmm) :
    Invariant ⟨pmm, []⟩ where
  ready := initialised.ready
  zero := by
    change PhysicalMemory.pageUsed pmm 0 = true
    simp [initialised.pageUsed 0]
  bitmap := by
    intro page holds
    obtain ⟨_, desc, member, _, _, address⟩ := initialised.bitmapAddr
    obtain ⟨index, _, rfl⟩ := List.mem_map.mp member
    have aligned : pmm.bitmapAddr % pageSize = 0 := by
      rw [address]
      exact map.aligned index
    have reserved := holdsBitmap_mem aligned holds
    change PhysicalMemory.pageUsed pmm page = true
    rw [initialised.pageUsed page, decide_eq_true reserved, Bool.true_or]
  distinct := List.nodup_nil
  live := by simp

/-- The invariant keeps the books. -/
theorem Invariant.bookkeeping {session : Session} (invariant : Invariant session) :
    Bookkeeping session where
  freePages := invariant.ready.counted.freePages
  padding := invariant.ready.counted.padding
  zero := invariant.zero
  bitmap := invariant.bitmap
  distinct := invariant.distinct
  live := by
    intro address member
    obtain ⟨page, rfl, positive, inside, used, _⟩ := invariant.live address member
    have limit := invariant.ready.maxPages
    have quotient : page * pageSize / pageSize = page := Nat.mul_div_cancel page (by decide)
    refine ⟨Nat.mul_ne_zero (by omega) (by decide), Nat.mul_mod_left page pageSize, ?_, ?_⟩
    · unfold pageSize at *
      omega
    · rw [quotient]
      simpa [pageUsed, not_le.mpr inside] using used
  fresh := by
    rintro address rfl nonzero
    rcases palloc_cases invariant.ready with ⟨page, _, free, _, result⟩ | ⟨_, result⟩
    · obtain ⟨positive, outside, fresh⟩ := invariant.free_page free
      have quotient : page * pageSize / pageSize = page := Nat.mul_div_cancel page (by decide)
      rw [result]
      dsimp only
      rw [quotient]
      exact ⟨fresh, by omega, outside⟩
    · rw [result] at nonzero
      exact absurd rfl nonzero

/-- After `init_pmm`, every state of every legal run keeps its books in order. -/
theorem bookkeeping_run (map : UefiMap) (old : PackedBits.Bytes) (start pmm : Pmm)
    (requests : List Request) (initialised : initPmm map.toMemoryMap old start = .ok pmm)
    (legal : Guarded Session.step Session.Legal ⟨pmm, []⟩ requests) :
    ∀ reached ∈ visited Session.step ⟨pmm, []⟩ requests, Bookkeeping reached := by
  intro reached member
  have invariant := visited_invariant Invariant.step
    (invariant_initial (initPmm_initialised initialised)) legal reached member
  exact invariant.bookkeeping

/-- One conventional range of four pages above the first page. -/
def fourPages : UefiMap where
  size := 48
  descriptorSize := 48
  descriptor := fun _ => ⟨efiConventionalMemory, 0x1000, 4⟩
  aligned := fun _ => rfl

def blankPmm : Pmm := ⟨0, 0, fun _ => 0#8, 0, false, 0, 0, 0, 0, 0, 0⟩

def fourPagesPmm : Pmm :=
  (initPmm fourPages.toMemoryMap (fun _ => 0#8) blankPmm).toOption.getD blankPmm

/-- Pages of a small machine are taken, reserved and freed. -/
theorem bookkeeping_run_fourPages :
    initPmm fourPages.toMemoryMap (fun _ => 0#8) blankPmm = .ok fourPagesPmm ∧
      Guarded Session.step Session.Legal ⟨fourPagesPmm, []⟩
        [.palloc, .reserveRegion 0x3000 1, .pfree 0x2000, .palloc] ∧
      ∀ reached ∈ visited Session.step ⟨fourPagesPmm, []⟩
        [.palloc, .reserveRegion 0x3000 1, .pfree 0x2000, .palloc], Bookkeeping reached := by
  have legal : Guarded Session.step Session.Legal ⟨fourPagesPmm, []⟩
      [.palloc, .reserveRegion 0x3000 1, .pfree 0x2000, .palloc] := by
    decide
  exact ⟨rfl, legal, bookkeeping_run fourPages (fun _ => 0#8) blankPmm fourPagesPmm _ rfl legal⟩

end ArchaOS.PhysicalMemory
