import ArchaOS.Proof.PhysicalMemory.InitialPages

namespace ArchaOS.PhysicalMemory

open Library

/-- Every page that is free or held was free when the session started. -/
structure Confined (first : Pmm) (session : Session) : Prop where
  invariant : Invariant session
  layout : SameLayout session.pmm first
  free : ∀ page, pageUsed session.pmm page = false → pageUsed first page = false
  live : ∀ address ∈ session.live, pageUsed first (address / pageSize) = false

section Steps

variable {first : Pmm} {session : Session} (confined : Confined first session)
include confined

/-- `palloc` hands out pages that were free at first. -/
theorem Confined.palloc : Confined first (session.step .palloc) := by
  have next := confined.invariant.palloc
  rcases palloc_cases confined.invariant.ready with ⟨page, _, free, _, result⟩ | ⟨_, result⟩
  · have nonzero : page * pageSize ≠ 0 :=
      Nat.mul_ne_zero (by have := (confined.invariant.free_page free).1; omega) (by decide)
    have stepped : session.step .palloc =
        ⟨markUsed session.pmm page, page * pageSize :: session.live⟩ := by
      simp [Session.step, result, nonzero]
    rw [stepped] at next ⊢
    refine ⟨next, (markUsed_layout session.pmm page).trans confined.layout, ?_, ?_⟩
    · intro other unused
      change pageUsed (markUsed session.pmm page) other = false at unused
      rw [pageUsed_markUsed, Bool.or_eq_false_iff] at unused
      exact confined.free other unused.2
    · intro address member
      rcases List.mem_cons.mp member with same | old
      · rw [same, Nat.mul_div_cancel page (by decide)]
        exact confined.free page free
      · exact confined.live address old
  · have stepped : session.step .palloc = session := by
      simp [Session.step, result]
    rw [stepped]
    exact confined

/-- `reserve_region` frees nothing. -/
theorem Confined.reserveRegion (base length : Nat) :
    Confined first (session.step (.reserveRegion base length)) := by
  have next := confined.invariant.reserveRegion base length
  change Invariant ⟨PhysicalMemory.reserveRegion base length session.pmm, session.live⟩ at next
  change Confined first ⟨PhysicalMemory.reserveRegion base length session.pmm, session.live⟩
  rw [reserveRegion_eq] at next ⊢
  obtain ⟨layout, _, used⟩ := markUsed_loop ((List.range
    (add64 length (pageSize - 1) / pageSize)).map fun i => add64 (base / pageSize) i) session.pmm
  refine ⟨next, layout.trans confined.layout, ?_, confined.live⟩
  intro page unused
  dsimp only at unused
  rw [used page, Bool.or_eq_false_iff] at unused
  exact confined.free page unused.2

/-- `pfree` of a live page frees a page that was free at first. -/
theorem Confined.pfree {address : Nat} (held : address ∈ session.live) :
    Confined first (session.step (.pfree address)) := by
  have next := confined.invariant.pfree held
  refine ⟨next, (markFree_layout session.pmm _).trans confined.layout, ?_, ?_⟩
  · intro page unused
    change pageUsed (markFree session.pmm (address / pageSize)) page = false at unused
    rw [pageUsed_markFree] at unused
    by_cases same : page = address / pageSize
    · rw [same]
      exact confined.live address held
    · rw [decide_eq_false (fun freed => same freed.1), Bool.not_false, Bool.and_true] at unused
      exact confined.free page unused
  · intro other member
    exact confined.live other (List.mem_of_mem_erase member)

end Steps

/-- A legal request keeps the session confined. -/
theorem Confined.step {first : Pmm} (session : Session) (request : Request)
    (confined : Confined first session) (legal : session.Legal request) :
    Confined first (session.step request) := by
  cases request with
  | palloc => exact confined.palloc
  | reserveRegion base length => exact confined.reserveRegion base length
  | pfree address => exact confined.pfree legal

/-- No legal run reaches a page that was not free at its start. -/
theorem confined_run {map : UefiMap} {pmm : Pmm} (initialised : Initialised map.toMemoryMap pmm)
    {requests : List Request} (legal : Guarded Session.step Session.Legal ⟨pmm, []⟩ requests) :
    ∀ reached ∈ visited Session.step ⟨pmm, []⟩ requests, Confined pmm reached := by
  refine visited_invariant Confined.step ?_ legal
  exact ⟨invariant_initial initialised, SameLayout.refl pmm, fun _ free => free, by simp⟩

/-- The byte lies in a conventional range of the map. -/
def MemoryMap.Conventional (map : MemoryMap) (byte : Nat) : Prop :=
  ∃ desc ∈ map.descriptors, desc.type = efiConventionalMemory ∧ desc.physicalStart ≤ byte ∧
    byte < desc.physicalStart + desc.numberOfPages * pageSize

/-- A page that a range covers lies in it with all of its bytes. -/
theorem FirmwareMap.conventional_of_covers {map : FirmwareMap} {desc : EfiMemoryDescriptor}
    (member : desc ∈ map.toMemoryMap.descriptors) {page byte : Nat} (covers : desc.Covers page)
    (same : byte / pageSize = page) : map.toMemoryMap.Conventional byte := by
  obtain ⟨conventional, lower, upper⟩ := covers
  have aligned := map.aligned_of_mem member
  unfold pageSize at *
  refine ⟨desc, member, conventional, by omega, ?_⟩
  unfold pageSize
  omega

/-- The manager and its clients use no byte outside the conventional ranges of the map. -/
structure InsideMap (map : MemoryMap) (session : Session) : Prop where
  live : ∀ address ∈ session.live, ∀ byte, address ≤ byte → byte < address + pageSize →
    map.Conventional byte
  bitmap : ∀ byte, session.pmm.bitmapAddr ≤ byte →
    byte < session.pmm.bitmapAddr + session.pmm.sizeofBitmap → map.Conventional byte

/-- A legal run stays inside the map of the firmware. -/
theorem insideMap_run {map : FirmwareMap} {pmm : Pmm} (initialised : Initialised map.toMemoryMap pmm)
    {requests : List Request} (legal : Guarded Session.step Session.Legal ⟨pmm, []⟩ requests) :
    ∀ reached ∈ visited Session.step ⟨pmm, []⟩ requests, InsideMap map.toMemoryMap reached := by
  intro reached member
  have confined := confined_run initialised legal reached member
  have pages := initialised.initialPages
  constructor
  · intro address held byte lower upper
    obtain ⟨page, same, _, inside, _⟩ := confined.invariant.live address held
    have free := confined.live address held
    rw [same, Nat.mul_div_cancel page (by decide)] at free
    rw [confined.layout.maxPages] at inside
    obtain ⟨_, ⟨desc, listed, covers⟩, _⟩ := (pages.free page inside).mp free
    refine map.conventional_of_covers listed covers ?_
    unfold pageSize at *
    omega
  · intro byte lower upper
    rw [confined.layout.bitmapAddr] at lower upper
    rw [confined.layout.sizeofBitmap] at upper
    obtain ⟨desc, listed, covers⟩ := pages.bitmap
    exact map.conventional_of_covers listed (covers _ ⟨byte, lower, upper, rfl⟩) rfl

/-- `init_pmm` sees only the records that the size of the map allows for. -/
theorem initPmm_congr {first second : MemoryMap} (same : first.descriptors = second.descriptors)
    (old : PackedBits.Bytes) (start : Pmm) : initPmm first old start = initPmm second old start := by
  unfold initPmm placeBitmap
  rw [same]

end ArchaOS.PhysicalMemory
