import ArchaOS.Library.Runs
import ArchaOS.Proof.VirtualMemory.AddressSpace
import ArchaOS.Proof.VirtualMemory.FrameOwnership

namespace ArchaOS.VirtualMemory

open Library PhysicalMemory RadixTree

/-- The heap grew by some pages, and its older pages are as before. -/
structure Extended (pml4 : Nat) (first : Vmm) (count more : Nat) (vmm after : Vmm) : Prop where
  owned : Owned pml4 first (count + more) after
  kept : ∀ index < count, lookup after pml4 (slot index) = lookup vmm pml4 (slot index)
  nextVirt : after.nextVirt = vmm.nextVirt
  cr3 : after.cr3 = vmm.cr3

/-- The tables stay, and only pages of the heap between two indices change; the pages of a loop that
ran out of memory are not mapped. -/
structure Confined (pml4 low middle high : Nat) (done : Bool) (vmm after : Vmm) : Prop where
  tables : ∀ frame, IsTable vmm pml4 frame → IsTable after pml4 frame
  gone : done = false → ∀ index, low ≤ index → index < middle → lookup after pml4 (slot index) = none
  lookups : ∀ address, lookup after pml4 address = lookup vmm pml4 address ∨
    ∃ index, low ≤ index ∧ index < high ∧ pageKey address = pageKey (slot index) ∧
      (done = false → lookup after pml4 address = none)

/-- A loop that goes on from the longer heap extends the shorter one as well. -/
theorem Lengthened.extended {pml4 count turn more : Nat} {first vmm next after : Vmm}
    (lengthened : Lengthened pml4 first (count + turn) vmm next) (low : count + turn < 2 ^ 36)
    (extended : Extended pml4 first count more next after) : Extended pml4 first count more vmm after where
  owned := extended.owned
  kept := by
    intro index below
    rw [extended.kept index below]
    apply lengthened.others
    intro same
    have equal := slot_inj (by omega) (by omega) same
    omega
  nextVirt := extended.nextVirt.trans lengthened.nextVirt
  cr3 := extended.cr3.trans lengthened.cr3

/-- A turn before a confined loop leaves the loop confined. -/
theorem Lengthened.confined {pml4 count turn high : Nat} {done : Bool} {first vmm next after : Vmm}
    (lengthened : Lengthened pml4 first (count + turn) vmm next) (room : count + turn < high)
    (confined : Confined pml4 count (count + (turn + 1)) high done next after) :
    Confined pml4 count (count + turn) high done vmm after where
  tables := fun frame table => confined.tables frame (lengthened.tables frame table)
  gone := fun failed index above below => confined.gone failed index above (by omega)
  lookups := by
    intro address
    by_cases newest : pageKey address = pageKey (slot (count + turn))
    · refine Or.inr ⟨count + turn, Nat.le_add_right _ _, room, newest, fun failed => ?_⟩
      rw [lookup_congr _ pml4 newest]
      exact confined.gone failed (count + turn) (by omega) (by omega)
    · rcases confined.lookups address with same | changed
      · exact Or.inl (same.trans (lengthened.others address newest))
      · exact Or.inr changed

/-- The last pages of the heap can be left out when they are not mapped. -/
theorem Owned.shrink {pml4 count more : Nat} {first vmm : Vmm}
    (owned : Owned pml4 first (count + more) vmm)
    (absent : ∀ index, count ≤ index → index < count + more → lookup vmm pml4 (slot index) = none) :
    Owned pml4 first count vmm where
  tables := owned.tables
  tidy := owned.tidy
  ready := owned.ready
  layout := owned.layout
  low := owned.low
  used := owned.used
  held := by
    intro page start
    rcases owned.held page start with free | table | ⟨index, low, found⟩
    · exact Or.inl free
    · exact Or.inr (Or.inl table)
    · refine Or.inr (Or.inr ⟨index, ?_, found⟩)
      by_contra beyond
      rw [absent index (not_lt.mp beyond) low] at found
      cases found
  mapped := fun index low => owned.mapped index (by omega)
  once := fun index low other low' => owned.once index (by omega) other (by omega)

/-- The tables on the way to a part of the heap. -/
def heapPaths (low high : Nat) : Finset (List (Fin 512)) :=
  (Finset.Ico low high).biUnion fun index => upperPaths (slot index)

/-- The free pages do not suffice for more than the pages of the heap up to an index and the tables
that these need. -/
def Within (pml4 low high : Nat) (vmm : Vmm) : Prop :=
  vmm.pmm.freePages ≤ high - low + (missingPaths (heapPaths low high) pml4 vmm).card

/-- A longer heap is as far from an index as the shorter one, counted in free pages. -/
theorem Lengthened.within {pml4 index high : Nat} {first vmm next : Vmm}
    (lengthened : Lengthened pml4 first index vmm next) (below : index < high)
    (within : Within pml4 index high vmm) : Within pml4 (index + 1) high next := by
  have counted := lengthened.counted
  have split : missingPaths (heapPaths index high) pml4 vmm ⊆
      missingPaths (heapPaths (index + 1) high) pml4 next ∪
        missingPaths (upperPaths (slot index)) pml4 vmm := by
    intro path member
    obtain ⟨listed, missing⟩ := Finset.mem_filter.mp member
    by_cases here : path ∈ upperPaths (slot index)
    · exact Finset.mem_union_right _ (Finset.mem_filter.mpr ⟨here, missing⟩)
    · obtain ⟨other, inside, above⟩ := Finset.mem_biUnion.mp listed
      have apart : other ≠ index := fun same => here (same ▸ above)
      rw [Finset.mem_Ico] at inside
      refine Finset.mem_union_left _ (Finset.mem_filter.mpr ⟨Finset.mem_biUnion.mpr
        ⟨other, Finset.mem_Ico.mpr ⟨by omega, inside.2⟩, above⟩, ?_⟩)
      rw [lengthened.walks path (upperPaths_lt above) here]
      exact missing
  have few := (Finset.card_le_card split).trans (Finset.card_union_le _ _)
  rw [missingPaths_upper] at few
  unfold Within at within ⊢
  omega

/-- A run of the loop of `vallocs` with a number of turns that took a page. -/
structure Looped (pml4 : Nat) (first : Vmm) (count turn remaining turns : Nat) (done : Bool)
    (vmm after : Vmm) : Prop where
  extended : Extended pml4 first count (if done then turn + remaining else 0) vmm after
  all : done = true → turns = remaining
  few : turns ≤ remaining
  pages : turns ≤ vmm.pmm.freePages
  within : ∀ high, count + turn ≤ high → Within pml4 (count + turn) high vmm →
    count + turn + turns ≤ high
  confined : Confined pml4 count (count + turn) (count + turn + turns) done vmm after

/-- A loop that fails leaves the heap as long as it was. -/
theorem Looped.refused {pml4 count n turns : Nat} {first vmm after : Vmm}
    (looped : Looped pml4 first count 0 n turns false vmm after) :
    Extended pml4 first count 0 vmm after := looped.extended

/-- A loop that succeeds makes the heap longer by all its pages. -/
theorem Looped.granted {pml4 count n turns : Nat} {first vmm after : Vmm}
    (looped : Looped pml4 first count 0 n turns true vmm after) :
    Extended pml4 first count n vmm after ∧ turns = n := by
  have extended := looped.extended
  rw [if_pos rfl, Nat.zero_add] at extended
  exact ⟨extended, looped.all rfl⟩

/-- A turn that took a page and a run from the longer heap on make one run. -/
theorem Lengthened.looped {pml4 count turn remaining turns : Nat} {done : Bool}
    {first vmm next after : Vmm} (lengthened : Lengthened pml4 first (count + turn) vmm next)
    (low : count + turn < 2 ^ 36)
    (looped : Looped pml4 first count (turn + 1) remaining turns done next after) :
    Looped pml4 first count turn (remaining + 1) (turns + 1) done vmm after := by
  have fewer := lengthened.fewer
  have pages := looped.pages
  have few := looped.few
  have extended := looped.extended
  have confined := looped.confined
  have further : count + (turn + 1) + turns = count + turn + (turns + 1) := by omega
  have total : turn + 1 + remaining = turn + (remaining + 1) := by omega
  rw [total] at extended
  rw [further] at confined
  refine ⟨lengthened.extended low extended, fun success => congrArg Nat.succ (looped.all success),
    by omega, by omega, fun high above within => ?_, lengthened.confined (by omega) confined⟩
  rcases Nat.lt_or_ge (count + turn) high with below | beyond
  · rw [← further]
    exact looped.within high below (lengthened.within below within)
  · obtain rfl : count + turn = high := by omega
    have none : heapPaths (count + turn) (count + turn) = ∅ := by
      rw [heapPaths, Finset.Ico_self, Finset.biUnion_empty]
    unfold Within at within
    rw [none, missingPaths, Finset.filter_empty, Finset.card_empty] at within
    omega

section Allocation

variable {pml4 count : Nat} {first : Vmm} (booted : Booted pml4 first)
include booted

/-- Page zero is never free. -/
theorem Owned.not_zero {vmm : Vmm} (owned : Owned pml4 first count vmm) {page : Nat}
    (free : pageUsed vmm.pmm page = false) : page * pageSize ≠ 0 := by
  intro zero
  have none : page = 0 := pages_inj (zero.trans (Nat.zero_mul _).symm)
  rw [none, owned.used 0 booted.zero] at free
  cases free

/-- A failing `vallocs` gives back what it has mapped. -/
theorem vfrees_undo {turn : Nat} {vmm : Vmm} (owned : Owned pml4 first (count + turn) vmm)
    (room : count + turn ≤ 2 ^ 36) (cr3 : vmm.cr3 = pml4) :
    Extended pml4 first count 0 vmm (vfrees (slot count) turn vmm) ∧
      Confined pml4 count (count + turn) (count + turn) false vmm (vfrees (slot count) turn vmm) := by
  have addresses : ((List.range turn).map fun i => add64 (slot count) (mul64 i pageSize)) =
      (List.range turn).map fun i => slot (count + i) := by
    simp only [slot_add]
  rw [vfrees_eq, cr3, booted.root, addresses]
  have inside : ∀ virt ∈ (List.range turn).map fun i => slot (count + i),
      ∃ index < count + turn, pageKey virt = pageKey (slot index) := by
    intro virt member
    obtain ⟨i, low, rfl⟩ := List.mem_map.mp member
    rw [List.mem_range] at low
    exact ⟨count + i, by omega, rfl⟩
  obtain ⟨owned', released, tables⟩ := owned.freePages booted room inside
  generalize ((List.range turn).map fun i => slot (count + i)).foldl (freePage pml4) vmm = after at *
  have gone (index : Nat) (above : count ≤ index) (below : index < count + turn) :
      lookup after pml4 (slot index) = none := by
    refine released.gone (slot index) (List.mem_map.mpr ⟨index - count, ?_, ?_⟩)
    · rw [List.mem_range]
      omega
    · rw [Nat.add_sub_of_le above]
  refine ⟨⟨owned'.shrink gone, ?_, released.nextVirt, released.cr3⟩, tables, fun _ => gone, ?_⟩
  · intro index low
    refine released.kept _ ?_
    intro virt member same
    obtain ⟨i, below, rfl⟩ := List.mem_map.mp member
    rw [List.mem_range] at below
    have equal := slot_inj (by omega) (by omega) same
    omega
  · intro address
    by_cases hit : ∃ i < turn, pageKey address = pageKey (slot (count + i))
    · obtain ⟨i, below, same⟩ := hit
      refine Or.inr ⟨count + i, by omega, by omega, same, fun _ => ?_⟩
      rw [lookup_congr _ pml4 same]
      exact gone (count + i) (by omega) (by omega)
    · refine Or.inl (released.kept address ?_)
      intro virt member same
      obtain ⟨i, below, rfl⟩ := List.mem_map.mp member
      exact hit ⟨i, List.mem_range.mp below, same⟩

/-- `memset` of the newest page clears its frame. -/
theorem memsetPage_owned {index frame : Nat} {vmm after : Vmm}
    (owned : Owned pml4 first count vmm) (low : index < count) (cr3 : vmm.cr3 = pml4)
    (found : lookup vmm pml4 (slot index) = some frame)
    (result : memsetPage (slot index) vmm = .ok after) :
    Owned pml4 first count after ∧
      (∀ path : List (Fin 512), path.length ≤ 4 →
        walk present after.frames pml4 path = walk present vmm.frames pml4 path) ∧
      (∀ table, IsTable vmm pml4 table → IsTable after pml4 table) ∧ after = vmm.clear frame := by
  unfold memsetPage translate at result
  rw [cr3, booted.root, found, slot_aligned] at result
  split at result
  · cases result
  · rename_i target named
    split at named
    · obtain rfl : frame = target := by simpa using named
      obtain rfl := Except.ok.inj result
      obtain ⟨owned', walks, tables⟩ := owned.clear low found
      exact ⟨owned', walks, tables, rfl⟩
    · cases named

/-- The newest page of the heap can be cleared. -/
theorem Lengthened.cleared {frame : Nat} {vmm mapped after : Vmm}
    (lengthened : Lengthened pml4 first count vmm mapped) (cr3 : mapped.cr3 = pml4)
    (found : lookup mapped pml4 (slot count) = some frame)
    (result : memsetPage (slot count) mapped = .ok after) :
    Lengthened pml4 first count vmm after ∧ lookup after pml4 (slot count) = some frame := by
  obtain ⟨owned, walks, tables, rfl⟩ :=
    memsetPage_owned booted lengthened.owned (Nat.lt_succ_self count) cr3 found result
  have lookups (address : Nat) : lookup (mapped.clear frame) pml4 address = lookup mapped pml4 address :=
    walks (tablePath address) le_rfl
  refine ⟨⟨owned, ?_, ?_, lengthened.counted, ?_, lengthened.nextVirt, lengthened.cr3⟩,
    (lookups (slot count)).trans found⟩
  · intro address elsewhere
    rw [lookups, lengthened.others address elsewhere]
  · exact fun frame table => tables frame (lengthened.tables frame table)
  · intro path short others
    rw [walks path short.le, lengthened.walks path short others]

/-- One turn of the loop of `vallocs` maps the next page of the heap or frees the pages of the turns
before it. -/
theorem vallocsFrom_turn {zero done : Bool} {turn remaining : Nat} {vmm after : Vmm}
    (owned : Owned pml4 first (count + turn) vmm) (cr3 : vmm.cr3 = pml4) (low : count + turn < 2 ^ 36)
    (result : vallocsFrom zero (slot count) pml4 (remaining + 1) turn vmm = .ok (done, after)) :
    (∃ next, Lengthened pml4 first (count + turn) vmm next ∧
      (∃ frame, lookup next pml4 (slot (count + turn)) = some frame) ∧
      vallocsFrom zero (slot count) pml4 remaining (turn + 1) next = .ok (done, after)) ∨
    (done = false ∧ after = vfrees (slot count) turn vmm) := by
  rw [vallocsFrom] at result
  rcases palloc_cases owned.ready with ⟨page, _, free, _, taken⟩ | ⟨_, failed⟩
  · have nonzero := owned.not_zero booted free
    rw [taken] at result
    simp only [nonzero, if_false, slot_add, bind_eq_ok] at result
    obtain ⟨mapped, mapping, result⟩ := result
    obtain ⟨lengthened, here⟩ := owned.mapPage low free mapping
    apply Or.inl
    cases zero with
    | false => exact ⟨mapped, lengthened, ⟨_, here⟩, result⟩
    | true =>
        simp only [if_true, bind_eq_ok] at result
        obtain ⟨cleared, clearing, result⟩ := result
        obtain ⟨lengthened', here'⟩ :=
          lengthened.cleared booted (lengthened.cr3.trans cr3) here clearing
        exact ⟨cleared, lengthened', ⟨_, here'⟩, result⟩
  · rw [failed] at result
    simp only [if_true, Except.ok.injEq, Prod.mk.injEq] at result
    exact Or.inr ⟨result.1.symm, result.2.symm⟩

/-- The loop of `vallocs` extends the heap by all of its pages or by none. -/
theorem vallocsFrom_loops {zero done : Bool} {remaining : Nat} {after : Vmm} :
    ∀ {turn : Nat} {vmm : Vmm}, Owned pml4 first (count + turn) vmm → vmm.cr3 = pml4 →
      count + turn + vmm.pmm.freePages < 2 ^ 36 →
      vallocsFrom zero (slot count) pml4 remaining turn vmm = .ok (done, after) →
      ∃ turns, Looped pml4 first count turn remaining turns done vmm after := by
  induction remaining with
  | zero =>
      intro turn vmm owned cr3 room result
      rw [vallocsFrom, Except.ok.injEq, Prod.mk.injEq] at result
      obtain ⟨rfl, rfl⟩ := result
      exact ⟨0, ⟨owned, fun _ _ => rfl, rfl, rfl⟩, fun _ => rfl, le_rfl, Nat.zero_le _,
        fun _ above _ => above, fun _ => id, fun impossible => absurd impossible (by decide),
        fun _ => Or.inl rfl⟩
  | succ remaining ih =>
      intro turn vmm owned cr3 room result
      have low : count + turn < 2 ^ 36 := (Nat.le_add_right _ _).trans_lt room
      rcases vallocsFrom_turn booted owned cr3 low result with
        ⟨next, lengthened, _, result⟩ | ⟨rfl, rfl⟩
      · have fewer := lengthened.fewer
        obtain ⟨turns, looped⟩ := ih lengthened.owned (lengthened.cr3.trans cr3) (by omega) result
        exact ⟨turns + 1, lengthened.looped low looped⟩
      · obtain ⟨extended, confined⟩ := vfrees_undo booted owned low.le cr3
        exact ⟨0, extended, fun success => absurd success (by decide), Nat.zero_le _, Nat.zero_le _,
          fun _ above _ => above, confined⟩

end Allocation

/-- The calls of clients of the virtual allocator. -/
inductive Request where
  | vallocs (zero : Bool) (count : Nat)
  | vfrees (virtAddr count : Nat)

/-- A session records the ranges that successful calls returned and the ranges that were freed, as
start addresses and numbers of pages. -/
structure Session where
  vmm : Vmm
  returned : List (Nat × Nat)
  freed : List (Nat × Nat)

def Session.step (session : Session) : Request → Session
  | .vallocs zero count =>
      match VirtualMemory.vallocs zero count session.vmm with
      | .error _ => session
      | .ok (start, vmm) =>
          { session with
            vmm := vmm
            returned := if start = 0 then session.returned else (start, count) :: session.returned }
  | .vfrees virtAddr count =>
      { session with
        vmm := VirtualMemory.vfrees virtAddr count session.vmm
        freed := (virtAddr, count) :: session.freed }

/-- An allocation returns and leaves `next_virt` inside the heap; a freed range lies inside the part
of the heap that was handed out. -/
def Session.Legal (session : Session) : Request → Prop
  | .vallocs zero count =>
      match VirtualMemory.vallocs zero count session.vmm with
      | .error _ => False
      | .ok (_, vmm) => kheapBase ≤ vmm.nextVirt ∧ vmm.nextVirt ≤ passthruBase
  | .vfrees virtAddr count =>
      kheapBase ≤ virtAddr ∧ virtAddr + count * pageSize ≤ session.vmm.nextVirt

/-- The address is the start of a page of the heap that was handed out. -/
def HeapPage (vmm : Vmm) (address : Nat) : Prop :=
  kheapBase ≤ address ∧ address < vmm.nextVirt ∧ address % pageSize = 0

/-- A page of the heap is mapped to the frame. -/
def MapsTo (vmm : Vmm) (page address : Nat) : Prop :=
  HeapPage vmm address ∧ translate vmm address = some (page * pageSize)

/-- The page is in exactly one of three roles: free, a table, or mapped at exactly one page. -/
def OneRole (vmm : Vmm) (page : Nat) : Prop :=
  let free := pageUsed vmm.pmm page = false
  let table := IsTable vmm (vmm.cr3 &&& pteAddrMask) (page * pageSize)
  (free ∧ ¬ table ∧ ¬ ∃ address, MapsTo vmm page address) ∨
  (¬ free ∧ table ∧ ¬ ∃ address, MapsTo vmm page address) ∨
  (¬ free ∧ ¬ table ∧ ∃! address, MapsTo vmm page address)

/-- The ranges share no address. -/
def DisjointRanges (left right : Nat × Nat) : Prop :=
  left.1 + left.2 * pageSize ≤ right.1 ∨ right.1 + right.2 * pageSize ≤ left.1

/-- The frames that were free at first are owned once, returned ranges are disjoint, and freeing a
range again changes nothing. -/
structure FrameOwnership (first : Vmm) (session : Session) : Prop where
  roles : ∀ page, pageUsed first.pmm page = false → OneRole session.vmm page
  disjoint : session.returned.Pairwise DisjointRanges
  freed : ∀ range ∈ session.freed,
    VirtualMemory.vfrees range.1 range.2 session.vmm = session.vmm

/-- The heap has a number of pages and ends at or below `PASSTHRU_BASE`. -/
structure Standing (pml4 : Nat) (first : Vmm) (count : Nat) (vmm : Vmm) : Prop where
  owned : Owned pml4 first count vmm
  cr3 : vmm.cr3 = pml4
  nextVirt : vmm.nextVirt = kheapBase + count * pageSize
  inside : kheapBase + count * pageSize ≤ passthruBase

/-- What every run keeps. -/
structure Invariant (pml4 : Nat) (first : Vmm) (count : Nat) (session : Session) : Prop extends
    Standing pml4 first count session.vmm where
  returned : ∀ range ∈ session.returned, range.1 + range.2 * pageSize ≤ session.vmm.nextVirt
  disjoint : session.returned.Pairwise DisjointRanges
  freed : ∀ range ∈ session.freed, kheapBase ≤ range.1 ∧
    range.1 + range.2 * pageSize ≤ session.vmm.nextVirt ∧
    ∀ i < range.2, lookup session.vmm pml4 (range.1 + i * pageSize) = none

/-- An address of the heap lies on one of its pages. -/
theorem heapPage_slot {count address : Nat} (inside : kheapBase + count * pageSize ≤ passthruBase)
    (above : kheapBase ≤ address) (below : address < kheapBase + count * pageSize) :
    ∃ index < count, pageKey address = pageKey (slot index) ∧
      (address % pageSize = 0 → address = slot index) := by
  refine ⟨(address - kheapBase) / pageSize, ?_, ?_, ?_⟩
  · unfold kheapBase pageSize passthruBase at *
    omega
  · unfold pageKey slot add64 kheapBase pageSize passthruBase at *
    omega
  · unfold slot add64 kheapBase pageSize passthruBase at *
    omega

/-- Below `PASSTHRU_BASE` the addresses of the heap do not wrap around. -/
theorem slot_eq {count index : Nat} (inside : kheapBase + count * pageSize ≤ passthruBase)
    (low : index ≤ count) : slot index = kheapBase + index * pageSize := by
  unfold slot
  unfold kheapBase pageSize passthruBase at *
  exact add64_eq (by omega)

section Standing

variable {pml4 count : Nat} {first vmm : Vmm} (booted : Booted pml4 first)
  (standing : Standing pml4 first count vmm)
include booted standing

omit booted in
/-- The next page of the heap lies behind the last one. -/
theorem Standing.next_slot : vmm.nextVirt = slot count := by
  rw [standing.nextVirt, slot_eq standing.inside le_rfl]

/-- The root table is where `cr3` points. -/
theorem Standing.root : vmm.cr3 &&& pteAddrMask = pml4 := standing.cr3.symm ▸ booted.root

omit booted in
/-- The addresses of a range of the heap do not wrap. -/
theorem Standing.range_address {virtAddr n i : Nat}
    (below : virtAddr + n * pageSize ≤ vmm.nextVirt) (low : i < n) :
    add64 virtAddr (mul64 i pageSize) = virtAddr + i * pageSize := by
  have inside := standing.inside
  have limit := standing.nextVirt
  unfold kheapBase pageSize passthruBase at *
  rw [mul64_eq (by omega), add64_eq (by omega)]

/-- Freeing a range whose pages are not mapped changes nothing. -/
theorem Standing.vfrees_idle {virtAddr n : Nat}
    (below : virtAddr + n * pageSize ≤ vmm.nextVirt)
    (absent : ∀ i < n, lookup vmm pml4 (virtAddr + i * pageSize) = none) :
    VirtualMemory.vfrees virtAddr n vmm = vmm := by
  rw [vfrees_eq, standing.cr3, booted.root]
  refine freePages_idle standing.owned.tidy ?_
  intro virt member
  obtain ⟨i, low, rfl⟩ := List.mem_map.mp member
  rw [List.mem_range] at low
  rw [standing.range_address below low]
  exact absent i low

omit booted in
/-- The pages of a freed range are pages of the heap. -/
theorem Standing.range_slot {virtAddr n i : Nat} (above : kheapBase ≤ virtAddr)
    (below : virtAddr + n * pageSize ≤ vmm.nextVirt) (low : i < n) :
    ∃ index < count, pageKey (virtAddr + i * pageSize) = pageKey (slot index) := by
  have more : i * pageSize < n * pageSize := by
    unfold pageSize
    omega
  have lower : kheapBase ≤ virtAddr + i * pageSize := by omega
  have upper : virtAddr + i * pageSize < kheapBase + count * pageSize := by
    rw [← standing.nextVirt]
    omega
  obtain ⟨index, inside, same, _⟩ := heapPage_slot standing.inside lower upper
  exact ⟨index, inside, same⟩

/-- `vfrees` on a range of the heap gives its frames back. -/
theorem Standing.released {virtAddr n : Nat} (above : kheapBase ≤ virtAddr)
    (below : virtAddr + n * pageSize ≤ vmm.nextVirt) :
    Owned pml4 first count (VirtualMemory.vfrees virtAddr n vmm) ∧
      Released pml4 ((List.range n).map fun i => virtAddr + i * pageSize) vmm
        (VirtualMemory.vfrees virtAddr n vmm) := by
  have inside := standing.inside
  have addresses : ((List.range n).map fun i => add64 virtAddr (mul64 i pageSize)) =
      (List.range n).map fun i => virtAddr + i * pageSize :=
    List.map_congr_left fun i low => standing.range_address below (List.mem_range.mp low)
  have pages : ∀ virt ∈ (List.range n).map fun i => virtAddr + i * pageSize,
      ∃ index < count, pageKey virt = pageKey (slot index) := by
    intro virt member
    obtain ⟨i, low, rfl⟩ := List.mem_map.mp member
    exact standing.range_slot above below (List.mem_range.mp low)
  obtain ⟨owned, released, _⟩ := standing.owned.freePages booted
    (by unfold kheapBase pageSize passthruBase at inside; omega) pages
  rw [vfrees_eq, standing.cr3, booted.root, addresses]
  exact ⟨owned, released⟩

/-- There are at most 2^35 free pages. -/
theorem Standing.few_free : vmm.pmm.freePages ≤ 2 ^ 35 := by
  have few := booted.few
  have bound := PackedBits.clearBelow_card_le vmm.pmm.bitmap vmm.pmm.maxPages
  rw [← standing.owned.ready.counted.freePages, standing.owned.layout.maxPages] at bound
  omega

/-- A call of `vallocs` that returns is a run of its loop, with all of its pages or with none. -/
theorem Standing.loop {zero : Bool} {n : Nat} {answer : Nat × Vmm} (positive : n ≠ 0)
    (result : VirtualMemory.vallocs zero n vmm = .ok answer) :
    ∃ done turns middle, vallocsFrom zero (slot count) pml4 n 0 vmm = .ok (done, middle) ∧
      Looped pml4 first count 0 n turns done vmm middle ∧
      answer = if done then (vmm.nextVirt,
        { middle with nextVirt := add64 vmm.nextVirt (mul64 n pageSize) }) else (0, middle) := by
  have inside := standing.inside
  have free := standing.few_free booted
  have limit := standing.next_slot
  rw [VirtualMemory.vallocs, if_neg positive, bind_eq_ok] at result
  obtain ⟨⟨done, middle⟩, loop, result⟩ := result
  rw [standing.cr3, booted.root, limit] at loop
  obtain ⟨turns, looped⟩ := vallocsFrom_loops booted
    (show Owned pml4 first (count + 0) vmm from standing.owned) standing.cr3
    (by unfold kheapBase pageSize passthruBase at inside; omega) loop
  refine ⟨done, turns, middle, loop, looped, ?_⟩
  cases done with
  | false => exact (Except.ok.inj result).symm
  | true =>
      dsimp only at result
      rw [looped.extended.nextVirt] at result
      exact (Except.ok.inj result).symm

omit booted in
/-- A failing allocation leaves the heap as long as it was. -/
theorem Standing.refused {after : Vmm} (extended : Extended pml4 first count 0 vmm after) :
    Standing pml4 first count after where
  owned := extended.owned
  cr3 := extended.cr3.trans standing.cr3
  nextVirt := extended.nextVirt.trans standing.nextVirt
  inside := standing.inside

omit booted in
/-- A successful allocation puts its pages behind the heap. -/
theorem Standing.granted {n next : Nat} {after : Vmm}
    (extended : Extended pml4 first count n vmm after)
    (end_ : next = kheapBase + (count + n) * pageSize)
    (fits : kheapBase + (count + n) * pageSize ≤ passthruBase) :
    Standing pml4 first (count + n) { after with nextVirt := next } := by
  have owned := extended.owned
  refine ⟨?_, extended.cr3.trans standing.cr3, end_, fits⟩
  exact ⟨⟨owned.tables.tree, owned.tables.used, owned.tables.small⟩, owned.tidy, owned.ready,
    owned.layout, owned.low, owned.used, owned.held, owned.mapped, owned.once⟩

end Standing

/-- A call of `vallocs` leaves the session as it was, gives back what it took, or puts its pages
behind the heap. -/
theorem Standing.vallocs_cases {pml4 count : Nat} {first : Vmm} {session : Session}
    (booted : Booted pml4 first) (standing : Standing pml4 first count session.vmm) (zero : Bool)
    (n : Nat) :
    session.step (.vallocs zero n) = session ∨
    (∃ turns middle, Looped pml4 first count 0 n turns false session.vmm middle ∧
      session.step (.vallocs zero n) = { session with vmm := middle }) ∨
    ∃ middle, Looped pml4 first count 0 n n true session.vmm middle ∧
      session.step (.vallocs zero n) = { session with
        vmm := { middle with nextVirt := add64 session.vmm.nextVirt (mul64 n pageSize) }
        returned := (session.vmm.nextVirt, n) :: session.returned } := by
  by_cases none : n = 0
  · apply Or.inl
    rw [none, Session.step, VirtualMemory.vallocs, if_pos rfl]
    rfl
  · cases result : VirtualMemory.vallocs zero n session.vmm with
    | error stop =>
        apply Or.inl
        simp only [Session.step, result]
    | ok answer =>
        apply Or.inr
        simp only [Session.step, result]
        obtain ⟨done, turns, middle, _, looped, same⟩ := standing.loop booted none result
        cases done with
        | false =>
            obtain rfl : answer = (0, middle) := same
            exact Or.inl ⟨turns, middle, looped, rfl⟩
        | true =>
            obtain rfl : answer = (session.vmm.nextVirt, _) := same
            obtain rfl := looped.granted.2
            have nonzero : session.vmm.nextVirt ≠ 0 := by
              rw [standing.nextVirt]
              unfold kheapBase
              omega
            rw [if_neg nonzero]
            exact Or.inr ⟨middle, looped, rfl⟩

/-- The addresses of the heap are usable. -/
theorem slot_canonical {index count : Nat} (fits : kheapBase + count * pageSize ≤ passthruBase)
    (low : index ≤ count) : canonical (slot index) = true := by
  rw [slot_eq fits low]
  unfold canonical
  unfold kheapBase pageSize passthruBase at *
  simp only [Bool.or_eq_true, Bool.and_eq_true, decide_eq_true_eq]
  omega

section Roles

variable {pml4 count : Nat} {first : Vmm} {session : Session} (booted : Booted pml4 first)
  (invariant : Invariant pml4 first count session)
include booted invariant

/-- The frame of a page of the heap. -/
theorem Invariant.mapsTo (page address : Nat) : MapsTo session.vmm page address ↔
    ∃ index < count, address = slot index ∧
      lookup session.vmm pml4 (slot index) = some (page * pageSize) := by
  have inside := invariant.inside
  have translates {index : Nat} (low : index < count) :
      translate session.vmm (slot index) = lookup session.vmm pml4 (slot index) := by
    have usable := slot_canonical inside low.le
    rw [translate, if_pos usable, invariant.cr3, booted.root, slot_aligned]
    simp
  constructor
  · rintro ⟨⟨above, below, aligned⟩, found⟩
    rw [invariant.nextVirt] at below
    obtain ⟨index, low, _, same⟩ := heapPage_slot inside above below
    have same := same aligned
    rw [same, translates low] at found
    exact ⟨index, low, same, found⟩
  · rintro ⟨index, low, rfl, found⟩
    refine ⟨⟨?_, ?_, slot_aligned index⟩, (translates low).trans found⟩
    · rw [slot_eq inside (Nat.le_of_lt low)]
      omega
    · rw [slot_eq inside (Nat.le_of_lt low), invariant.nextVirt]
      unfold pageSize
      omega

/-- Every page has one role. -/
theorem Invariant.oneRole {page : Nat} (start : pageUsed first.pmm page = false) :
    OneRole session.vmm page := by
  have owned := invariant.owned
  unfold OneRole
  dsimp only
  rw [invariant.cr3, booted.root]
  simp only [invariant.mapsTo booted]
  have facts {index : Nat} (low : index < count)
      (found : lookup session.vmm pml4 (slot index) = some (page * pageSize)) :
      pageUsed session.vmm.pmm page = true ∧ ¬ IsTable session.vmm pml4 (page * pageSize) := by
    obtain ⟨other, same, _, held, data⟩ := owned.mapped index low _ found
    rw [pages_inj same]
    rw [pages_inj same] at data
    exact ⟨held, data⟩
  rcases owned.held page start with free | table | ⟨index, low, found⟩
  · refine Or.inl ⟨free, owned.tables.free_not_table free, ?_⟩
    rintro ⟨_, index, low, _, found⟩
    rw [(facts low found).1] at free
    cases free
  · refine Or.inr (Or.inl ⟨?_, table, ?_⟩)
    · intro free
      exact owned.tables.free_not_table free table
    · rintro ⟨_, index, low, _, found⟩
      exact (facts low found).2 table
  · obtain ⟨held, data⟩ := facts low found
    refine Or.inr (Or.inr ⟨by simp [held], data, slot index, ⟨index, low, rfl, found⟩, ?_⟩)
    rintro _ ⟨other, low', rfl, found'⟩
    rw [owned.once other low' index low _ found' found]

/-- The invariant gives every frame its owner. -/
theorem Invariant.ownership : FrameOwnership first session where
  roles := fun _ start => invariant.oneRole booted start
  disjoint := invariant.disjoint
  freed := by
    intro range member
    obtain ⟨_, below, absent⟩ := invariant.freed range member
    exact invariant.vfrees_idle booted below absent

/-- A legal `vfrees` keeps the invariant. -/
theorem Invariant.vfrees {virtAddr n : Nat} (above : kheapBase ≤ virtAddr)
    (below : virtAddr + n * pageSize ≤ session.vmm.nextVirt) :
    Invariant pml4 first count (session.step (.vfrees virtAddr n)) := by
  have inside := invariant.inside
  obtain ⟨owned, released⟩ := invariant.released booted above below
  unfold Session.step
  dsimp only
  refine ⟨⟨owned, released.cr3.trans invariant.cr3, released.nextVirt.trans invariant.nextVirt, inside⟩,
    ?_, invariant.disjoint, ?_⟩
  · intro range member
    rw [released.nextVirt]
    exact invariant.returned range member
  · rw [released.nextVirt]
    refine List.forall_mem_cons.mpr ⟨⟨above, below, ?_⟩, ?_⟩
    · intro i low
      exact released.gone _ (List.mem_map.mpr ⟨i, List.mem_range.mpr low, rfl⟩)
    · intro range member
      obtain ⟨start, finish, absent⟩ := invariant.freed range member
      exact ⟨start, finish, fun i low => released.stays (absent i low)⟩

omit booted in
/-- The freed ranges stay unmapped while the heap grows. -/
theorem Invariant.freed_kept {more : Nat} {after : Vmm}
    (extended : Extended pml4 first count more session.vmm after) :
    ∀ range ∈ session.freed, kheapBase ≤ range.1 ∧
      range.1 + range.2 * pageSize ≤ session.vmm.nextVirt ∧
      ∀ i < range.2, lookup after pml4 (range.1 + i * pageSize) = none := by
  intro range member
  obtain ⟨above, below, absent⟩ := invariant.freed range member
  refine ⟨above, below, ?_⟩
  intro i low
  obtain ⟨index, inside, same⟩ := invariant.range_slot above below low
  rw [lookup_congr after pml4 same, extended.kept index inside, ← lookup_congr session.vmm pml4 same]
  exact absent i low

omit booted in
/-- A failing allocation leaves the heap as long as it was. -/
theorem Invariant.refused {after : Vmm} (extended : Extended pml4 first count 0 session.vmm after) :
    Invariant pml4 first count { session with vmm := after } where
  toStanding := invariant.toStanding.refused extended
  returned := by
    dsimp only
    rw [extended.nextVirt]
    exact invariant.returned
  disjoint := invariant.disjoint
  freed := by
    dsimp only
    rw [extended.nextVirt]
    exact invariant.freed_kept extended

omit booted in
/-- A successful allocation puts its pages behind the heap. -/
theorem Invariant.granted {n next : Nat} {after : Vmm}
    (extended : Extended pml4 first count n session.vmm after)
    (end_ : next = kheapBase + (count + n) * pageSize)
    (fits : kheapBase + (count + n) * pageSize ≤ passthruBase) :
    Invariant pml4 first (count + n) { session with
      vmm := { after with nextVirt := next }
      returned := (session.vmm.nextVirt, n) :: session.returned } := by
  have limit := invariant.nextVirt
  have further : session.vmm.nextVirt + n * pageSize = next := by
    rw [limit, end_]
    unfold pageSize
    omega
  refine ⟨invariant.toStanding.granted extended end_ fits, ?_, ?_, ?_⟩
  · refine List.forall_mem_cons.mpr ⟨further.le, ?_⟩
    intro range member
    exact (invariant.returned range member).trans ((Nat.le_add_right _ _).trans further.le)
  · refine List.pairwise_cons.mpr ⟨?_, invariant.disjoint⟩
    exact fun range member => Or.inr (invariant.returned range member)
  · intro range member
    obtain ⟨begin, finish, absent⟩ := invariant.freed_kept extended range member
    exact ⟨begin, finish.trans ((Nat.le_add_right _ _).trans further.le), absent⟩

omit booted invariant in
/-- A legal allocation leaves `next_virt` inside the heap. -/
theorem Session.Legal.inside {zero : Bool} {n : Nat} (legal : session.Legal (.vallocs zero n)) :
    kheapBase ≤ (session.step (.vallocs zero n)).vmm.nextVirt ∧
      (session.step (.vallocs zero n)).vmm.nextVirt ≤ passthruBase := by
  cases result : VirtualMemory.vallocs zero n session.vmm with
  | error stop => simp only [Session.Legal, result] at legal
  | ok answer =>
      simp only [Session.Legal, result] at legal
      simp only [Session.step, result]
      exact legal

/-- A legal `vallocs` keeps the invariant. -/
theorem Invariant.vallocs {zero : Bool} {n : Nat} (legal : session.Legal (.vallocs zero n)) :
    ∃ count', Invariant pml4 first count' (session.step (.vallocs zero n)) := by
  have window := invariant.inside
  have free := invariant.few_free booted
  have bounds := legal.inside
  rcases invariant.vallocs_cases booted zero n with idle | ⟨_, middle, looped, stepped⟩ |
    ⟨middle, looped, stepped⟩
  · rw [idle]
    exact ⟨count, invariant⟩
  · rw [stepped]
    exact ⟨count, invariant.refused looped.refused⟩
  · rw [stepped] at bounds ⊢
    dsimp only at bounds
    have enough := looped.pages
    have next : add64 session.vmm.nextVirt (mul64 n pageSize) =
        kheapBase + (count + n) * pageSize := by
      rw [invariant.nextVirt] at bounds ⊢
      unfold add64 mul64 kheapBase pageSize passthruBase at *
      omega
    exact ⟨count + n, invariant.granted looped.granted.1 next (next ▸ bounds.2)⟩

end Roles

/-- The invariant holds at first. -/
theorem Booted.invariant {pml4 : Nat} {first : Vmm} (booted : Booted pml4 first) :
    Invariant pml4 first 0 ⟨first, [], []⟩ :=
  ⟨⟨booted.owned, booted.cr3, booted.nextVirt, by decide⟩, by simp, List.Pairwise.nil, by simp⟩

/-- With a page for every turn and for every missing table the loop of `vallocs` maps all of its
pages, and the pages for missing tables remain. -/
theorem Stocked.serves {pml4 count spare : Nat} {first : Vmm} (booted : Booted pml4 first)
    {paths : Finset (List (Fin 512))} (short : ∀ path ∈ paths, path.length < 4) {zero : Bool}
    {remaining : Nat} : ∀ {turn : Nat} {vmm : Vmm}, Owned pml4 first (count + turn) vmm →
      vmm.cr3 = pml4 → Stocked paths (spare + remaining) pml4 vmm →
      kheapBase + (count + turn + remaining) * pageSize ≤ passthruBase →
      (∀ index, count + turn ≤ index → index < count + turn + remaining →
        upperPaths (slot index) ⊆ paths) →
      ∃ after, vallocsFrom zero (slot count) pml4 remaining turn vmm = .ok (true, after) ∧
        Stocked paths spare pml4 after := by
  induction remaining with
  | zero => exact fun {_ vmm} _ _ stocked _ _ => ⟨vmm, rfl, stocked⟩
  | succ remaining ih =>
      intro turn vmm owned cr3 stocked fits inside
      have low : count + turn < 2 ^ 36 := by
        unfold kheapBase pageSize passthruBase at fits
        omega
      have supplied : Supplied ((missingPaths paths pml4 vmm).card + (spare + remaining) + 1) vmm.pmm :=
        stocked.supplied
      obtain ⟨page, _, free, taken⟩ := palloc_taken supplied.palloc.1
      have rest := supplied.palloc.2
      have nonzero := supplied.palloc.1
      rw [taken] at rest nonzero
      dsimp only at rest nonzero
      have marked : Stocked paths (spare + remaining) pml4 { vmm with pmm := markUsed vmm.pmm page } :=
        ⟨stocked.tables.markUsed page, rest⟩
      obtain ⟨mapped, mapping, stocked'⟩ := mapPage_stocked short marked (page * pageSize)
        (inside (count + turn) le_rfl (by omega))
      obtain ⟨lengthened, here⟩ := owned.mapPage low free mapping
      have next (after : Vmm) (lengthened : Lengthened pml4 first (count + turn) vmm after)
          (stocked : Stocked paths (spare + remaining) pml4 after) :
          ∃ last, vallocsFrom zero (slot count) pml4 remaining (turn + 1) after = .ok (true, last) ∧
            Stocked paths spare pml4 last :=
        ih lengthened.owned (lengthened.cr3.trans cr3) stocked
          (by rwa [← Nat.add_assoc, Nat.add_assoc _ 1, Nat.add_comm 1])
          fun index above below => inside index (by omega) (by omega)
      rw [vallocsFrom, taken]
      simp only [nonzero, if_false, slot_add, mapping, ok_bind]
      cases zero with
      | false => exact next mapped lengthened stocked'
      | true =>
          have root : mapped.cr3 = pml4 := lengthened.cr3.trans cr3
          have usable := slot_canonical fits (Nat.le_add_right (count + turn) (remaining + 1))
          have clearing : memsetPage (slot (count + turn)) mapped =
              .ok (mapped.clear (page * pageSize)) := by
            rw [memsetPage, translate_eq root booted.root usable here, slot_aligned, Nat.add_zero]
          obtain ⟨lengthened', _⟩ := lengthened.cleared booted root here clearing
          obtain ⟨owned', walks, _⟩ := lengthened.owned.clear (Nat.lt_succ_self _) here
          have same : missingPaths paths pml4 (mapped.clear (page * pageSize)) =
              missingPaths paths pml4 mapped := by
            refine Finset.filter_congr fun path member => ?_
            rw [walks path (short path member).le]
          rw [if_pos rfl, clearing, ok_bind]
          refine next _ lengthened' ⟨owned'.tables, ?_⟩
          rw [same]
          exact stocked'.supplied

/-- The heap starts in a region of two megabytes that has three tables. -/
theorem slot_firstRegion {index : Nat} (low : index < 512) :
    upperPaths (slot index) ⊆ regionPaths {2 ^ 27 - 2 ^ 12} := by
  refine upperPaths_subset (Finset.mem_singleton.mpr ?_)
  unfold slot add64
  unfold kheapBase pageSize
  omega

/-- Allocations in the first region of the heap succeed while there are free pages for them and for
missing tables. -/
theorem Standing.grants {pml4 count spare n : Nat} {first vmm : Vmm} (booted : Booted pml4 first)
    (standing : Standing pml4 first count vmm) (zero : Bool) (some : n ≠ 0) (few : count + n ≤ 512)
    (stocked : Stocked (regionPaths {2 ^ 27 - 2 ^ 12}) (spare + n) pml4 vmm) :
    ∃ after, vallocs zero n vmm = .ok (vmm.nextVirt, after) ∧ Standing pml4 first (count + n) after ∧
      Stocked (regionPaths {2 ^ 27 - 2 ^ 12}) spare pml4 after := by
  have fits : kheapBase + (count + n) * pageSize ≤ passthruBase := by
    unfold kheapBase pageSize passthruBase
    omega
  obtain ⟨middle, loop, stocked'⟩ := stocked.serves booted (fun _ => upperPaths_short)
    (show Owned pml4 first (count + 0) vmm from standing.owned) standing.cr3 fits
    fun index _ below => slot_firstRegion (show index < 512 by omega)
  have start := standing.next_slot
  have result : vallocs zero n vmm = .ok (vmm.nextVirt,
      { middle with nextVirt := add64 middle.nextVirt (mul64 n pageSize) }) := by
    rw [vallocs, if_neg some, standing.cr3, booted.root, start]
    dsimp only
    rw [loop]
    rfl
  obtain ⟨turns, looped⟩ := vallocsFrom_loops booted
    (show Owned pml4 first (count + 0) vmm from standing.owned) standing.cr3
    (by have := standing.few_free booted; omega) loop
  have next : add64 middle.nextVirt (mul64 n pageSize) = kheapBase + (count + n) * pageSize := by
    rw [looped.extended.nextVirt, standing.nextVirt]
    unfold add64 mul64 kheapBase pageSize
    omega
  refine ⟨_, result, standing.granted looped.granted.1 next fits, ?_⟩
  exact ⟨⟨stocked'.tables.tree, stocked'.tables.used, stocked'.tables.small⟩, stocked'.supplied⟩

/-- With enough free pages there are pages for the first region of the heap. -/
theorem Booted.stocked {pml4 pages : Nat} {vmm : Vmm} (booted : Booted pml4 vmm)
    (supplied : Supplied (pages + 3) vmm.pmm) :
    Stocked (regionPaths {2 ^ 27 - 2 ^ 12}) pages pml4 vmm := by
  have missing : (missingPaths (regionPaths {2 ^ 27 - 2 ^ 12}) pml4 vmm).card ≤ 3 :=
    (Finset.card_filter_le _ _).trans (regionPaths_card _)
  exact ⟨booted.tables, supplied.less (by omega)⟩

/-- With four free pages the first allocation of one page returns the start of the heap. -/
theorem vallocs_first {pml4 : Nat} {vmm : Vmm} (booted : Booted pml4 vmm)
    (supplied : Supplied 4 vmm.pmm) :
    ∃ after, vallocs true 1 vmm = .ok (kheapBase, after) ∧ after.nextVirt = kheapBase + pageSize := by
  obtain ⟨after, result, standing, _⟩ := booted.invariant.toStanding.grants booted true
    (show 1 ≠ 0 by decide) (by decide) (booted.stocked (show Supplied (0 + 1 + 3) vmm.pmm from supplied))
  exact ⟨after, booted.nextVirt ▸ result, standing.nextVirt⟩

end ArchaOS.VirtualMemory
