import ArchaOS.Proof.VirtualMemory.Reach

namespace ArchaOS.VirtualMemory

open Library PhysicalMemory RadixTree

/-- The loader places the whole of what it hands over in the lower half of the address space. -/
structure PlacedMachine extends LinkedMachine where
  fits : toLinkedMachine.Fits

/-- An address above the heap lies on none of its pages. -/
theorem passthru_apart {address index : Nat} (above : passthruBase ≤ address)
    (below : address < 2 ^ 64) (low : index < windowPages) : pageKey address ≠ pageKey (slot index) := by
  rw [slot_key low]
  unfold windowPages at low
  unfold pageKey
  unfold kheapBase passthruBase pageSize at *
  omega

/-- A page that is mapped to itself is no page of the heap. -/
theorem selfMapping_apart {page index : Nat} (low : index < windowPages)
    (place : page < 2 ^ 35 + 32 ∨ (2 ^ 52 - 16 ≤ page ∧ page < 2 ^ 52)) :
    pageKey (slot index) ≠ pageKey (page * pageSize) := by
  rw [slot_key low]
  unfold windowPages at low
  unfold pageKey
  unfold kheapBase passthruBase pageSize at *
  omega

/-- `init_vmm` maps no page of the heap. -/
theorem PlacedMachine.heap_apart (machine : PlacedMachine) {mapping : Mapping}
    (member : mapping ∈ (machine.ranges machine.top).flatMap Range.pages) {index : Nat}
    (low : index < windowPages) : pageKey (slot index) ≠ pageKey mapping.virt := by
  have fits := machine.fits
  have topLow := machine.top_le
  rw [LinkedMachine.pages_eq] at member
  rcases List.mem_append.mp member with early | member
  · obtain ⟨page, rfl, place⟩ := machine.mem_earlyPages fits.kernel fits.framebuffer early
    exact selfMapping_apart low place
  · rcases List.mem_append.mp member with window | late
    · obtain ⟨page, below, rfl⟩ := (mem_passthruPages topLow mapping).mp window
      exact passthruMapping_apart low (by unfold pageSize at below; omega)
    · obtain ⟨_, _, page, _, _, small, rfl⟩ := machine.mem_latePages fits.initramfs late
      exact selfMapping_apart low (Or.inl (by omega))

/-- The pages of the heap from an index on are not mapped. -/
def Fresh (pml4 count : Nat) (vmm : Vmm) : Prop :=
  ∀ index, count ≤ index → index < windowPages → lookup vmm pml4 (slot index) = none

/-- The state that `init_vmm` leaves has an empty heap. -/
theorem initMemory_fresh {machine : PlacedMachine} {old : PackedBits.Bytes}
    {frames : Nat → Fin 512 → Nat} {uefiCr3 : Nat} {start : Pmm} {vmm : Vmm}
    (result : initMemory machine.toMachine old frames uefiCr3 start = .ok vmm) :
    ∃ pml4, Booted pml4 vmm ∧ Fresh pml4 0 vmm := by
  obtain ⟨pml4, first, last, valid, blank, mapped, rfl, _, booted⟩ :=
    initMemory_spec (show initMemory machine.toLoadedMachine.toMachine _ _ _ _ = _ from result)
  refine ⟨pml4, booted, fun index _ low => ?_⟩
  have kept := mapPages_lookup_other valid mapped fun mapping member => machine.heap_apart member low
  refine kept.trans (blank _ ?_)
  rw [slot_key low]
  omega

/-- The index of the page of the heap that `next_virt` names. -/
def Vmm.heapIndex (vmm : Vmm) : Nat := (vmm.nextVirt - kheapBase) / pageSize

/-- The page was handed out, is not mapped, or lies below the passthru window and its frame is not in
use. -/
def Vmm.Harmless (vmm : Vmm) (virt : Nat) : Prop :=
  kheapBase ≤ virt ∧ virt < vmm.nextVirt ∨
  lookup vmm (vmm.cr3 &&& pteAddrMask) virt = none ∨
  pageKey virt < pageKey passthruBase ∧
    ∀ page, lookup vmm (vmm.cr3 &&& pteAddrMask) virt = some (page * pageSize) →
      page = 0 ∨ vmm.pmm.maxPages ≤ page ∨ pageUsed vmm.pmm page = false

/-- An allocation stays below `PASSTHRU_BASE`, or runs out of pages there; freeing a range unmaps
harmless pages only. -/
def Session.Inside (session : Session) : Request → Prop
  | .vallocs _ count =>
      Fits (session.vmm.cr3 &&& pteAddrMask) session.vmm.heapIndex count session.vmm
  | .vfrees virtAddr count => ∀ i < count, session.vmm.Harmless (add64 virtAddr (mul64 i pageSize))

/-- Returned ranges lie in the heap, and the passthru window is translated as at first. -/
structure KeepsWindow (first : Vmm) (session : Session) : Prop where
  returned : ∀ range ∈ session.returned,
    kheapBase ≤ range.1 ∧ range.1 + range.2 * pageSize ≤ passthruBase
  passthru : ∀ address, passthruBase ≤ address → address < 2 ^ 64 →
    translate session.vmm address = translate first address

/-- A page is free, or the manager ignores that it is freed. -/
theorem markFree_idle {pmm : Pmm} {page : Nat}
    (idle : pmm.maxPages ≤ page ∨ pageUsed pmm page = false) : markFree pmm page = pmm := by
  unfold markFree
  split
  · rfl
  · rename_i inside
    rcases idle with beyond | free
    · exact absurd beyond inside
    · rw [free]
      rfl

/-- A frame that is found starts at a page. -/
theorem lookup_aligned {vmm : Vmm} {pml4 address frame : Nat}
    (found : lookup vmm pml4 address = some frame) : frame / pageSize * pageSize = frame := by
  rw [lookup_eq, Option.bind_eq_some_iff] at found
  obtain ⟨entry, _, named⟩ := found
  unfold present at named
  split at named
  · cases named
  · rw [← Option.some.inj named, addrMask_eq]
    unfold pageSize
    omega

/-- What one turn of `vfrees` keeps when it unmaps a harmless page. -/
structure Spared (pml4 : Nat) (first : Vmm) (count : Nat) (vmm after : Vmm) : Prop where
  owned : Owned pml4 first count after
  nextVirt : after.nextVirt = vmm.nextVirt
  cr3 : after.cr3 = vmm.cr3
  passthru : ∀ address, passthruBase ≤ address → address < 2 ^ 64 →
    lookup after pml4 address = lookup vmm pml4 address
  harmless : ∀ virt, vmm.Harmless virt → after.Harmless virt
  stays : ∀ address, lookup vmm pml4 address = none → lookup after pml4 address = none

section Harmless

variable {pml4 count : Nat} {first vmm : Vmm} (booted : Booted pml4 first)
  (standing : Standing pml4 first count vmm)
include booted standing

omit booted in
/-- Unmapping a page whose frame is not in use leaves the owners of the frames. -/
theorem Standing.dropped {virt : Nat} {after : Vmm} (dropped : Dropped pml4 virt vmm after)
    (pages : after.pmm = vmm.pmm) (apart : ∀ index < count, pageKey (slot index) ≠ pageKey virt) :
    Owned pml4 first count after := by
  have owned := standing.owned
  have lookups (index : Nat) (low : index < count) :
      lookup after pml4 (slot index) = lookup vmm pml4 (slot index) := by
    rw [dropped.lookups, if_neg (apart index low)]
  refine ⟨⟨dropped.tree, ?_, ?_⟩, dropped.tidy, ?_, ?_, ?_, ?_, ?_, ?_, ?_⟩
  · rw [pages]
    exact fun frame table => owned.tables.used frame ((dropped.tables frame).mp table)
  · rw [pages]
    exact owned.tables.small
  · rw [pages]
    exact owned.ready
  · rw [pages]
    exact owned.layout
  · rw [pages]
    exact fun frame table => owned.low frame ((dropped.tables frame).mp table)
  · rw [pages]
    exact owned.used
  · intro page start
    rw [pages, dropped.tables]
    rcases owned.held page start with free | table | ⟨index, low, found⟩
    · exact Or.inl free
    · exact Or.inr (Or.inl table)
    · exact Or.inr (Or.inr ⟨index, low, (lookups index low).trans found⟩)
  · intro index low frame found
    rw [lookups index low] at found
    rw [pages, dropped.tables]
    exact owned.mapped index low frame found
  · intro one low one' low' frame found found'
    rw [lookups one low] at found
    rw [lookups one' low'] at found'
    exact owned.once one low one' low' frame found found'

/-- A page of the heap that is mapped has a frame in use. -/
theorem Standing.slot_used {index page : Nat} (low : index < count)
    (found : lookup vmm pml4 (slot index) = some (page * pageSize)) :
    page ≠ 0 ∧ page < vmm.pmm.maxPages ∧ pageUsed vmm.pmm page = true := by
  obtain ⟨other, same, start, used, _⟩ := standing.owned.mapped index low _ found
  obtain rfl := pages_inj same
  refine ⟨?_, ?_, used⟩
  · rintro rfl
    rw [booted.zero] at start
    cases start
  · rw [standing.owned.layout.maxPages]
    exact free_lt start

/-- Unmapping one page leaves the other pages harmless. -/
theorem Standing.harmless_kept {virt : Nat} {after : Vmm} (released : Released pml4 [virt] vmm after)
    (layout : SameLayout after.pmm vmm.pmm)
    (frees : ∀ page, pageUsed vmm.pmm page = false → pageUsed after.pmm page = false) {other : Nat}
    (harmless : vmm.Harmless other) : after.Harmless other := by
  unfold Vmm.Harmless at harmless ⊢
  rw [released.nextVirt, released.cr3, layout.maxPages]
  rw [standing.cr3, booted.root] at harmless ⊢
  rcases harmless with inside | absent | ⟨below, idle⟩
  · exact Or.inl inside
  · exact Or.inr (Or.inl (released.stays absent))
  · by_cases here : pageKey other = pageKey virt
    · refine Or.inr (Or.inl ?_)
      rw [lookup_congr after pml4 here]
      exact released.gone virt (List.mem_singleton.mpr rfl)
    · have same : lookup after pml4 other = lookup vmm pml4 other :=
        released.kept other fun page member => List.mem_singleton.mp member ▸ here
      rw [same]
      refine Or.inr (Or.inr ⟨below, fun page found => ?_⟩)
      rcases idle page found with zero | beyond | free
      · exact Or.inl zero
      · exact Or.inr (Or.inl beyond)
      · exact Or.inr (Or.inr (frees page free))

/-- One turn of `vfrees` on a harmless page. -/
theorem Standing.freePage_spared {virt : Nat} (harmless : vmm.Harmless virt) :
    Spared pml4 first count vmm (freePage pml4 vmm virt) := by
  have owned := standing.owned
  have room : count ≤ 2 ^ 36 := standing.count_le.trans (by decide)
  have frees (page : Nat) (free : pageUsed vmm.pmm page = false) :
      pageUsed (freePage pml4 vmm virt).pmm page = false := freePage_free owned.tidy free
  have spared (owned' : Owned pml4 first count (freePage pml4 vmm virt))
      (released : Released pml4 [virt] vmm (freePage pml4 vmm virt))
      (apart : ∀ address, passthruBase ≤ address → address < 2 ^ 64 → pageKey address ≠ pageKey virt) :
      Spared pml4 first count vmm (freePage pml4 vmm virt) :=
    ⟨owned', released.nextVirt, released.cr3, fun address above below => released.kept address
      fun other member => List.mem_singleton.mp member ▸ apart address above below,
      fun _ => standing.harmless_kept booted released (owned'.layout.trans owned.layout.symm) frees,
      fun _ => released.stays⟩
  unfold Vmm.Harmless at harmless
  rw [standing.cr3, booted.root] at harmless
  rcases harmless with ⟨above, below⟩ | absent | ⟨lower, idle⟩
  · rw [standing.nextVirt] at below
    obtain ⟨index, low, same, _⟩ := heapPage_slot standing.inside above below
    obtain ⟨owned', released, _⟩ := owned.freePage booted room low same
    refine spared owned' released fun address above below here => ?_
    exact passthru_apart above below (low.trans_le standing.count_le) (here.trans same)
  · rw [freePage_idle owned.tidy absent]
    exact ⟨owned, rfl, rfl, fun _ _ _ => rfl, fun _ => id, fun _ => id⟩
  · cases found : lookup vmm pml4 virt with
    | none =>
        rw [freePage_idle owned.tidy found]
        exact ⟨owned, rfl, rfl, fun _ _ _ => rfl, fun _ => id, fun _ => id⟩
    | some frame =>
        have whole := lookup_aligned found
        rw [← whole] at found
        generalize frame / pageSize = page at found
        have unused := idle page found
        obtain ⟨dropped, pages⟩ := freePage_drops owned.tables owned.tidy found
        have same : (freePage pml4 vmm virt).pmm = vmm.pmm := by
          rw [pages]
          split
          · rfl
          · rename_i nonzero
            exact markFree_idle (unused.resolve_left nonzero)
        refine spared (standing.dropped dropped same fun index low here => ?_) dropped.released
          fun address above below here => ?_
        · rw [← lookup_congr vmm pml4 here] at found
          obtain ⟨nonzero, inside, used⟩ := standing.slot_used booted low found
          rcases unused with zero | beyond | free
          · exact nonzero zero
          · omega
          · rw [used] at free
            cases free
        · rw [← here] at lower
          unfold pageKey at lower
          unfold passthruBase pageSize at *
          omega

/-- Turns of `vfrees` on harmless pages. -/
theorem Standing.freePages_spared (addresses : List Nat)
    (harmless : ∀ virt ∈ addresses, vmm.Harmless virt) :
    Spared pml4 first count vmm (addresses.foldl (freePage pml4) vmm) := by
  induction addresses generalizing vmm with
  | nil => exact ⟨standing.owned, rfl, rfl, fun _ _ _ => rfl, fun _ => id, fun _ => id⟩
  | cons virt rest ih =>
      obtain ⟨here, later⟩ := List.forall_mem_cons.mp harmless
      have turn := standing.freePage_spared booted here
      have next : Standing pml4 first count (freePage pml4 vmm virt) := ⟨turn.owned,
        turn.cr3.trans standing.cr3, turn.nextVirt.trans standing.nextVirt, standing.inside⟩
      have others := ih next fun other member => turn.harmless other (later other member)
      exact ⟨others.owned, others.nextVirt.trans turn.nextVirt, others.cr3.trans turn.cr3,
        fun address above below =>
          (others.passthru address above below).trans (turn.passthru address above below),
        fun other safe => others.harmless other (turn.harmless other safe),
        fun address absent => others.stays address (turn.stays address absent)⟩

/-- `vfrees` on harmless pages. -/
theorem Standing.vfrees_spared {virtAddr n : Nat}
    (harmless : ∀ i < n, vmm.Harmless (add64 virtAddr (mul64 i pageSize))) :
    Spared pml4 first count vmm (vfrees virtAddr n vmm) := by
  rw [vfrees_eq, standing.cr3, booted.root]
  refine standing.freePages_spared booted _ fun virt member => ?_
  obtain ⟨i, low, rfl⟩ := List.mem_map.mp member
  exact harmless i (List.mem_range.mp low)

end Harmless

/-- The index of `next_virt` is the length of the heap. -/
theorem Standing.heapIndex {pml4 count : Nat} {first vmm : Vmm}
    (standing : Standing pml4 first count vmm) : vmm.heapIndex = count := by
  rw [Vmm.heapIndex, standing.nextVirt]
  unfold pageSize
  omega

/-- A call that fits into the heap stays inside. -/
theorem Standing.staysInside {pml4 count : Nat} {first : Vmm} {session : Session}
    (standing : Standing pml4 first count session.vmm) {request : Request}
    (bounded : session.Bounded request) : session.Inside request := by
  cases request with
  | vallocs zero n =>
      change session.vmm.nextVirt + n * pageSize ≤ passthruBase at bounded
      rw [standing.nextVirt] at bounded
      refine Or.inl ?_
      rw [standing.heapIndex]
      unfold windowPages
      unfold kheapBase pageSize passthruBase at *
      omega
  | vfrees virtAddr n =>
      obtain ⟨above, below⟩ := bounded
      intro i low
      rw [standing.range_address below low]
      refine Or.inl ⟨above.trans (Nat.le_add_right _ _), lt_of_lt_of_le ?_ below⟩
      unfold pageSize
      omega

/-- What a run inside the heap keeps. -/
structure Windowed (pml4 : Nat) (first : Vmm) (count : Nat) (session : Session) : Prop where
  standing : Standing pml4 first count session.vmm
  returned : ∀ range ∈ session.returned,
    kheapBase ≤ range.1 ∧ range.1 + range.2 * pageSize ≤ session.vmm.nextVirt
  passthru : ∀ address, passthruBase ≤ address → address < 2 ^ 64 →
    lookup session.vmm pml4 address = lookup first pml4 address

section Window

variable {pml4 count : Nat} {first : Vmm} {session : Session} (booted : Booted pml4 first)
  (windowed : Windowed pml4 first count session)
include booted windowed

/-- What a run keeps is the window. -/
theorem Windowed.keepsWindow : KeepsWindow first session where
  returned := by
    intro range member
    have inside := windowed.standing.inside
    obtain ⟨above, below⟩ := windowed.returned range member
    rw [windowed.standing.nextVirt] at below
    exact ⟨above, below.trans inside⟩
  passthru := by
    intro address above below
    refine translate_congr (windowed.standing.cr3.trans booted.cr3.symm) ?_
    rw [booted.cr3, booted.root]
    exact windowed.passthru address above below

omit booted in
/-- Pages of the heap can change without a change above it. -/
theorem Windowed.looped {n turns : Nat} {done : Bool} {after : Vmm}
    (looped : Looped pml4 first count 0 n turns done session.vmm after)
    (room : count + turns ≤ windowPages) :
    ∀ address, passthruBase ≤ address → address < 2 ^ 64 →
      lookup after pml4 address = lookup first pml4 address := by
  intro address above below
  rw [← windowed.passthru address above below]
  rcases looped.confined.lookups address with same | ⟨index, _, low, same, _⟩
  · exact same
  · exact absurd same (passthru_apart above below (by omega))

/-- An allocation inside the window keeps it. -/
theorem Windowed.vallocs {zero : Bool} {n : Nat} (inside : session.Inside (.vallocs zero n)) :
    ∃ count', Windowed pml4 first count' (session.step (.vallocs zero n)) := by
  have standing := windowed.standing
  have limit := standing.nextVirt
  change Fits (session.vmm.cr3 &&& pteAddrMask) session.vmm.heapIndex n session.vmm at inside
  rw [standing.cr3, booted.root, standing.heapIndex] at inside
  have room {turns : Nat} {done : Bool} {middle : Vmm}
      (looped : Looped pml4 first count 0 n turns done session.vmm middle) :
      count + turns ≤ windowPages := by
    have few := looped.few
    rcases inside with enough | ⟨low, within⟩
    · omega
    · exact looped.within windowPages low within
  rcases standing.vallocs_cases booted zero n with idle | ⟨turns, middle, looped, stepped⟩ |
    ⟨middle, looped, stepped⟩
  · rw [idle]
    exact ⟨count, windowed⟩
  · rw [stepped]
    refine ⟨count, standing.refused looped.refused, ?_, windowed.looped looped (room looped)⟩
    dsimp only
    rw [looped.extended.nextVirt]
    exact windowed.returned
  · have fits := room looped
    have next : add64 session.vmm.nextVirt (mul64 n pageSize) = kheapBase + (count + n) * pageSize ∧
        kheapBase + (count + n) * pageSize ≤ passthruBase := by
      rw [limit]
      unfold windowPages at fits
      unfold add64 mul64 kheapBase pageSize passthruBase at *
      omega
    have kept := windowed.looped looped fits
    rw [stepped]
    refine ⟨count + n, standing.granted looped.granted.1 next.1 next.2, ?_, kept⟩
    dsimp only
    rw [next.1]
    refine List.forall_mem_cons.mpr ⟨?_, fun range member => ?_⟩
    · dsimp only
      rw [limit]
      unfold pageSize
      omega
    · obtain ⟨above, below⟩ := windowed.returned range member
      rw [limit] at below
      exact ⟨above, below.trans (by unfold pageSize; omega)⟩

/-- Freeing harmless pages keeps the window. -/
theorem Windowed.vfrees {virtAddr n : Nat} (inside : session.Inside (.vfrees virtAddr n)) :
    Windowed pml4 first count (session.step (.vfrees virtAddr n)) := by
  have standing := windowed.standing
  have spared := standing.vfrees_spared booted inside
  refine ⟨⟨spared.owned, spared.cr3.trans standing.cr3, spared.nextVirt.trans standing.nextVirt,
    standing.inside⟩, ?_, fun address above below =>
      (spared.passthru address above below).trans (windowed.passthru address above below)⟩
  intro range member
  have before := windowed.returned range member
  exact spared.nextVirt.symm ▸ before

/-- What one call that stays inside and reaches its tables keeps. -/
theorem Windowed.step {request : Request} (inside : session.Inside request)
    (reaches : Passthru.Reaches session.vmm request) :
    ∃ count', Windowed pml4 first count' (Passthru.step session request) := by
  have root := windowed.standing.root booted
  rw [passthruStep_eq (root.symm ▸ windowed.standing.owned.tables) reaches]
  cases request with
  | vallocs zero n => exact windowed.vallocs booted inside
  | vfrees virtAddr n => exact ⟨count, windowed.vfrees booted inside⟩

end Window

/-- The loader of the machine with one gigabyte places everything low. -/
def oneGigabytePlaced : PlacedMachine := ⟨oneGigabyte, oneGigabyte_fits⟩

end ArchaOS.VirtualMemory
