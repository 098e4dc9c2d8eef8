import ArchaOS.Proof.GrowingHeap.Cursors
import ArchaOS.Proof.KernelHeap.Isolation

namespace ArchaOS.GrowingHeap

open Library PhysicalMemory KernelHeap VirtualMemory

section Pages

variable {pml4 count : Nat} {first : Vmm} (booted : Booted pml4 first)
include booted

/-- A loop of `vallocs` that succeeds keeps the older pages of the heap and maps all of its own. -/
theorem vallocsFrom_maps {zero : Bool} {remaining : Nat} {after : Vmm} :
    ∀ {turn : Nat} {vmm : Vmm}, Owned pml4 first (count + turn) vmm → vmm.cr3 = pml4 →
      count + turn + vmm.pmm.freePages < 2 ^ 36 →
      vallocsFrom zero (slot count) pml4 remaining turn vmm = .ok (true, after) →
      (∀ index < count + turn, lookup after pml4 (slot index) = lookup vmm pml4 (slot index)) ∧
        ∀ i < remaining, ∃ frame, lookup after pml4 (slot (count + turn + i)) = some frame := by
  induction remaining with
  | zero =>
      intro turn vmm _ _ _ result
      rw [vallocsFrom, Except.ok.injEq, Prod.mk.injEq] at result
      rw [result.2]
      exact ⟨fun _ _ => rfl, fun _ impossible => absurd impossible (Nat.not_lt_zero _)⟩
  | succ remaining ih =>
      intro turn vmm owned cr3 room result
      have low : count + turn < 2 ^ 36 := by omega
      obtain ⟨next, lengthened, ⟨frame, here⟩, rest⟩ | ⟨impossible, _⟩ :=
        vallocsFrom_turn booted owned cr3 low result
      rotate_left
      · cases impossible
      have fewer := lengthened.fewer
      obtain ⟨kept, mapped⟩ := ih lengthened.owned (lengthened.cr3.trans cr3) (by omega) rest
      constructor
      · intro index below
        rw [kept index (by omega)]
        apply lengthened.others
        intro same
        have equal := slot_inj (by omega) low same
        omega
      · intro i below
        cases i with
        | zero =>
            refine ⟨frame, ?_⟩
            rw [Nat.add_zero, kept (count + turn) (by omega)]
            exact here
        | succ i =>
            obtain ⟨frame, found⟩ := mapped i (by omega)
            exact ⟨frame, by rwa [show count + turn + (i + 1) = count + (turn + 1) + i by omega]⟩

end Pages

/-- The pages of the heap, from its first one to `next_virt`: the frames have one owner, the passthru
window reaches them, and every page is mapped. -/
structure Backed (pml4 : Nat) (first : Vmm) (count : Nat) (vmm : Vmm) : Prop extends
    Standing pml4 first count vmm where
  covered : AllCovered vmm
  mapped : ∀ index < count, ∃ frame, lookup vmm pml4 (slot index) = some frame

/-- The heap has not shrunk, and its older pages have kept their frames. -/
structure Backed.Keeps (pml4 count : Nat) (vmm after : Vmm) : Prop where
  cr3 : after.cr3 = vmm.cr3
  frames : ∀ index < count, lookup after pml4 (slot index) = lookup vmm pml4 (slot index)

section Backing

variable {pml4 count : Nat} {first vmm : Vmm} (booted : Booted pml4 first)
  (backed : Backed pml4 first count vmm)
include booted backed

/-- A successful loop of `vallocs` maps the pages that it adds to the heap. -/
theorem Backed.maps {zero : Bool} {pages : Nat} {middle : Vmm}
    (loop : vallocsFrom zero (slot count) pml4 pages 0 vmm = .ok (true, middle))
    (extended : Extended pml4 first count pages vmm middle) :
    ∀ index < count + pages, ∃ frame, lookup middle pml4 (slot index) = some frame := by
  have free := backed.few_free booted
  have inside := backed.inside
  obtain ⟨_, mapped⟩ := vallocsFrom_maps booted
    (show Owned pml4 first (count + 0) vmm from backed.owned) backed.cr3
    (by unfold kheapBase PhysicalMemory.pageSize passthruBase at inside; omega) loop
  intro index below
  rcases Nat.lt_or_ge index count with old | new
  · rw [extended.kept index old]
    exact backed.mapped index old
  · obtain ⟨frame, found⟩ := mapped (index - count) (by omega)
    rw [show count + 0 + (index - count) = index by omega] at found
    exact ⟨frame, found⟩

/-- An allocation inside the heap leaves it on its pages. -/
theorem Backed.vallocs {zero : Bool} {pages : Nat} {answer : Nat × Vmm}
    (fits : kheapBase + (count + pages) * PhysicalMemory.pageSize ≤ passthruBase)
    (result : Passthru.vallocs zero pages vmm = .ok answer) :
    ∃ count', Backed pml4 first count' answer.2 ∧ Backed.Keeps pml4 count vmm answer.2 := by
  have few : count + pages ≤ windowPages := by
    unfold windowPages
    unfold kheapBase passthruBase PhysicalMemory.pageSize at *
    omega
  rw [backed.toStanding.passthru booted backed.covered zero (Or.inl few)] at result
  by_cases positive : pages = 0
  · rw [VirtualMemory.vallocs, if_pos positive] at result
    cases result
    exact ⟨count, backed, rfl, fun _ _ => rfl⟩
  · obtain ⟨done, turns, middle, loop, looped, rfl⟩ := backed.loop booted positive result
    have turned := looped.few
    have covered := looped.covered booted backed.owned backed.cr3 (by omega) backed.covered
    cases done with
    | false =>
        have extended := looped.refused
        refine ⟨count, ⟨backed.refused extended, covered, ?_⟩, extended.cr3, extended.kept⟩
        intro index below
        change ∃ frame, lookup middle pml4 (slot index) = some frame
        rw [extended.kept index below]
        exact backed.mapped index below
    | true =>
        have extended := looped.granted.1
        have next : add64 vmm.nextVirt (mul64 pages PhysicalMemory.pageSize) =
            kheapBase + (count + pages) * PhysicalMemory.pageSize := by
          rw [backed.nextVirt]
          unfold add64 mul64 kheapBase PhysicalMemory.pageSize passthruBase at *
          omega
        have mapped := backed.maps booted loop extended
        exact ⟨count + pages, ⟨backed.granted extended next fits, ⟨covered.reached, covered.idle⟩,
          mapped⟩, extended.cr3, extended.kept⟩

omit booted in
/-- Every byte of the heap lies in one of its pages. -/
theorem Backed.page {address : Nat} (above : kheapBase ≤ address) (below : address < vmm.nextVirt) :
    ∃ index < count, address / PhysicalMemory.pageSize = kheapBase / PhysicalMemory.pageSize + index ∧
      pageKey address = pageKey (slot index) ∧ canonical address = true := by
  have inside := backed.inside
  rw [backed.nextVirt] at below
  have low : (address - kheapBase) / PhysicalMemory.pageSize < count := by
    unfold PhysicalMemory.pageSize at *
    omega
  have slotted := slot_eq inside low.le
  refine ⟨(address - kheapBase) / PhysicalMemory.pageSize, low, ?_, ?_, ?_⟩
  · unfold kheapBase PhysicalMemory.pageSize at *
    omega
  · rw [slotted]
    unfold pageKey
    unfold kheapBase PhysicalMemory.pageSize passthruBase at *
    omega
  · unfold canonical
    unfold kheapBase PhysicalMemory.pageSize passthruBase at *
    simp only [Bool.or_eq_true, Bool.and_eq_true, decide_eq_true_eq]
    omega

/-- Every byte of the heap has a frame of its own, which no table lies in. -/
theorem Backed.translates {address : Nat} (above : kheapBase ≤ address) (below : address < vmm.nextVirt) :
    ∃ page, ∃ index < count, address / PhysicalMemory.pageSize =
        kheapBase / PhysicalMemory.pageSize + index ∧
      lookup vmm pml4 (slot index) = some (page * PhysicalMemory.pageSize) ∧
      VirtualMemory.translate vmm address =
        some (page * PhysicalMemory.pageSize + address % PhysicalMemory.pageSize) ∧
      pageUsed first.pmm page = false ∧ pageUsed vmm.pmm page = true ∧
      ¬ IsTable vmm pml4 (page * PhysicalMemory.pageSize) := by
  obtain ⟨index, low, place, same, usable⟩ := backed.page above below
  obtain ⟨frame, found⟩ := backed.mapped index low
  obtain ⟨page, rfl, free, taken, data⟩ := backed.owned.mapped index low frame found
  refine ⟨page, index, low, place, found, ?_, free, taken, data⟩
  refine translate_eq backed.cr3 booted.root usable ?_
  rw [lookup_congr vmm pml4 same]
  exact found

/-- Different bytes of the heap are different bytes of memory. -/
theorem Backed.translates_inj {address other : Nat} (above : kheapBase ≤ address)
    (below : address < vmm.nextVirt) (above' : kheapBase ≤ other) (below' : other < vmm.nextVirt)
    (same : VirtualMemory.translate vmm address = VirtualMemory.translate vmm other) : address = other := by
  obtain ⟨page, index, low, place, found, translated, _⟩ := backed.translates booted above below
  obtain ⟨page', index', low', place', found', translated', _⟩ := backed.translates booted above' below'
  rw [translated, translated'] at same
  have equal := Option.some.inj same
  have frames : page = page' := by
    unfold PhysicalMemory.pageSize at equal
    omega
  have indices := backed.owned.once index low index' low' _ found (frames ▸ found')
  unfold PhysicalMemory.pageSize at *
  omega

end Backing

/-- The heap starts where its first pages were. -/
def SameStart (kernel after : Kernel) : Prop :=
  (after.head = kernel.head ∧ after.heapStart = kernel.heapStart) ∨
    after.heapStart = kernel.vmm.nextVirt

/-- While the cursors agree, a growth asks `vallocs` once and gives nothing back. -/
theorem kmallocGrow_vallocs {size : Nat} {kernel after : Kernel} {grown : Bool}
    (together : Together kernel) (result : kmallocGrow size kernel = .ok (grown, after)) :
    (∃ address, Passthru.vallocs true
      (alignUp size KernelHeap.pageSize / KernelHeap.pageSize) kernel.vmm = .ok (address, after.vmm)) ∧
    SameStart kernel after := by
  unfold kmallocGrow at result
  obtain ⟨⟨address, vmm⟩, granted, rest⟩ := bind_eq_ok.mp result
  dsimp only at rest
  split at rest
  · cases rest
    exact ⟨⟨address, granted⟩, Or.inl ⟨rfl, rfl⟩⟩
  · rename_i nonzero
    rcases vallocs_cursor granted with ⟨null, _⟩ | ⟨_, start, _⟩
    · exact absurd null nonzero
    · split at rest
      · cases rest
        exact ⟨⟨address, granted⟩, Or.inr start⟩
      · rename_i present
        split at rest
        · rename_i apart
          exact absurd (start.trans (together.contiguous present).symm) apart
        · split at rest
          · cases rest
          · cases rest
            exact ⟨⟨address, granted⟩, Or.inl ⟨rfl, rfl⟩⟩

/-- A call of `kmalloc` leaves the virtual allocator alone, or asks it once for the growth. -/
theorem kmalloc_vallocs {size pointer : Nat} {kernel after : Kernel} (together : Together kernel)
    (result : kmalloc size kernel = .ok (pointer, after)) :
    (after.vmm = kernel.vmm ∨
      findChunk kernel.memory (requiredLength size) walkBound kernel.head = some 0 ∧
        ∃ address, Passthru.vallocs true (growthBytes size / KernelHeap.pageSize) kernel.vmm =
          .ok (address, after.vmm)) ∧
    SameStart kernel after := by
  cases kmalloc_course result with
  | nothing none => exact ⟨Or.inl rfl, Or.inl ⟨rfl, rfl⟩⟩
  | taken some present search => exact ⟨Or.inl rfl, Or.inl ⟨rfl, rfl⟩⟩
  | refused some search grow =>
      obtain ⟨asked, start⟩ := kmallocGrow_vallocs together grow
      exact ⟨Or.inr ⟨search, asked⟩, start⟩
  | missing some search grow again =>
      obtain ⟨asked, start⟩ := kmallocGrow_vallocs together grow
      exact ⟨Or.inr ⟨search, asked⟩, start⟩
  | grown some search grow present again =>
      obtain ⟨asked, start⟩ := kmallocGrow_vallocs together grow
      exact ⟨Or.inr ⟨search, asked⟩, start⟩

/-- Where a byte of virtual memory lies in physical memory. -/
def Kernel.place (kernel : Kernel) (address : Nat) : Option Nat :=
  VirtualMemory.translate kernel.vmm address

/-- The kernel with the blocks that clients of its heap own. -/
structure Client where
  kernel : Kernel
  live : List Block

/-- What clients do: they call the allocator and store bytes. -/
inductive Call where
  | kmalloc (size : Nat)
  | kfree (ptr : Nat)
  | store (address : Nat) (value : UInt8)
  deriving DecidableEq, Repr

/-- The clients after a call, or the way in which the kernel stopped. -/
def Client.act : Except Stop Client → Call → Except Stop Client
  | .error stop, _ => .error stop
  | .ok client, .kmalloc size =>
      (kmalloc size client.kernel).map fun result =>
        ⟨result.2, if result.1 = 0 then client.live else ⟨result.1, size⟩ :: client.live⟩
  | .ok client, .kfree ptr =>
      .ok ⟨kfree ptr client.kernel, client.live.filter fun block => block.ptr ≠ ptr⟩
  | .ok client, .store address value =>
      .ok { client with
        kernel := { client.kernel with memory := client.kernel.memory.fill address 1 value } }

/-- Clients ask for sizes up to `2 ^ 62`, free live pointers of chunks that do not lie between two free
ones, and store into blocks that they own; the heap grows inside its window. -/
def Client.Legal : Except Stop Client → Call → Prop
  | .error _, _ => True
  | .ok client, .kmalloc size => 1 ≤ size ∧ size ≤ 2 ^ 62 ∧
      (findChunk client.kernel.memory (requiredLength size) walkBound client.kernel.head = some 0 →
        client.kernel.vmm.nextVirt + growthBytes size ≤ passthruBase)
  | .ok client, .kfree ptr => (∃ block ∈ client.live, block.ptr = ptr) ∧
      ¬ BetweenFree client.kernel.memory (sub64 ptr headerSize)
  | .ok client, .store address _ => ∃ block ∈ client.live, block.Covers address

/-- The clients as the heap alone sees them. -/
def Client.session (client : Client) : KernelHeap.Session := ⟨client.kernel.heap, client.live⟩

/-- The heap on its pages. -/
structure Stacked (pml4 : Nat) (first : Vmm) (count : Nat) (chunks : List Chunk) (client : Client) :
    Prop where
  backed : Backed pml4 first count client.kernel.vmm
  together : Together client.kernel
  tracked : Tracked client.session chunks
  start : client.kernel.head ≠ 0 → kheapBase ≤ client.kernel.heapStart

/-- A call keeps the frame of every byte of the blocks that are live before it. -/
def Client.KeepsFrames : Except Stop Client → Call → Prop
  | .error _, _ => True
  | .ok client, call => ∀ after, Client.act (.ok client) call = .ok after → ∀ block ∈ client.live,
      ∀ address, block.Covers address →
        after.kernel.place address = client.kernel.place address

section Calls

variable {pml4 count : Nat} {first : Vmm} {chunks : List Chunk} {client : Client}
  (booted : Booted pml4 first) (stacked : Stacked pml4 first count chunks client)
include stacked

/-- The bytes of live blocks are bytes of the heap. -/
theorem Stacked.inside {block : Block} (member : block ∈ client.live) {address : Nat}
    (covers : block.Covers address) :
    kheapBase ≤ address ∧ address < client.kernel.vmm.nextVirt := by
  obtain ⟨chunk, present, _⟩ := stacked.tracked.served block member
  have shape := stacked.tracked.shape
  have present : chunks ≠ [] := List.ne_nil_of_mem present
  have head : client.kernel.head ≠ 0 := by
    have reaches := shape.reaches
    cases chunks with
    | nil => exact absurd rfl present
    | cons chunk rest =>
        obtain ⟨same, nonzero, _⟩ := reaches
        change client.kernel.head = chunk.address at same
        rwa [same]
  obtain ⟨lower, upper⟩ := stacked.tracked.isolated.inside block member
  have start := stacked.start head
  have stop := shape.nextVirt present
  obtain ⟨low, high⟩ := covers
  change client.kernel.vmm.nextVirt = client.kernel.heapEnd at stop
  change client.kernel.heapStart ≤ block.ptr at lower
  change block.ptr + block.size ≤ client.kernel.heapEnd at upper
  omega

include booted

/-- A request keeps the heap on its pages and the pages on their frames. -/
theorem Stacked.kmalloc {size : Nat} (legal : Client.Legal (.ok client) (.kmalloc size)) {after : Client}
    (result : Client.act (.ok client) (.kmalloc size) = .ok after) :
    (∃ count' chunks', Stacked pml4 first count' chunks' after) ∧
      Backed.Keeps pml4 count client.kernel.vmm after.kernel.vmm := by
  obtain ⟨positive, bounded, roomy⟩ := legal
  have together := stacked.together
  have limit := stacked.backed.nextVirt
  cases value : GrowingHeap.kmalloc size client.kernel with
  | error stop => simp [Client.act, value, Except.map] at result
  | ok returned =>
      obtain ⟨pointer, kernel⟩ := returned
      simp only [Client.act, value, Except.map, Except.ok.injEq] at result
      subst result
      have unwrapped : Unwrapped (.ok client.kernel) (.kmalloc size) := by
        intro search
        have room := roomy search
        unfold passthruBase at room
        omega
      obtain ⟨granted, refined⟩ := kmalloc_refines together unwrapped value
      obtain ⟨session, chunks', acted, tracked, _⟩ := stacked.tracked.kmalloc granted positive bounded
      have answered : session = ⟨kernel.heap,
          if pointer = 0 then client.live else ⟨pointer, size⟩ :: client.live⟩ := by
        simp only [KernelHeap.Session.act, Client.session, refined, Option.map_some,
          Option.some.injEq] at acted
        exact acted.symm
      obtain ⟨asked, start⟩ := kmalloc_vallocs together value
      have next : ∃ count', Backed pml4 first count' kernel.vmm ∧
          Backed.Keeps pml4 count client.kernel.vmm kernel.vmm := by
        rcases asked with same | ⟨search, address, asked⟩
        · rw [same]
          exact ⟨count, stacked.backed, rfl, fun _ _ => rfl⟩
        · have room := roomy search
          have whole : growthBytes size / KernelHeap.pageSize * KernelHeap.pageSize = growthBytes size :=
            (alignUp_pages _).1
          refine stacked.backed.vallocs booted ?_ asked
          rw [Nat.add_mul]
          unfold KernelHeap.pageSize PhysicalMemory.pageSize at *
          omega
      obtain ⟨count', backed, keeps⟩ := next
      refine ⟨⟨count', chunks', backed, kmalloc_together together unwrapped value, ?_, ?_⟩, keeps⟩
      · rw [answered] at tracked
        exact tracked
      · intro present
        rcases start with ⟨head, start⟩ | start
        · rw [start]
          exact stacked.start (head ▸ present)
        · change kheapBase ≤ kernel.heapStart
          rw [start, limit]
          omega

omit booted in
/-- A free uses neither page tables nor physical pages. -/
theorem Stacked.kfree {ptr : Nat} (legal : Client.Legal (.ok client) (.kfree ptr)) {after : Client}
    (result : Client.act (.ok client) (.kfree ptr) = .ok after) :
    (∃ count' chunks', Stacked pml4 first count' chunks' after) ∧
      after.kernel.vmm = client.kernel.vmm := by
  obtain ⟨⟨block, member, rfl⟩, spares⟩ := legal
  obtain ⟨session, chunks', acted, tracked, _⟩ := stacked.tracked.kfree member spares
  obtain ⟨memory, freed⟩ := kfree_memory block.ptr client.kernel.heap
  have heap := kfree_heap block.ptr client.kernel
  have vmm := kfree_vmm block.ptr client.kernel
  cases result
  refine ⟨⟨count, chunks', ?_, kfree_together stacked.together _, ?_, ?_⟩, vmm⟩
  · dsimp only
    rw [vmm]
    exact stacked.backed
  · rw [← Option.some.inj acted] at tracked
    change Tracked ⟨(GrowingHeap.kfree block.ptr client.kernel).heap, _⟩ chunks'
    rw [heap]
    exact tracked
  · change (GrowingHeap.kfree block.ptr client.kernel).heap.head ≠ 0 →
      kheapBase ≤ (GrowingHeap.kfree block.ptr client.kernel).heap.heapStart
    rw [heap, freed]
    exact stacked.start

omit booted in
/-- A store into a live block changes no table. -/
theorem Stacked.store {address : Nat} {value : UInt8}
    (legal : Client.Legal (.ok client) (.store address value)) {after : Client}
    (result : Client.act (.ok client) (.store address value) = .ok after) :
    (∃ count' chunks', Stacked pml4 first count' chunks' after) ∧
      after.kernel.vmm = client.kernel.vmm := by
  obtain ⟨block, member, covers⟩ := legal
  cases result
  exact ⟨⟨count, chunks, stacked.backed, stacked.together.memory _,
    stacked.tracked.store member covers value, stacked.start⟩, rfl⟩

/-- Pages that keep their frames keep the translation of every byte of a live block. -/
theorem Stacked.keepsFrames {after : Client}
    (keeps : Backed.Keeps pml4 count client.kernel.vmm after.kernel.vmm) {block : Block}
    (member : block ∈ client.live) {address : Nat} (covers : block.Covers address) :
    after.kernel.place address = client.kernel.place address := by
  obtain ⟨above, below⟩ := stacked.inside member covers
  obtain ⟨index, low, _, same, usable⟩ := stacked.backed.page above below
  have root : client.kernel.vmm.cr3 &&& pteAddrMask = pml4 := by rw [stacked.backed.cr3, booted.root]
  unfold Kernel.place VirtualMemory.translate
  rw [if_pos usable, if_pos usable, keeps.cr3, root, lookup_congr after.kernel.vmm pml4 same,
    lookup_congr client.kernel.vmm pml4 same, keeps.frames index low]

/-- A legal call keeps the heap on its pages, and the bytes of live blocks in their frames. -/
theorem Stacked.act {call : Call} (legal : Client.Legal (.ok client) call) {after : Client}
    (result : Client.act (.ok client) call = .ok after) :
    (∃ count' chunks', Stacked pml4 first count' chunks' after) ∧ ∀ block ∈ client.live,
      ∀ address, block.Covers address →
        after.kernel.place address = client.kernel.place address := by
  cases call with
  | kmalloc size =>
      obtain ⟨next, keeps⟩ := stacked.kmalloc booted legal result
      exact ⟨next, fun _ member _ covers => stacked.keepsFrames booted keeps member covers⟩
  | kfree ptr =>
      obtain ⟨next, same⟩ := stacked.kfree legal result
      exact ⟨next, fun _ _ _ _ => by rw [Kernel.place, Kernel.place, same]⟩
  | store address value =>
      obtain ⟨next, same⟩ := stacked.store legal result
      exact ⟨next, fun _ _ _ _ => by rw [Kernel.place, Kernel.place, same]⟩

end Calls

/-- The blocks in physical memory: every byte lies in a page that was free after the start, that the
allocator still holds as taken and that holds no page table, and no two bytes share their place. -/
structure Physical (first : Vmm) (client : Client) : Prop where
  placed : ∀ block ∈ client.live, ∀ address, block.Covers address → ∃ page,
    client.kernel.place address =
      some (page * PhysicalMemory.pageSize + address % PhysicalMemory.pageSize) ∧
    pageUsed first.pmm page = false ∧ pageUsed client.kernel.vmm.pmm page = true ∧
    ¬ IsTable client.kernel.vmm client.kernel.vmm.cr3 (page * PhysicalMemory.pageSize)
  apart : ∀ left ∈ client.live, ∀ right ∈ client.live, ∀ address other, left.Covers address →
    right.Covers other → client.kernel.place address = client.kernel.place other →
      left = right ∧ address = other

/-- Live blocks lie on frames of their own. -/
theorem Stacked.physical {pml4 count : Nat} {first : Vmm} {chunks : List Chunk} {client : Client}
    (booted : Booted pml4 first) (stacked : Stacked pml4 first count chunks client) :
    Physical first client where
  placed := by
    intro block member address covers
    obtain ⟨above, below⟩ := stacked.inside member covers
    obtain ⟨page, index, _, _, _, translated, free, taken, data⟩ :=
      stacked.backed.translates booted above below
    refine ⟨page, translated, free, taken, ?_⟩
    rw [stacked.backed.cr3]
    exact data
  apart := by
    intro left leftMember right rightMember address other leftCovers rightCovers same
    obtain ⟨above, below⟩ := stacked.inside leftMember leftCovers
    obtain ⟨above', below'⟩ := stacked.inside rightMember rightCovers
    have equal := stacked.backed.translates_inj booted above below above' below' same
    subst equal
    refine ⟨?_, rfl⟩
    by_contra different
    have symmetric : Std.Symm fun left right : Block =>
        ∀ address, ¬ (left.Covers address ∧ right.Covers address) :=
      ⟨fun _ _ apart address both => apart address both.symm⟩
    have isolated := stacked.tracked.isolated.disjoint
    exact isolated.forall leftMember rightMember different address ⟨leftCovers, rightCovers⟩

/-- The clients before the first call: `kmalloc_init` runs after `init_memory`. -/
def Client.start (memory : Memory) (first : Vmm) : Client :=
  ⟨kmallocInit ⟨memory, 0, 0, 0, first, []⟩, []⟩

/-- At first no block is live. -/
theorem Booted.stacked {pml4 : Nat} {first : Vmm} (booted : Booted pml4 first)
    (covered : AllCovered first) (memory : Memory) :
    Stacked pml4 first 0 [] (Client.start memory first) where
  backed :=
    { booted.invariant.toStanding with
      covered := covered
      mapped := fun _ impossible => absurd impossible (Nat.not_lt_zero _) }
  together :=
    { positive := by
        change 0 < first.nextVirt
        rw [booted.nextVirt]
        decide
      contiguous := fun present => absurd rfl present
      silent := fun _ _ member => by cases member }
  tracked := Tracked.initial ⟨memory, 0, 0, 0, first.nextVirt⟩ (by
    change 0 < first.nextVirt
    rw [booted.nextVirt]
    decide)
  start := fun present => absurd rfl present

/-- The state of the run: the kernel stopped, or its heap stands on its pages. -/
def StaysStacked (pml4 : Nat) (first : Vmm) (state : Except Stop Client) : Prop :=
  ∀ client, state = .ok client → ∃ count chunks, Stacked pml4 first count chunks client

/-- One call keeps the frames of the live blocks. -/
theorem stacked_step {pml4 : Nat} {first : Vmm} (booted : Booted pml4 first)
    (state : Except Stop Client) (call : Call) (stacked : StaysStacked pml4 first state)
    (legal : Client.Legal state call) :
    StaysStacked pml4 first (Client.act state call) ∧ Client.KeepsFrames state call := by
  cases state with
  | error stop => exact ⟨fun _ impossible => (nomatch impossible), trivial⟩
  | ok client =>
      obtain ⟨count, chunks, stacked⟩ := stacked client rfl
      exact ⟨fun after result => (stacked.act booted legal result).1,
        fun after result => (stacked.act booted legal result).2⟩

/-- Two requests that make the heap grow, a write to the first block and its release. -/
def exchange : List Call :=
  [.kmalloc 100, .kmalloc 70000, .store (kheapBase + 40) 7, .kfree (kheapBase + 32)]

end ArchaOS.GrowingHeap
