import ArchaOS.Proof.BootExit.Handover
import ArchaOS.Proof.PhysicalMemory.Confinement

namespace ArchaOS.BootExit

open Library KernelImage FileLoading PhysicalMemory

/-- The memory that holds a list of bytes from address zero on. -/
def listed (bytes : List UInt8) : Memory where
  byte := fun index => bytes.getD index 0

/-- The records of a memory map that the firmware has written down. -/
def recordsOf (bytes : List UInt8) (stride : Nat) : MemoryMap where
  size := bytes.length
  descriptorSize := stride
  descriptor := fun index =>
    if index < bytes.length / stride then descriptorAt (listed bytes) (index * stride) else ⟨0, 0, 0⟩

/-- A number in a held buffer is read from its bytes. -/
theorem holds_read {memory : Memory} {address : Nat} {bytes : List UInt8}
    (holds : memory.Holds address bytes) {offset count : Nat} (within : offset + count ≤ bytes.length) :
    memory.read (address + offset) count = (listed bytes).read offset count := by
  induction count generalizing offset with
  | zero => rfl
  | succ count ih =>
      have first : memory.byte (address + offset) = (listed bytes).byte offset := by
        have inside : offset < bytes.length := by omega
        simp [holds offset inside, listed, inside]
      have rest := @ih (offset + 1) (by omega)
      rw [← Nat.add_assoc] at rest
      rw [Memory.read, Memory.read, first, rest]

/-- A descriptor in a held buffer is read from its bytes. -/
theorem holds_descriptor {memory : Memory} {address : Nat} {bytes : List UInt8}
    (holds : memory.Holds address bytes) {offset : Nat} (within : offset + 32 ≤ bytes.length) :
    descriptorAt memory (address + offset) = descriptorAt (listed bytes) offset := by
  unfold descriptorAt
  rw [holds_read holds (by omega), Nat.add_assoc, holds_read holds (by omega), Nat.add_assoc,
    holds_read holds (by omega)]

/-- What the firmware documents of its memory maps: the records are wide enough, their ranges are
aligned and fit, and conventional memory belongs to nobody. -/
structure Describes (owned : State → Nat → Prop) (map : State → List UInt8) (stride : Nat) : Prop where
  wide : 40 ≤ stride
  aligned : ∀ firmware, ∀ desc ∈ (recordsOf (map firmware) stride).descriptors,
    desc.physicalStart % pageSize = 0
  fits : ∀ firmware, ∀ desc ∈ (recordsOf (map firmware) stride).descriptors,
    desc.physicalStart + desc.numberOfPages * pageSize < 2 ^ 64
  free : ∀ firmware byte, (recordsOf (map firmware) stride).Conventional byte → ¬ owned firmware byte

section Kernel

variable {State : Type} {owned : State → Nat → Prop} {map : State → List UInt8} {stride : Nat}

/-- The map of the firmware as `init_pmm` takes it. -/
def Describes.firmwareMap (describes : Describes owned map stride) (firmware : State) :
    FirmwareMap where
  toMemoryMap := recordsOf (map firmware) stride
  stride := by
    have wide := describes.wide
    change 0 < stride
    omega
  aligned := by
    intro index
    by_cases inside : index < (map firmware).length / stride
    · exact describes.aligned firmware _ (List.mem_map.mpr ⟨index, List.mem_range.mpr inside, rfl⟩)
    · simp [recordsOf, inside]
  fits := by
    intro index
    by_cases inside : index < (map firmware).length / stride
    · exact describes.fits firmware _ (List.mem_map.mpr ⟨index, List.mem_range.mpr inside, rfl⟩)
    · simp [recordsOf, inside]

variable {left : State → Prop} {facts : BootFacts} {kept : Nat → Prop} {handover : Handover State}

/-- The kernel reads the records of the firmware. -/
theorem Handed.descriptors (handed : Handed owned map stride left facts kept handover)
    (wide : 40 ≤ stride) : handover.kernelMap.descriptors =
      (recordsOf (map handover.firmware) stride).descriptors := by
  have entries : handover.kernelMap.entries = (map handover.firmware).length / stride := by
    change handover.memoryMapSize / handover.memoryDescriptorSize = _
    rw [handed.size, handed.stride]
  rw [MemoryMap.descriptors, entries]
  apply List.map_congr_left
  intro index member
  have inside := List.mem_range.mp member
  have last : (index + 1) * stride ≤ (map handover.firmware).length :=
    (Nat.mul_le_mul_right stride inside).trans (Nat.div_mul_le_self _ _)
  rw [Nat.add_mul, Nat.one_mul] at last
  change descriptorAt handover.memory (handover.memoryMap + index * handover.memoryDescriptorSize) =
    if index < (map handover.firmware).length / stride then
      descriptorAt (listed (map handover.firmware)) (index * stride) else ⟨0, 0, 0⟩
  rw [if_pos inside, handed.stride]
  exact holds_descriptor handed.current (by omega)

/-- The byte belongs to the boot information or to the map that it names. -/
def Handover.Uses (handover : Handover State) (byte : Nat) : Prop :=
  (handover.bootInfo ≤ byte ∧ byte < handover.bootInfo + sizeofBootInfo) ∨
    (handover.memoryMap ≤ byte ∧ byte < handover.memoryMap + handover.memoryMapSize)

/-- What is kept or used of the handover is owned. -/
theorem Handed.owned_of_uses (handed : Handed owned map stride left facts kept handover) {byte : Nat}
    (uses : kept byte ∨ handover.Uses byte) : owned handover.firmware byte := by
  rcases uses with held | ⟨lower, upper⟩ | ⟨lower, upper⟩
  · exact handed.held byte held
  · exact handed.info byte lower upper
  · exact handed.buffer byte lower upper

/-- A byte is in no page that a client of the manager holds, and not in its bitmap. -/
structure Untouched (session : Session) (byte : Nat) : Prop where
  live : ∀ address ∈ session.live, byte < address ∨ address + pageSize ≤ byte
  bitmap : byte < session.pmm.bitmapAddr ∨ session.pmm.bitmapAddr + session.pmm.sizeofBitmap ≤ byte

/-- A session inside the map touches no byte outside its conventional ranges. -/
theorem untouched_of_inside {records : MemoryMap} {session : Session}
    (inside : InsideMap records session) {byte : Nat} (other : ¬ records.Conventional byte) :
    Untouched session byte := by
  constructor
  · intro address held
    by_contra covered
    exact other (inside.live address held byte (by omega) (by omega))
  · by_contra covered
    exact other (inside.bitmap byte (by omega) (by omega))

/-- Whatever the firmware does to its memory map between the calls: when `efi_main` jumps into the
kernel, the boot services have ended, and the kernel reads from the boot information exactly the records
of the map with which they ended. -/
theorem kernelMap_current {services : MapServices State} {key : State → Nat}
    (documented : Documented services owned map key stride left) (wide : 40 ≤ stride)
    (narrow : stride < 2 ^ 64) (firmware : State) (memory : Memory)
    (returned : finishBoot services facts firmware memory = .ok handover) :
    Handed owned map stride left facts (owned firmware) handover ∧
      handover.kernelMap.descriptors = (recordsOf (map handover.firmware) stride).descriptors := by
  have handed := finishBoot_handed documented narrow facts firmware memory handover returned
  exact ⟨handed, handed.descriptors wide⟩

/-- From the boot loader to the page allocator: whatever the firmware does to its map meanwhile, the
manager that the kernel builds from the map in the boot information never hands out a byte of the memory
that the loader has allocated (the kernel image, the ramdisk, the page tables), of the boot information
or of the map, and it does not place its bitmap there. -/
theorem kernelPages_untouched {services : MapServices State} {key : State → Nat}
    (documented : Documented services owned map key stride left)
    (describes : Describes owned map stride) (narrow : stride < 2 ^ 64) (firmware : State)
    (memory : Memory) (returned : finishBoot services facts firmware memory = .ok handover)
    (old : PackedBits.Bytes) (start pmm : Pmm)
    (initialised : initPmm handover.kernelMap old start = .ok pmm) (requests : List Request)
    (legal : Guarded Session.step Session.Legal ⟨pmm, []⟩ requests) :
    ∀ reached ∈ visited Session.step ⟨pmm, []⟩ requests, ∀ byte,
      owned firmware byte ∨ handover.Uses byte → Untouched reached byte := by
  have handed := finishBoot_handed documented narrow facts firmware memory handover returned
  rw [initPmm_congr (handed.descriptors describes.wide)] at initialised
  have built : Initialised (describes.firmwareMap handover.firmware).toMemoryMap pmm :=
    initPmm_initialised initialised
  intro reached member byte uses
  apply untouched_of_inside (insideMap_run built legal reached member)
  intro conventional
  exact describes.free handover.firmware byte conventional (handed.owned_of_uses uses)

end Kernel

/-- A firmware with sixteen pages, which hands out the highest ones first. The first attempt to leave it
takes one more page. -/
structure SixteenPages where
  free : Nat
  below : free ≤ 16
  settled : Bool
  exited : Bool

/-- One descriptor for the conventional pages above page zero and one for the pages of the loader. -/
def SixteenPages.descriptors (free : Nat) : List EfiMemoryDescriptor :=
  [⟨efiConventionalMemory, pageSize, free - 1⟩, ⟨2, free * pageSize, 16 - free⟩]

def SixteenPages.records (free : Nat) : List UInt8 :=
  (SixteenPages.descriptors free).flatMap fun desc =>
    (List.range 48).map ((listed []).storeFields 0
      [⟨0, 4, desc.type⟩, ⟨8, 8, desc.physicalStart⟩, ⟨24, 8, desc.numberOfPages⟩]).byte

def SixteenPages.take (firmware : SixteenPages) (pages : Nat) : SixteenPages :=
  { firmware with free := firmware.free - pages, below := by have := firmware.below; omega }

def SixteenPages.owned (firmware : SixteenPages) (byte : Nat) : Prop :=
  firmware.free * pageSize ≤ byte ∧ byte < 16 * pageSize

def sixteenPages : MapServices SixteenPages where
  allocatePages firmware pages highest :=
    if pages ≤ firmware.free ∧ firmware.free * pageSize ≤ highest + 1 then
      (⟨0, (firmware.free - pages) * pageSize⟩, firmware.take pages)
    else (⟨efiInvalidParameter, highest⟩, firmware)
  getMemoryMap firmware memory size buffer :=
    if 96 ≤ size then
      (⟨0, 96, firmware.free, 48⟩, firmware, ⟨fun other =>
        if buffer ≤ other ∧ other < buffer + 96 then
          (SixteenPages.records firmware.free).getD (other - buffer) 0
        else memory.byte other⟩)
    else (⟨efiBufferTooSmall, 96, firmware.free, 48⟩, firmware, memory)
  exitBootServices firmware key :=
    if key = firmware.free ∧ firmware.settled then (0, { firmware with exited := true })
    else (efiInvalidParameter, { firmware.take 1 with settled := true })
  println firmware _ := firmware

theorem SixteenPages.records_length (free : Nat) : (SixteenPages.records free).length = 96 := by
  simp [SixteenPages.records, SixteenPages.descriptors]

/-- Taking pages from the firmware gives up no byte that it owns otherwise. -/
theorem SixteenPages.owned_take {firmware : SixteenPages} {byte : Nat} (pages : Nat)
    (held : firmware.owned byte) : (firmware.take pages).owned byte := by
  obtain ⟨lower, upper⟩ := held
  exact ⟨(Nat.mul_le_mul_right _ (Nat.sub_le _ _)).trans lower, upper⟩

theorem efiInvalidParameter_error : efiError efiInvalidParameter := by decide

theorem efiBufferTooSmall_error : efiError efiBufferTooSmall := by decide

/-- The firmware with sixteen pages behaves as documented. -/
theorem sixteenPages_documented : Documented sixteenPages SixteenPages.owned
    (fun firmware => SixteenPages.records firmware.free) SixteenPages.free 48
    (fun firmware => firmware.exited = true) where
  granted := by
    intro firmware pages highest
    have below := firmware.below
    dsimp only [sixteenPages]
    split
    · rename_i room
      intro _
      dsimp only [SixteenPages.owned, SixteenPages.take]
      unfold pageSize at *
      constructor
      · omega
      · intro byte lower upper
        omega
    · intro fine
      exact absurd efiInvalidParameter_error fine
  keptAllocating := by
    intro firmware pages highest byte held
    dsimp only [sixteenPages]
    split
    · exact SixteenPages.owned_take pages held
    · exact held
  keptMapping := by
    intro firmware memory size buffer byte held
    dsimp only [sixteenPages]
    split <;> exact held
  keptPrinting := fun firmware text byte held => held
  keptExiting := by
    intro firmware value byte held
    dsimp only [sixteenPages]
    split
    · exact held
    · exact SixteenPages.owned_take 1 held
  fetched := by
    intro firmware memory size buffer
    have length := SixteenPages.records_length firmware.free
    dsimp only [sixteenPages]
    split
    · rename_i room
      intro _
      refine ⟨length.symm, room, rfl, rfl, ?_, ?_⟩
      · intro index inside
        dsimp only at inside ⊢
        have low : index < 96 := length ▸ inside
        simp [low, inside]
      · intro byte _ outside
        exact if_neg (by omega)
    · intro fine
      exact absurd efiBufferTooSmall_error fine
  exits := by
    intro firmware value
    dsimp only [sixteenPages]
    split
    · rename_i current
      exact fun _ => ⟨rfl, current.1.symm⟩
    · intro fine
      exact absurd efiInvalidParameter_error fine
  identifies := fun first second same => congrArg SixteenPages.records same

/-- The records of the firmware describe its free and its taken pages. -/
theorem sixteenPages_records : ∀ free : Fin 17,
    (recordsOf (SixteenPages.records free) 48).descriptors = SixteenPages.descriptors free := by
  decide +kernel

/-- The records of the firmware describe what it owns. -/
theorem sixteenPages_describes : Describes SixteenPages.owned
    (fun firmware => SixteenPages.records firmware.free) 48 := by
  have records (firmware : SixteenPages) := sixteenPages_records
    ⟨firmware.free, Nat.lt_succ_of_le firmware.below⟩
  refine ⟨by decide, ?_, ?_, ?_⟩
  · intro firmware desc member
    rw [records firmware] at member
    simp only [SixteenPages.descriptors, List.mem_cons, List.not_mem_nil, or_false] at member
    rcases member with rfl | rfl <;> simp [pageSize]
  · intro firmware desc member
    have below := firmware.below
    rw [records firmware] at member
    simp only [SixteenPages.descriptors, List.mem_cons, List.not_mem_nil, or_false] at member
    unfold pageSize at *
    rcases member with rfl | rfl <;> dsimp only <;> omega
  · rintro firmware byte ⟨desc, member, conventional, lower, upper⟩ held
    rw [records firmware] at member
    simp only [SixteenPages.descriptors, List.mem_cons, List.not_mem_nil, or_false] at member
    unfold SixteenPages.owned at held
    unfold pageSize at *
    rcases member with rfl | rfl
    · dsimp only at lower upper
      omega
    · cases conventional

def twelveFree : SixteenPages := ⟨12, by decide, false, false⟩

def smallFacts : BootFacts :=
  ⟨0x80000000, 0x1000, 640, 480, 640, 1, 0xC000, 0x1000, 0xD000, 0xE000, 0xFFFFFFFF80000000,
    0xFFFFFFFF80001000⟩

/-- Here the first `ExitBootServices` fails. -/
def smallHandover : Handover SixteenPages :=
  (finishBoot sixteenPages smallFacts twelveFree (listed [])).toOption.getD ⟨0, twelveFree, listed []⟩

theorem smallHandover_returned :
    finishBoot sixteenPages smallFacts twelveFree (listed []) = .ok smallHandover := rfl

def smallPmm : Pmm :=
  (initPmm smallHandover.kernelMap (fun _ => 0#8) blankPmm).toOption.getD blankPmm

theorem smallPmm_initialised :
    initPmm smallHandover.kernelMap (fun _ => 0#8) blankPmm = .ok smallPmm := rfl

/-- The second attempt of a small boot succeeds, and the kernel gets the current map. -/
theorem kernelMap_current_sixteenPages :
    Handed SixteenPages.owned (fun firmware => SixteenPages.records firmware.free) 48
      (fun firmware => firmware.exited = true) smallFacts twelveFree.owned smallHandover ∧
    smallHandover.kernelMap.descriptors =
      (recordsOf (SixteenPages.records smallHandover.firmware.free) 48).descriptors :=
  kernelMap_current sixteenPages_documented (by decide) (by decide) twelveFree (listed [])
    smallHandover_returned

/-- Two pages of a small machine are taken and one is freed. -/
theorem kernelPages_untouched_sixteenPages :
    Guarded Session.step Session.Legal ⟨smallPmm, []⟩ [.palloc, .palloc, .pfree 0x2000] ∧
    ∀ reached ∈ visited Session.step ⟨smallPmm, []⟩ [.palloc, .palloc, .pfree 0x2000], ∀ byte,
      twelveFree.owned byte ∨ smallHandover.Uses byte → Untouched reached byte := by
  have legal : Guarded Session.step Session.Legal ⟨smallPmm, []⟩
      [.palloc, .palloc, .pfree 0x2000] := by
    decide +kernel
  exact ⟨legal, kernelPages_untouched sixteenPages_documented sixteenPages_describes (by decide)
    twelveFree (listed []) smallHandover_returned (fun _ => 0#8) blankPmm smallPmm
    smallPmm_initialised _ legal⟩

end ArchaOS.BootExit
