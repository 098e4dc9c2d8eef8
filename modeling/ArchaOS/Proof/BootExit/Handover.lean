import ArchaOS.Construction.BootExit
import ArchaOS.Library.Outcome
import ArchaOS.Proof.KernelImage.Segments

namespace ArchaOS.BootExit

open Library KernelImage FileLoading

variable {State : Type}

/-- What the firmware documents of these services. `owned` tells the bytes of the pages that it has
handed out, `map` and `key` the memory map and its key, `stride` the size of its descriptors, and `left`
that the boot services have ended. Between the calls the firmware may change the map. -/
structure Documented (services : MapServices State) (owned : State → Nat → Prop)
    (map : State → List UInt8) (key : State → Nat) (stride : Nat) (left : State → Prop) : Prop where
  granted : ∀ firmware pages highest,
    let answer := services.allocatePages firmware pages highest
    ¬ efiError answer.1.status → answer.1.address + 4096 * pages ≤ highest + 1 ∧
      ∀ byte, answer.1.address ≤ byte → byte < answer.1.address + 4096 * pages →
        ¬ owned firmware byte ∧ owned answer.2 byte
  keptAllocating : ∀ firmware pages highest byte, owned firmware byte →
    owned (services.allocatePages firmware pages highest).2 byte
  keptMapping : ∀ firmware memory size buffer byte, owned firmware byte →
    owned (services.getMemoryMap firmware memory size buffer).2.1 byte
  keptPrinting : ∀ firmware text byte, owned firmware byte → owned (services.println firmware text) byte
  keptExiting : ∀ firmware value byte, owned firmware byte →
    owned (services.exitBootServices firmware value).2 byte
  fetched : ∀ firmware memory size buffer,
    let answer := services.getMemoryMap firmware memory size buffer
    ¬ efiError answer.1.status → answer.1.size = (map answer.2.1).length ∧ answer.1.size ≤ size ∧
      answer.1.key = key answer.2.1 ∧ answer.1.descriptorSize = stride ∧
      answer.2.2.Holds buffer (map answer.2.1) ∧
      ∀ byte, owned firmware byte → byte < buffer ∨ buffer + size ≤ byte →
        answer.2.2.byte byte = memory.byte byte
  exits : ∀ firmware value, ¬ efiError (services.exitBootServices firmware value).1 →
    left (services.exitBootServices firmware value).2 ∧
      key (services.exitBootServices firmware value).2 = value
  identifies : ∀ first second, key first = key second → map first = map second

/-- The stores to `bootInfo` that do not depend on the size of the map. -/
def fixedStores (facts : BootFacts) (memoryMap : Nat) : List FieldStore :=
  (bootInfoStores facts memoryMap 0 0).take 15

/-- The two stores that are repeated with a new map. -/
def sizeStores (memoryMapSize descriptorSize : Nat) : List FieldStore :=
  [⟨memoryMapSizeOffset, 8, memoryMapSize⟩, ⟨memoryDescriptorSizeOffset, 8, descriptorSize⟩]

/-- The stores of the boot record are those before the memory map and those of its sizes. -/
theorem bootInfoStores_split (facts : BootFacts) (memoryMap size stride : Nat) :
    bootInfoStores facts memoryMap size stride = fixedStores facts memoryMap ++ sizeStores size stride :=
  rfl

/-- Every field of the boot record lies in the record. -/
theorem bootInfoStores_inside (facts : BootFacts) (memoryMap size stride : Nat) :
    ∀ field ∈ bootInfoStores facts memoryMap size stride, field.offset + field.size ≤ sizeofBootInfo := by
  simp [bootInfoStores, sizeofBootInfo, memoryMapOffset, memoryMapSizeOffset, memoryDescriptorSizeOffset]

/-- The fields of `BootInfo` do not overlap. -/
theorem bootInfoStores_apart (facts : BootFacts) (memoryMap size stride : Nat) :
    (bootInfoStores facts memoryMap size stride).Pairwise fun first second =>
      first.offset + first.size ≤ second.offset ∨ second.offset + second.size ≤ first.offset := by
  simp [bootInfoStores, memoryMapOffset, memoryMapSizeOffset, memoryDescriptorSizeOffset]

/-- The record at an address holds the values of its fields. -/
def HoldsFields (memory : Memory) (base : Nat) (fields : List FieldStore) : Prop :=
  ∀ field ∈ fields, memory.read (base + field.offset) field.size = field.value % 256 ^ field.size

/-- A field of eight bytes is read back. -/
theorem HoldsFields.word {memory : Memory} {base offset value : Nat} {fields : List FieldStore}
    (holds : HoldsFields memory base fields) (member : ⟨offset, 8, value⟩ ∈ fields)
    (narrow : value < 2 ^ 64) : memory.read (base + offset) 8 = value := by
  have field := holds ⟨offset, 8, value⟩ member
  have width : (256 : Nat) ^ 8 = 2 ^ 64 := by norm_num
  exact field.trans (Nat.mod_eq_of_lt (width ▸ narrow))

/-- New sizes in the record leave its other fields alone. -/
theorem holdsFields_resized {memory : Memory} {base memoryMap size stride : Nat} {facts : BootFacts}
    (fields : HoldsFields memory base (fixedStores facts memoryMap)) :
    HoldsFields (memory.storeFields base (sizeStores size stride)) base
      (bootInfoStores facts memoryMap size stride) := by
  have apart := bootInfoStores_apart facts memoryMap size stride
  rw [bootInfoStores_split] at apart ⊢
  obtain ⟨_, sizes, cross⟩ := List.pairwise_append.mp apart
  intro field member
  rcases List.mem_append.mp member with fixed | new
  · rw [Memory.read_storeFields_apart (cross field fixed)]
    exact fields field fixed
  · exact Memory.read_storeFields sizes memory new

/-- The kernel gets the map of the firmware that it has left, in memory below 4 GiB, together with all
other values. The boot information, the map and the bytes in `kept` still have their owner. -/
structure Handed (owned : State → Nat → Prop) (map : State → List UInt8) (stride : Nat)
    (left : State → Prop) (facts : BootFacts) (kept : Nat → Prop) (handover : Handover State) :
    Prop where
  left : left handover.firmware
  current : handover.memory.Holds handover.memoryMap (map handover.firmware)
  size : handover.memoryMapSize = (map handover.firmware).length
  stride : handover.memoryDescriptorSize = stride
  reachable : handover.memoryMap + handover.memoryMapSize ≤ 2 ^ 32 ∧
    handover.bootInfo + sizeofBootInfo ≤ 2 ^ 32
  fields : HoldsFields handover.memory handover.bootInfo
    (bootInfoStores facts handover.memoryMap handover.memoryMapSize handover.memoryDescriptorSize)
  info : ∀ byte, handover.bootInfo ≤ byte → byte < handover.bootInfo + sizeofBootInfo →
    owned handover.firmware byte
  buffer : ∀ byte, handover.memoryMap ≤ byte →
    byte < handover.memoryMap + handover.memoryMapSize → owned handover.firmware byte
  held : ∀ byte, kept byte → owned handover.firmware byte

/-- What is kept can be narrowed. -/
theorem Handed.weaken {owned : State → Nat → Prop} {map : State → List UInt8} {stride : Nat}
    {left : State → Prop} {facts : BootFacts} {kept fewer : Nat → Prop} {handover : Handover State}
    (handed : Handed owned map stride left facts kept handover)
    (included : ∀ byte, fewer byte → kept byte) :
    Handed owned map stride left facts fewer handover :=
  { handed with held := fun byte member => handed.held byte (included byte member) }

/-- The boot information and the buffer of the map lie below 4 GiB, apart and in the bytes that are
kept. -/
structure Buffers (kept : Nat → Prop) (bootInfo memoryMap capacity : Nat) : Prop where
  infoBelow : bootInfo + sizeofBootInfo ≤ 2 ^ 32
  mapBelow : memoryMap + capacity ≤ 2 ^ 32
  apart : ∀ byte, bootInfo ≤ byte → byte < bootInfo + sizeofBootInfo →
    byte < memoryMap ∨ memoryMap + capacity ≤ byte
  info : ∀ byte, bootInfo ≤ byte → byte < bootInfo + sizeofBootInfo → kept byte
  buffer : ∀ byte, memoryMap ≤ byte → byte < memoryMap + capacity → kept byte

section Buffers

variable {kept : Nat → Prop} {bootInfo memoryMap capacity : Nat}
  (buffers : Buffers kept bootInfo memoryMap capacity)
include buffers

/-- The record and the buffer agree on a map, so the kernel finds it. -/
theorem Buffers.handed {owned : State → Nat → Prop} {map : State → List UInt8} {stride : Nat}
    {left : State → Prop} {facts : BootFacts} {firmware : State} {memory : Memory}
    (narrow : stride < 2 ^ 64) (ended : left firmware) (held : ∀ byte, kept byte → owned firmware byte)
    (fits : (map firmware).length ≤ capacity) (holds : memory.Holds memoryMap (map firmware))
    (fields : HoldsFields memory bootInfo
      (bootInfoStores facts memoryMap (map firmware).length stride)) :
    Handed owned map stride left facts kept ⟨bootInfo, firmware, memory⟩ := by
  have room := buffers.mapBelow
  have address : (⟨bootInfo, firmware, memory⟩ : Handover State).memoryMap = memoryMap :=
    fields.word (by simp [bootInfoStores]) (by omega)
  have size : (⟨bootInfo, firmware, memory⟩ : Handover State).memoryMapSize =
      (map firmware).length := fields.word (by simp [bootInfoStores]) (by omega)
  have descriptors : (⟨bootInfo, firmware, memory⟩ : Handover State).memoryDescriptorSize = stride :=
    fields.word (by simp [bootInfoStores]) narrow
  refine ⟨ended, ?_, size, descriptors, ⟨?_, buffers.infoBelow⟩, ?_, ?_, ?_, held⟩
  · rw [address]
    exact holds
  · rw [address, size]
    omega
  · rw [address, size, descriptors]
    exact fields
  · intro byte lower upper
    exact held byte (buffers.info byte lower upper)
  · rw [address, size]
    intro byte lower upper
    exact held byte (buffers.buffer byte lower (by omega))

/-- The map in the buffer is not touched by stores to the boot information. -/
theorem Buffers.holds {memory : Memory} {bytes : List UInt8} (holds : memory.Holds memoryMap bytes)
    (fits : bytes.length ≤ capacity) {fields : List FieldStore}
    (inside : ∀ field ∈ fields, field.offset + field.size ≤ sizeofBootInfo) :
    (memory.storeFields bootInfo fields).Holds memoryMap bytes := by
  intro index within
  have away : memoryMap + index < bootInfo ∨ bootInfo + sizeofBootInfo ≤ memoryMap + index := by
    by_contra both
    have apart := buffers.apart (memoryMap + index) (by omega) (by omega)
    omega
  rw [Memory.storeFields_outside inside memory away]
  exact holds index within

end Buffers

section Running

variable {services : MapServices State} {owned : State → Nat → Prop} {map : State → List UInt8}
  {key : State → Nat} {stride : Nat} {left : State → Prop}
  (documented : Documented services owned map key stride left)
include documented

/-- A successful `ExitBootServices` has ended the services with the map that the key stands for. -/
theorem Documented.exited (firmware : State) {before : State} {value : Nat} (named : value = key before)
    (done : ¬ efiError (services.exitBootServices firmware value).1) :
    left (services.exitBootServices firmware value).2 ∧
      map (services.exitBootServices firmware value).2 = map before := by
  obtain ⟨ended, same⟩ := documented.exits firmware value done
  exact ⟨ended, documented.identifies _ _ (same.trans named)⟩

section Exiting

variable {facts : BootFacts} {kept : Nat → Prop} {bootInfo memoryMap capacity : Nat} {firmware : State}
  {memory : Memory} {handover : Handover State} (buffers : Buffers kept bootInfo memoryMap capacity)
  (narrow : stride < 2 ^ 64) (held : ∀ byte, kept byte → owned firmware byte)
include buffers narrow held

/-- A map that is fetched again replaces the old one in the buffer and in the record. -/
theorem retryExit_handed (fixed : HoldsFields memory bootInfo (fixedStores facts memoryMap))
    (returned : retryExit services bootInfo memoryMap capacity firmware memory = .ok handover) :
    Handed owned map stride left facts kept handover := by
  have printed (byte : Nat) (member : kept byte) :=
    documented.keptPrinting firmware "[!] ExitBootServices failed" byte (held byte member)
  have fetched := documented.fetched (services.println firmware "[!] ExitBootServices failed") memory
    capacity memoryMap
  have keptMap := documented.keptMapping (services.println firmware "[!] ExitBootServices failed")
    memory capacity memoryMap
  rw [retryExit] at returned
  split at returned
  rename_i answer refreshed memory' call
  rw [call] at fetched keptMap
  split at returned
  · cases returned
  · rename_i fine
    obtain ⟨size, within, named, descriptors, again, outside⟩ := fetched fine
    dsimp only at size again outside
    split at returned
    rename_i status gone call
    have lastExit := documented.exited refreshed named
    have keptExit := documented.keptExiting refreshed answer.key
    rw [call] at lastExit keptExit
    split at returned
    · cases returned
    · rename_i done
      obtain ⟨ended, same⟩ := lastExit done
      dsimp only at same
      rw [← Except.ok.inj returned]
      rw [← same] at size again
      have fits : (map gone).length ≤ capacity := size ▸ within
      have unchanged : HoldsFields memory' bootInfo (fixedStores facts memoryMap) := by
        intro field member
        have inside := bootInfoStores_inside facts memoryMap 0 0 field (List.mem_of_mem_take member)
        rw [← fixed field member]
        apply Memory.read_congr
        intro byte lower upper
        have covered : byte < bootInfo + sizeofBootInfo := by omega
        exact outside byte (printed byte (buffers.info byte (by omega) covered))
          (buffers.apart byte (by omega) covered)
      rw [size, descriptors]
      apply buffers.handed narrow ended
        (fun byte member => keptExit byte (keptMap byte (printed byte member))) fits
      · apply buffers.holds again fits
        simp [sizeofBootInfo, memoryMapSizeOffset, memoryDescriptorSizeOffset]
      · exact holdsFields_resized unchanged

/-- However the map changes, `ExitBootServices` succeeds only for the map in the buffer. -/
theorem exitBoot_handed {before : State} (fits : (map before).length ≤ capacity)
    (holds : memory.Holds memoryMap (map before))
    (fields : HoldsFields memory bootInfo (bootInfoStores facts memoryMap (map before).length stride))
    (returned : exitBoot services bootInfo memoryMap capacity (key before) firmware memory =
      .ok handover) : Handed owned map stride left facts kept handover := by
  have keptExit := documented.keptExiting firmware (key before)
  have firstExit := documented.exited firmware (Eq.refl (key before))
  rw [exitBoot] at returned
  split at returned
  rename_i status next call
  rw [call] at keptExit firstExit
  have still (byte : Nat) (member : kept byte) := keptExit byte (held byte member)
  split at returned
  · refine retryExit_handed documented buffers narrow still ?_ returned
    intro field member
    exact fields field (List.mem_append_left _ member)
  · rename_i done
    obtain ⟨ended, same⟩ := firstExit done
    dsimp only at same
    rw [← Except.ok.inj returned]
    rw [← same] at fits holds fields
    exact buffers.handed narrow ended still fits holds fields

/-- The map that is fetched first stands in the buffer and in the record. -/
theorem fetchMap_handed
    (returned : fetchMap services facts bootInfo memoryMap capacity firmware memory = .ok handover) :
    Handed owned map stride left facts kept handover := by
  have keptMap := documented.keptMapping firmware memory capacity memoryMap
  have fetched := documented.fetched firmware memory capacity memoryMap
  rw [fetchMap] at returned
  split at returned
  rename_i answer next memory' call
  rw [call] at fetched keptMap
  split at returned
  · cases returned
  · rename_i fine
    obtain ⟨size, within, named, descriptors, again, _⟩ := fetched fine
    dsimp only at size named again returned
    rw [size] at within
    rw [size, named, descriptors] at returned
    refine exitBoot_handed documented buffers narrow
      (fun byte member => keptMap byte (held byte member)) within ?_ ?_ returned
    · exact buffers.holds again within (bootInfoStores_inside _ _ _ _)
    · intro field member
      exact Memory.read_storeFields (bootInfoStores_apart _ _ _ _) memory' member

end Exiting

/-- The pages of a grant hold a record or a buffer of the size that they were asked for. -/
theorem Documented.region (firmware : State) (size : Nat)
    (granted : ¬ efiError (services.allocatePages firmware (efiSizeToPages size) 0xFFFFFFFF).1.status) :
    let answer := services.allocatePages firmware (efiSizeToPages size) 0xFFFFFFFF
    answer.1.address + size ≤ 2 ^ 32 ∧ ∀ byte, answer.1.address ≤ byte →
      byte < answer.1.address + size → ¬ owned firmware byte ∧ owned answer.2 byte := by
  obtain ⟨below, bytes⟩ := documented.granted _ _ _ granted
  have room := (efiSizeToPages_eq size).1
  refine ⟨by omega, ?_⟩
  intro byte lower upper
  exact bytes byte lower (by omega)

/-- The second grant does not overlap the boot information. -/
theorem allocateMap_handed {facts : BootFacts} {kept : Nat → Prop} {bootInfo capacity : Nat}
    {firmware : State} {memory : Memory} {handover : Handover State} (narrow : stride < 2 ^ 64)
    (below : bootInfo + sizeofBootInfo ≤ 2 ^ 32) (held : ∀ byte, kept byte → owned firmware byte)
    (info : ∀ byte, bootInfo ≤ byte → byte < bootInfo + sizeofBootInfo → kept byte)
    (returned : allocateMap services facts bootInfo capacity firmware memory = .ok handover) :
    Handed owned map stride left facts kept handover := by
  have region := documented.region firmware capacity
  have keptMap := documented.keptAllocating firmware (efiSizeToPages capacity) 0xFFFFFFFF
  rw [allocateMap] at returned
  split at returned
  rename_i buffer next call
  rw [call] at region keptMap
  split at returned
  · cases returned
  · rename_i granted
    obtain ⟨mapBelow, bytes⟩ := region granted
    dsimp only at mapBelow bytes
    have apart (byte : Nat) (lower : bootInfo ≤ byte) (upper : byte < bootInfo + sizeofBootInfo) :
        byte < buffer.address ∨ buffer.address + capacity ≤ byte := by
      by_contra inside
      exact (bytes byte (by omega) (by omega)).1 (held byte (info byte lower upper))
    have buffers : Buffers
        (fun byte => kept byte ∨ buffer.address ≤ byte ∧ byte < buffer.address + capacity) bootInfo
        buffer.address capacity :=
      ⟨below, mapBelow, apart, fun byte lower upper => .inl (info byte lower upper),
        fun byte lower upper => .inr ⟨lower, upper⟩⟩
    have still : ∀ byte, kept byte ∨ buffer.address ≤ byte ∧ byte < buffer.address + capacity →
        owned next byte := by
      rintro byte (old | ⟨lower, upper⟩)
      · exact keptMap byte (held byte old)
      · exact (bytes byte lower upper).2
    have handed := fetchMap_handed documented buffers narrow still returned
    exact handed.weaken fun byte member => .inl member

/-- Whatever the firmware does to its memory map between the calls: when `efi_main` jumps into the
kernel, the boot services have ended, and the boot information names a buffer below 4 GiB that holds
exactly the memory map with which they ended. No byte that was handed out has lost its owner. -/
theorem finishBoot_handed (narrow : stride < 2 ^ 64) (facts : BootFacts) (firmware : State)
    (memory : Memory) (handover : Handover State)
    (returned : finishBoot services facts firmware memory = .ok handover) :
    Handed owned map stride left facts (owned firmware) handover := by
  have info := documented.region firmware sizeofBootInfo
  have keptInfo := documented.keptAllocating firmware (efiSizeToPages sizeofBootInfo) 0xFFFFFFFF
  rw [finishBoot] at returned
  split at returned
  rename_i bootInfo first call
  rw [call] at info keptInfo
  split at returned
  · cases returned
  · rename_i granted
    obtain ⟨below, bytes⟩ := info granted
    dsimp only at below bytes
    split at returned
    rename_i query second memory' call
    have keptMap := documented.keptMapping first memory 0 0
    rw [call] at keptMap
    split at returned
    · cases returned
    · have handed := allocateMap_handed documented narrow below keptMap
        (fun byte lower upper => (bytes byte lower upper).2) returned
      exact handed.weaken keptInfo

end Running

end ArchaOS.BootExit
