import ArchaOS.Construction.FileLoading
import ArchaOS.Construction.PhysicalMemory
import ArchaOS.Library.Record

/-
This file models the end of efi_main in bootloader/uefi.c, from the allocation of the boot information
to the jump into the kernel, with the record of common/fromboot.h, and what kernel/startup.c hands on
to init_pmm.
-/

namespace ArchaOS.BootExit

open Library KernelImage FileLoading PhysicalMemory

/-- The status of `AllocatePages` and the address that it leaves in its argument. -/
structure PageAnswer where
  status : Nat
  address : Nat
  deriving DecidableEq, Repr

/-- The status of `GetMemoryMap` and what it leaves in `MemoryMapSize`, `MapKey` and
`DescriptorSize`. -/
structure MapAnswer where
  status : Nat
  size : Nat
  key : Nat
  descriptorSize : Nat
  deriving DecidableEq, Repr

/-- The firmware: `AllocatePages` with `AllocateMaxAddress` and `EfiLoaderData`, which gets a number of
pages and the highest address, `GetMemoryMap`, which gets the size and the address of a buffer,
`ExitBootServices`, which gets a key, and the output of a text. -/
structure MapServices (State : Type) where
  allocatePages : State → Nat → Nat → PageAnswer × State
  getMemoryMap : State → Memory → Nat → Nat → MapAnswer × State × Memory
  exitBootServices : State → Nat → Nat × State
  println : State → String → State

/-- The values that go into the boot information besides the memory map. -/
structure BootFacts where
  frameBufferBase : Nat
  frameBufferSize : Nat
  horizontalResolution : Nat
  verticalResolution : Nat
  pixelsPerScanLine : Nat
  pixelFormat : Nat
  ramdiskAddr : Nat
  ramdiskSize : Nat
  kernelPhysStart : Nat
  kernelPhysEnd : Nat
  kernelVirtStart : Nat
  kernelVirtEnd : Nat

def bootInfoMagic : Nat := 0xCAFEBABEDEADBEEF

def sizeofBootInfo : Nat := 120

/-- The offset of `memory_map` in `BootInfo` -/
def memoryMapOffset : Nat := 40

/-- The offset of `memory_map_size` -/
def memoryMapSizeOffset : Nat := 48

/-- The offset of `memory_descriptor_size` -/
def memoryDescriptorSizeOffset : Nat := 56

/-- The stores to `bootInfo`, in their order. -/
def bootInfoStores (facts : BootFacts) (memoryMap memoryMapSize descriptorSize : Nat) :
    List FieldStore :=
  [⟨0, 8, bootInfoMagic⟩,
    ⟨8, 8, facts.frameBufferBase⟩,
    ⟨16, 8, facts.frameBufferSize⟩,
    ⟨24, 4, facts.horizontalResolution⟩,
    ⟨28, 4, facts.verticalResolution⟩,
    ⟨32, 4, facts.pixelsPerScanLine⟩,
    ⟨36, 4, facts.pixelFormat⟩,
    ⟨104, 8, facts.ramdiskAddr⟩,
    ⟨112, 8, facts.ramdiskSize⟩,
    ⟨64, 8, facts.kernelPhysStart⟩,
    ⟨72, 8, facts.kernelPhysStart⟩,
    ⟨80, 8, facts.kernelPhysEnd⟩,
    ⟨88, 8, facts.kernelVirtStart⟩,
    ⟨96, 8, sub64 facts.kernelVirtEnd facts.kernelVirtStart⟩,
    ⟨memoryMapOffset, 8, memoryMap⟩,
    ⟨memoryMapSizeOffset, 8, memoryMapSize⟩,
    ⟨memoryDescriptorSizeOffset, 8, descriptorSize⟩]

/-- What the kernel gets: the pointer to the boot information, the memory, and the firmware that has
been left. -/
structure Handover (State : Type) where
  bootInfo : Nat
  firmware : State
  memory : Memory

variable {State : Type} (services : MapServices State)

/-- The part of `efi_main` behind a failed `ExitBootServices`. -/
def retryExit (bootInfo memoryMap capacity : Nat) (firmware : State) (memory : Memory) :
    Outcome (Handover State) :=
  let firmware := services.println firmware "[!] ExitBootServices failed"
  match services.getMemoryMap firmware memory capacity memoryMap with
  | (map, firmware, memory) =>
      if efiError map.status then .error .panic
      else
        let memory := memory.storeFields bootInfo
          [⟨memoryMapSizeOffset, 8, map.size⟩, ⟨memoryDescriptorSizeOffset, 8, map.descriptorSize⟩]
        match services.exitBootServices firmware map.key with
        | (status, firmware) =>
            if efiError status then .error .panic else .ok ⟨bootInfo, firmware, memory⟩

/-- The part of `efi_main` from the first `ExitBootServices` to the jump. -/
def exitBoot (bootInfo memoryMap capacity key : Nat) (firmware : State) (memory : Memory) :
    Outcome (Handover State) :=
  match services.exitBootServices firmware key with
  | (status, firmware) =>
      if efiError status then retryExit services bootInfo memoryMap capacity firmware memory
      else .ok ⟨bootInfo, firmware, memory⟩

/-- The part of `efi_main` from the second `GetMemoryMap` on. -/
def fetchMap (facts : BootFacts) (bootInfo memoryMap capacity : Nat) (firmware : State)
    (memory : Memory) : Outcome (Handover State) :=
  match services.getMemoryMap firmware memory capacity memoryMap with
  | (map, firmware, memory) =>
      if efiError map.status then .error .panic
      else
        let memory := memory.storeFields bootInfo
          (bootInfoStores facts memoryMap map.size map.descriptorSize)
        exitBoot services bootInfo memoryMap capacity map.key firmware memory

/-- The part of `efi_main` behind the first `GetMemoryMap`, with the size that it asks for. -/
def allocateMap (facts : BootFacts) (bootInfo capacity : Nat) (firmware : State) (memory : Memory) :
    Outcome (Handover State) :=
  match services.allocatePages firmware (efiSizeToPages capacity) 0xFFFFFFFF with
  | (buffer, firmware) =>
      if efiError buffer.status then .error .panic
      else fetchMap services facts bootInfo buffer.address capacity firmware memory

/-- The end of `efi_main` -/
def finishBoot (facts : BootFacts) (firmware : State) (memory : Memory) :
    Outcome (Handover State) :=
  match services.allocatePages firmware (efiSizeToPages sizeofBootInfo) 0xFFFFFFFF with
  | (bootInfo, firmware) =>
      if efiError bootInfo.status then .error .panic
      else
        match services.getMemoryMap firmware memory 0 0 with
        | (query, firmware, memory) =>
            if query.status ≠ efiBufferTooSmall then .error .panic
            else
              allocateMap services facts bootInfo.address
                (add64 query.size (mul64 query.descriptorSize 8)) firmware memory

/-- `boot->memory_map` -/
def Handover.memoryMap (handover : Handover State) : Nat :=
  handover.memory.read (handover.bootInfo + memoryMapOffset) 8

/-- `boot->memory_map_size` -/
def Handover.memoryMapSize (handover : Handover State) : Nat :=
  handover.memory.read (handover.bootInfo + memoryMapSizeOffset) 8

/-- `boot->memory_descriptor_size` -/
def Handover.memoryDescriptorSize (handover : Handover State) : Nat :=
  handover.memory.read (handover.bootInfo + memoryDescriptorSizeOffset) 8

/-- The `EFI_MEMORY_DESCRIPTOR` at an address -/
def descriptorAt (memory : Memory) (address : Nat) : EfiMemoryDescriptor where
  type := memory.read address 4
  physicalStart := memory.read (address + 8) 8
  numberOfPages := memory.read (address + 24) 8

/-- The map that `init_memory` hands on to `init_pmm`. -/
def Handover.kernelMap (handover : Handover State) : MemoryMap where
  size := handover.memoryMapSize
  descriptorSize := handover.memoryDescriptorSize
  descriptor := fun index =>
    descriptorAt handover.memory (handover.memoryMap + index * handover.memoryDescriptorSize)

end ArchaOS.BootExit
