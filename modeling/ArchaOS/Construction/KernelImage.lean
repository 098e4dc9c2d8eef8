import ArchaOS.Library.ByteMemory
import ArchaOS.Library.Word64

/-
This file models the loop of bootloader/uefi.c that loads the segments of the kernel image, with the
headers of bootloader/elf.h.
-/

namespace ArchaOS.KernelImage

open Library

/-- The jump to `panic`, or a loop that is still running. -/
inductive Stop where
  | panic
  | endless
  deriving DecidableEq, Repr

abbrev Outcome := Except Stop

/-- The boot services that the loop calls: `AllocatePages` with `AllocateAddress` and
`EfiLoaderData`, which gets a number of pages and an address and returns a status, `CopyMem` and
`SetMem`. -/
structure BootServices (State : Type) where
  allocatePages : State → Nat → Nat → Nat × State
  copyMem : Nat → Nat → Nat → Memory → Memory
  setMem : Nat → Nat → UInt8 → Memory → Memory

def efiError (status : Nat) : Prop := status &&& 0x8000000000000000 ≠ 0

instance (status : Nat) : Decidable (efiError status) := inferInstanceAs (Decidable (_ ≠ _))

def efiSizeToPages (size : Nat) : Nat := (size >>> 12) + if size &&& 0xFFF ≠ 0 then 1 else 0

section Headers

variable (memory : Memory) (header : Nat)

/-- `hdr->e_phoff` -/
def ePhoff : Nat := memory.read (add64 header 32) 8

/-- `hdr->e_phnum` -/
def ePhnum : Nat := memory.read (add64 header 56) 2

/-- `sizeof(Elf64_Phdr)` -/
def programHeaderSize : Nat := 56

/-- The fields of `Elf64_Phdr` that the loop reads. -/
structure ProgramHeader where
  type : Nat
  offset : Nat
  vaddr : Nat
  paddr : Nat
  filesz : Nat
  memsz : Nat
  deriving DecidableEq, Repr

/-- `*p` -/
def programHeader (p : Nat) : ProgramHeader where
  type := memory.read p 4
  offset := memory.read (add64 p 8) 8
  vaddr := memory.read (add64 p 16) 8
  paddr := memory.read (add64 p 24) 8
  filesz := memory.read (add64 p 32) 8
  memsz := memory.read (add64 p 40) 8

end Headers

/-- The state of the machine and the local variables of the loop. The loop does not have `written`:
it lists the ranges that `CopyMem` and `SetMem` get. -/
structure Loading (State : Type) where
  firmware : State
  memory : Memory
  kernelPhysStart : Nat
  kernelPhysEnd : Nat
  kernelVirtStart : Nat
  kernelVirtEnd : Nat
  written : List (Nat × Nat)

variable {State : Type} (services : BootServices State)

/-- `gBS->CopyMem` -/
def Loading.copyMem (loading : Loading State) (destination source length : Nat) : Loading State :=
  { loading with
    memory := services.copyMem destination source length loading.memory
    written := loading.written ++ [(destination, length)] }

/-- `gBS->SetMem` -/
def Loading.setMem (loading : Loading State) (buffer size : Nat) (value : UInt8) : Loading State :=
  { loading with
    memory := services.setMem buffer size value loading.memory
    written := loading.written ++ [(buffer, size)] }

/-- The four tests at the end of a turn. -/
def Loading.extend (loading : Loading State) (p : ProgramHeader) : Loading State :=
  { loading with
    kernelPhysStart :=
      if p.paddr < loading.kernelPhysStart then p.paddr else loading.kernelPhysStart
    kernelPhysEnd :=
      if add64 p.paddr p.memsz > loading.kernelPhysEnd then add64 p.paddr p.memsz
      else loading.kernelPhysEnd
    kernelVirtStart :=
      if p.vaddr < loading.kernelVirtStart then p.vaddr else loading.kernelVirtStart
    kernelVirtEnd :=
      if add64 p.vaddr p.memsz > loading.kernelVirtEnd then add64 p.vaddr p.memsz
      else loading.kernelVirtEnd }

/-- The body of the loop for a header of type `PT_LOAD`. The header is read from the memory again
after each call. -/
def loadSegment (kernelAddr p : Nat) (loading : Loading State) : Outcome (Loading State) := do
  let header := programHeader loading.memory p
  let (status, firmware) :=
    services.allocatePages loading.firmware (efiSizeToPages header.memsz) header.paddr
  if efiError status then throw .panic
  let loading := { loading with firmware := firmware }
  let loading :=
    loading.copyMem services header.vaddr (add64 kernelAddr header.offset) header.filesz
  let header := programHeader loading.memory p
  let loading :=
    if header.memsz > header.filesz then
      loading.setMem services (add64 header.vaddr header.filesz) (sub64 header.memsz header.filesz) 0
    else loading
  return loading.extend (programHeader loading.memory p)

/-- `for (UINT16 i = 0; i < hdr->e_phnum; i++)`, for a bounded number of turns -/
def loadLoop (kernelAddr phdr : Nat) : Nat → Nat → Loading State → Outcome (Loading State)
  | 0, _, _ => .error .endless
  | fuel + 1, i, loading =>
      if i < ePhnum loading.memory kernelAddr then
        let p := add64 phdr (mul64 i programHeaderSize)
        if (programHeader loading.memory p).type ≠ 1 then
          loadLoop kernelAddr phdr fuel ((i + 1) % 2 ^ 16) loading
        else do
          let loading ← loadSegment services kernelAddr p loading
          loadLoop kernelAddr phdr fuel ((i + 1) % 2 ^ 16) loading
      else .ok loading

/-- The loop with its start values. -/
def loadKernel (kernelAddr fuel : Nat) (firmware : State) (memory : Memory) :
    Outcome (Loading State) :=
  let phdr := add64 kernelAddr (ePhoff memory kernelAddr)
  loadLoop services kernelAddr phdr fuel 0 ⟨firmware, memory, 2 ^ 64 - 1, 0, 2 ^ 64 - 1, 0, []⟩

/-- The fields of `BootInfo` that are set from the variables of the loop. -/
structure BootInfo where
  kernelPhysicalAddress : Nat
  kernelPhysicalAddressStart : Nat
  kernelPhysicalAddressEnd : Nat
  kernelVirtualAddress : Nat
  kernelSize : Nat
  deriving DecidableEq, Repr

def Loading.bootInfo (loading : Loading State) : BootInfo where
  kernelPhysicalAddress := loading.kernelPhysStart
  kernelPhysicalAddressStart := loading.kernelPhysStart
  kernelPhysicalAddressEnd := loading.kernelPhysEnd
  kernelVirtualAddress := loading.kernelVirtStart
  kernelSize := sub64 loading.kernelVirtEnd loading.kernelVirtStart

end ArchaOS.KernelImage
