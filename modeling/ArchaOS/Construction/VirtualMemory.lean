import ArchaOS.Construction.PhysicalMemory
import ArchaOS.Library.RadixTree

/-
This file models the virtual memory manager of kernel/arch/x86_64/mm/vmm.c and the start of memory
management in kernel/arch/x86_64/init.c.
-/

namespace ArchaOS.VirtualMemory

open Library PhysicalMemory

def pageMask : Nat := 0xFFFFFFFFFFFFF000

def ptePresent : Nat := 1 <<< 0

def pteRw : Nat := 1 <<< 1

def pteAddrMask : Nat := 0x000FFFFFFFFFF000

def kheapBase : Nat := 0xFFFFFFFE00000000

def passthruBase : Nat := 0xFFFFFFFF80000000

/-- The kernel stops with a panic, loops without end or faults on an unmapped address. -/
inductive Stop where
  | panic (message : String)
  | endless
  | pageFault
  deriving DecidableEq, Repr

/-- Physical memory is a set of frames of 512 words, addressed by their physical addresses. A table access
reaches the frame that it names, as `page_table_ptr` does until `init_vmm` has ended; from then on the
functions of `Passthru` access the tables through the passthru window. -/
structure Vmm where
  pmm : Pmm
  frames : Nat → Fin 512 → Nat
  nextVirt : Nat
  cr3 : Nat

instance tableNonempty : NeZero (512 : Nat) := ⟨by decide⟩

def getVirtAddr (physAddr : Nat) : Nat := add64 physAddr passthruBase

/-- Nine bits of an address select the entry of a table. -/
def tableIndex (shift v : Nat) : Fin 512 :=
  ⟨(v >>> shift) &&& 0x1FF, Nat.lt_succ_of_le Nat.and_le_right⟩

def pml4Index : Nat → Fin 512 := tableIndex 39

def pdptIndex : Nat → Fin 512 := tableIndex 30

def pdIndex : Nat → Fin 512 := tableIndex 21

def ptIndex : Nat → Fin 512 := tableIndex 12

/-- The entry that maps a frame as present and writable. -/
def tableEntry (phys : Nat) : Nat := (phys &&& pteAddrMask) ||| ptePresent ||| pteRw

/-- A store to one entry of a table. -/
def Vmm.store (vmm : Vmm) (table : Nat) (index : Fin 512) (entry : Nat) : Vmm :=
  { vmm with frames := RadixTree.write vmm.frames table index entry }

/-- `memset` of one frame to zero. -/
def Vmm.clear (vmm : Vmm) (frame : Nat) : Vmm :=
  { vmm with frames := Function.update vmm.frames frame fun _ => 0 }

/-- One level of `map_page` creates the next table if it is missing and returns its address. -/
def nextTable (message : String) (table : Nat) (index : Fin 512) (vmm : Vmm) :
    Except Stop (Nat × Vmm) :=
  if vmm.frames table index &&& ptePresent = 0 then
    let allocated := palloc vmm.pmm
    if allocated.1 = 0 then .error (.panic message)
    else
      let vmm := ({ vmm with pmm := allocated.2 }.clear allocated.1).store table index
        (tableEntry allocated.1)
      .ok (vmm.frames table index &&& pteAddrMask, vmm)
  else .ok (vmm.frames table index &&& pteAddrMask, vmm)

def mapPage (physAddr virtAddr pml4 : Nat) (vmm : Vmm) : Except Stop Vmm := do
  let (pdpt, vmm) ← nextTable "Out of memory creating PDPT" pml4 (pml4Index virtAddr) vmm
  let (pd, vmm) ← nextTable "Out of memory creating PD" pdpt (pdptIndex virtAddr) vmm
  let (pt, vmm) ← nextTable "Out of memory creating PT" pd (pdIndex virtAddr) vmm
  .ok (vmm.store pt (ptIndex virtAddr) (tableEntry physAddr))

def unmapPage (virtAddr pml4 : Nat) (vmm : Vmm) : Nat × Vmm :=
  if vmm.frames pml4 (pml4Index virtAddr) &&& ptePresent = 0 then (0, vmm)
  else
    let pdpt := vmm.frames pml4 (pml4Index virtAddr) &&& pteAddrMask
    if vmm.frames pdpt (pdptIndex virtAddr) &&& ptePresent = 0 then (0, vmm)
    else
      let pd := vmm.frames pdpt (pdptIndex virtAddr) &&& pteAddrMask
      if vmm.frames pd (pdIndex virtAddr) &&& ptePresent = 0 then (0, vmm)
      else
        let pt := vmm.frames pd (pdIndex virtAddr) &&& pteAddrMask
        (vmm.frames pt (ptIndex virtAddr) &&& pteAddrMask, vmm.store pt (ptIndex virtAddr) 0)

/-- The processor takes an entry with the present bit as the address of a frame. -/
def present (entry : Nat) : Option Nat :=
  if entry &&& ptePresent = 0 then none else some (entry &&& pteAddrMask)

/-- The four indices that the processor takes from an address. -/
def tablePath (address : Nat) : List (Fin 512) :=
  [pml4Index address, pdptIndex address, pdIndex address, ptIndex address]

/-- The frame that the tables below `pml4` give for an address. -/
def lookup (vmm : Vmm) (pml4 address : Nat) : Option Nat :=
  RadixTree.walk present vmm.frames pml4 (tablePath address)

/-- The upper 17 bits of a usable address are equal. -/
def canonical (address : Nat) : Bool :=
  address < 2 ^ 47 || (2 ^ 64 - 2 ^ 47 ≤ address && address < 2 ^ 64)

/-- The processor translates a canonical address through the tables that `cr3` names. -/
def translate (vmm : Vmm) (address : Nat) : Option Nat :=
  if canonical address then
    (lookup vmm (vmm.cr3 &&& pteAddrMask) address).map (· + address % pageSize)
  else none

/-- `memset` of one page to zero through its virtual address. -/
def memsetPage (virt : Nat) (vmm : Vmm) : Except Stop Vmm :=
  match translate vmm virt with
  | none => .error .pageFault
  | some frame => .ok (vmm.clear frame)

/-- One turn of `vfrees` -/
def vfreeTurn (virtAddr pml4 : Nat) (vmm : Vmm) (i : Nat) : Vmm :=
  let virt := add64 virtAddr (mul64 i pageSize)
  let unmapped := unmapPage virt pml4 vmm
  if unmapped.1 ≠ 0 then { unmapped.2 with pmm := pfree unmapped.1 unmapped.2.pmm } else unmapped.2

def vfrees (virtAddr count : Nat) (vmm : Vmm) : Vmm :=
  if count = 0 then vmm
  else (List.range count).foldl (vfreeTurn virtAddr (vmm.cr3 &&& pteAddrMask)) vmm

/-- The loop of `vallocs` from turn `i` on; the answer is false when it ran out of memory. -/
def vallocsFrom (zero : Bool) (start pml4 : Nat) : Nat → Nat → Vmm → Except Stop (Bool × Vmm)
  | 0, _, vmm => .ok (true, vmm)
  | remaining + 1, i, vmm =>
      let allocated := palloc vmm.pmm
      let vmm := { vmm with pmm := allocated.2 }
      if allocated.1 = 0 then .ok (false, vfrees start i vmm)
      else do
        let virt := add64 start (mul64 i pageSize)
        let vmm ← mapPage allocated.1 virt pml4 vmm
        let vmm ← if zero then memsetPage virt vmm else .ok vmm
        vallocsFrom zero start pml4 remaining (i + 1) vmm

def vallocs (zero : Bool) (count : Nat) (vmm : Vmm) : Except Stop (Nat × Vmm) :=
  if count = 0 then .ok (0, vmm)
  else do
    let start := vmm.nextVirt
    let (done, vmm) ← vallocsFrom zero start (vmm.cr3 &&& pteAddrMask) count 0 vmm
    if done then
      .ok (start, { vmm with nextVirt := add64 vmm.nextVirt (mul64 count pageSize) })
    else .ok (0, vmm)

/-- The loop of `map_range`; when its counter wraps to zero it starts over and never ends. -/
def mapRangeFrom (physPage virtPage mappedSize pml4 off : Nat) (vmm : Vmm) : Except Stop Vmm :=
  if off < mappedSize then
    match mapPage (add64 physPage off) (add64 virtPage off) pml4 vmm with
    | .error stop => .error stop
    | .ok vmm =>
        if off + pageSize < 2 ^ 64 then
          mapRangeFrom physPage virtPage mappedSize pml4 (off + pageSize) vmm
        else .error .endless
  else .ok vmm
termination_by mappedSize - off
decreasing_by
  unfold pageSize
  omega

def mapRange (phys virt size pml4 : Nat) (vmm : Vmm) : Except Stop Vmm :=
  let physPage := phys &&& pageMask
  let virtPage := virt &&& pageMask
  let offset := sub64 phys physPage
  let mappedSize := add64 size offset
  mapRangeFrom physPage virtPage mappedSize pml4 0 vmm

/-- The fields of `BootInfo` that memory management reads; `map` stands for the records at
`memory_map` with their sizes. -/
structure BootInfo where
  framebufferBase : Nat
  framebufferSize : Nat
  memoryMap : Nat
  map : MemoryMap
  kernelPhysicalAddressStart : Nat
  kernelVirtualAddress : Nat
  kernelSize : Nat
  initramfsAddress : Nat
  initramfsSize : Nat

/-- The boot record, its address and what the processor reports while `init_vmm` runs. -/
structure Machine where
  boot : BootInfo
  bootAddr : Nat
  rsp : Nat
  rip : Nat
  cpuidEdx : Nat
  apicRecord : Nat

def Machine.supportApic (machine : Machine) : Bool := machine.cpuidEdx &&& (1 <<< 9) != 0

def Machine.apicBase (machine : Machine) : Nat := ((machine.apicRecord >>> 12) &&& 0xFFFFF) <<< 12

/-- The first part of `init_vmm` builds the four tables of the lowest two megabytes. -/
def firstTables (vmm : Vmm) : Except Stop (Nat × Vmm) :=
  let pml4 := palloc vmm.pmm
  let pdpt := palloc pml4.2
  let pd := palloc pdpt.2
  let pt := palloc pd.2
  if pml4.1 = 0 ∨ pdpt.1 = 0 ∨ pd.1 = 0 ∨ pt.1 = 0 then
    .error (.panic "Out of memory creating VMM")
  else
    let vmm := { vmm with pmm := pt.2 }
    let vmm := (((vmm.clear pml4.1).clear pdpt.1).clear pd.1).clear pt.1
    let vmm := vmm.store pml4.1 0 (pdpt.1 ||| ptePresent ||| pteRw)
    let vmm := vmm.store pdpt.1 0 (pd.1 ||| ptePresent ||| pteRw)
    let vmm := vmm.store pd.1 0 (pt.1 ||| ptePresent ||| pteRw)
    let vmm := (List.finRange 512).foldl
      (fun vmm i => vmm.store pt.1 i ((i.val * pageSize) ||| ptePresent ||| pteRw)) vmm
    .ok (pml4.1, vmm)

/-- The descriptor loop of `init_vmm` -/
def mapConventional (pml4 : Nat) (vmm : Vmm) (desc : EfiMemoryDescriptor) : Except Stop Vmm :=
  if desc.type = efiConventionalMemory then
    mapRange desc.physicalStart desc.physicalStart (mul64 desc.numberOfPages pageSize) pml4 vmm
  else .ok vmm

def initVmm (machine : Machine) (vmm : Vmm) : Except Stop Vmm := do
  let boot := machine.boot
  let (pml4, vmm) ← firstTables vmm
  let vmm ← mapRange boot.kernelPhysicalAddressStart boot.kernelVirtualAddress boot.kernelSize pml4 vmm
  let stackBase := sub64 (machine.rsp &&& pageMask) (16 * pageSize)
  let vmm ← mapRange stackBase stackBase (32 * pageSize) pml4 vmm
  let ripBase := sub64 (machine.rip &&& pageMask) pageSize
  let vmm ← mapRange ripBase ripBase (pageSize * 10) pml4 vmm
  let vmm ← mapRange boot.framebufferBase boot.framebufferBase boot.framebufferSize pml4 vmm
  let vmm ← mapRange 0 passthruBase vmm.pmm.maxPhysicalAddress pml4 vmm
  let vmm ← mapRange boot.initramfsAddress boot.initramfsAddress boot.initramfsSize pml4 vmm
  let vmm ←
    if machine.supportApic then do
      let vmm ← boot.map.descriptors.foldlM (mapConventional pml4) vmm
      mapRange machine.apicBase machine.apicBase 0x4000 pml4 vmm
    else .ok vmm
  let bootPage := machine.bootAddr &&& pageMask
  let vmm ← mapRange bootPage bootPage pageSize pml4 vmm
  let mapBase := boot.memoryMap &&& pageMask
  let vmm ← mapRange mapBase mapBase (add64 boot.map.size (boot.memoryMap &&& (pageSize - 1))) pml4 vmm
  .ok { vmm with cr3 := pml4 }

def testPpmFunc (map : MemoryMap) (old : PackedBits.Bytes) (pmm : Pmm) : Except Stop Pmm := do
  let page := palloc pmm
  if page.1 ≠ 0 then .error (.panic "Allocated before PMM init")
  else
    let pmm := (List.range 15).foldl (fun pmm i => pfree (i * 0x1000) pmm) page.2
    let pmm ← (initPmm map old pmm).mapError Stop.panic
    let before := pmm.freePages
    let page := palloc pmm
    if page.1 = 0 then .error (.panic "Allocation failed")
    else
      let pmm := pfree page.1 page.2
      if pmm.freePages ≠ before then .error (.panic "Page count mismatch") else .ok pmm

def initMemory (machine : Machine) (old : PackedBits.Bytes) (frames : Nat → Fin 512 → Nat)
    (uefiCr3 : Nat) (pmm : Pmm) : Except Stop Vmm := do
  let pmm ← testPpmFunc machine.boot.map old pmm
  initVmm machine ⟨pmm, frames, kheapBase, uefiCr3⟩

end ArchaOS.VirtualMemory
