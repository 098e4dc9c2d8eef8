import ArchaOS.Construction.VirtualMemory

/-
This file models vmm.c once `init_vmm` has set `virtual_mem_initialized`: `page_table_ptr` then gives
an address in the passthru window, and the processor translates every access to a table.
-/

namespace ArchaOS.VirtualMemory.Passthru

open Library PhysicalMemory

/-- An access to an address that is not mapped is a page fault. -/
def access : Option Nat → Except Stop Nat
  | none => .error .pageFault
  | some frame => .ok frame

/-- The frame that an access through `page_table_ptr` reaches. -/
def pageTablePtr (phys : Nat) (vmm : Vmm) : Except Stop Nat :=
  access (translate vmm (getVirtAddr phys))

def load (table : Nat) (index : Fin 512) (vmm : Vmm) : Except Stop Nat := do
  .ok (vmm.frames (← pageTablePtr table vmm) index)

def store (table : Nat) (index : Fin 512) (entry : Nat) (vmm : Vmm) : Except Stop Vmm := do
  .ok (vmm.store (← pageTablePtr table vmm) index entry)

def clear (table : Nat) (vmm : Vmm) : Except Stop Vmm := do
  .ok (vmm.clear (← pageTablePtr table vmm))

/-- The part of `map_page` that creates a missing table -/
def createTable (message : String) (table : Nat) (index : Fin 512) (vmm : Vmm) : Except Stop Vmm :=
  let allocated := palloc vmm.pmm
  if allocated.1 = 0 then .error (.panic message)
  else do
    let vmm ← clear allocated.1 { vmm with pmm := allocated.2 }
    store table index (tableEntry allocated.1) vmm

/-- One level of `map_page` -/
def nextTable (message : String) (table : Nat) (index : Fin 512) (vmm : Vmm) :
    Except Stop (Nat × Vmm) := do
  let entry ← load table index vmm
  let vmm ← if entry &&& ptePresent = 0 then createTable message table index vmm else .ok vmm
  let entry ← load table index vmm
  .ok (entry &&& pteAddrMask, vmm)

def mapPage (physAddr virtAddr pml4 : Nat) (vmm : Vmm) : Except Stop Vmm := do
  let (pdpt, vmm) ← nextTable "Out of memory creating PDPT" pml4 (pml4Index virtAddr) vmm
  let (pd, vmm) ← nextTable "Out of memory creating PD" pdpt (pdptIndex virtAddr) vmm
  let (pt, vmm) ← nextTable "Out of memory creating PT" pd (pdIndex virtAddr) vmm
  store pt (ptIndex virtAddr) (tableEntry physAddr) vmm

def unmapPage (virtAddr pml4 : Nat) (vmm : Vmm) : Except Stop (Nat × Vmm) := do
  let pdpt ← load pml4 (pml4Index virtAddr) vmm
  if pdpt &&& ptePresent = 0 then .ok (0, vmm)
  else do
    let pd ← load (pdpt &&& pteAddrMask) (pdptIndex virtAddr) vmm
    if pd &&& ptePresent = 0 then .ok (0, vmm)
    else do
      let pt ← load (pd &&& pteAddrMask) (pdIndex virtAddr) vmm
      if pt &&& ptePresent = 0 then .ok (0, vmm)
      else do
        let page ← load (pt &&& pteAddrMask) (ptIndex virtAddr) vmm
        let vmm ← store (pt &&& pteAddrMask) (ptIndex virtAddr) 0 vmm
        .ok (page &&& pteAddrMask, vmm)

/-- One turn of `vfrees` -/
def vfreeTurn (virtAddr pml4 : Nat) (vmm : Vmm) (i : Nat) : Except Stop Vmm := do
  let virt := add64 virtAddr (mul64 i pageSize)
  let (phys, vmm) ← unmapPage virt pml4 vmm
  .ok (if phys ≠ 0 then { vmm with pmm := pfree phys vmm.pmm } else vmm)

def vfrees (virtAddr count : Nat) (vmm : Vmm) : Except Stop Vmm :=
  if count = 0 then .ok vmm
  else (List.range count).foldlM (vfreeTurn virtAddr (vmm.cr3 &&& pteAddrMask)) vmm

/-- The loop of `vallocs` from turn `i` on; the answer is false when it ran out of memory. -/
def vallocsFrom (zero : Bool) (start pml4 : Nat) : Nat → Nat → Vmm → Except Stop (Bool × Vmm)
  | 0, _, vmm => .ok (true, vmm)
  | remaining + 1, i, vmm =>
      let allocated := palloc vmm.pmm
      let vmm := { vmm with pmm := allocated.2 }
      if allocated.1 = 0 then do
        let vmm ← vfrees start i vmm
        .ok (false, vmm)
      else do
        let virt := add64 start (mul64 i pageSize)
        let vmm ← mapPage allocated.1 virt pml4 vmm
        let vmm ← if zero then memsetPage virt vmm else .ok vmm
        vallocsFrom zero start pml4 remaining (i + 1) vmm

def vallocs (zero : Bool) (count : Nat) (vmm : Vmm) : Except Stop (Nat × Vmm) :=
  if count = 0 then .ok (0, vmm)
  else do
    let start := vmm.nextVirt
    let (done, vmm) ← vallocsFrom zero start (vmm.cr3 &&& pteAddrMask) count 0 vmm
    if done then
      .ok (start, { vmm with nextVirt := add64 vmm.nextVirt (mul64 count pageSize) })
    else .ok (0, vmm)

end ArchaOS.VirtualMemory.Passthru
