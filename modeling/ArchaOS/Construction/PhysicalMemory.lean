import ArchaOS.Library.PackedBits
import ArchaOS.Library.Word64

/-
This file models the physical memory manager of kernel/arch/x86_64/mm/pmm.c.
-/

namespace ArchaOS.PhysicalMemory

open Library

def pageSize : Nat := 0x1000

def efiConventionalMemory : Nat := 7

/-- The fields of `EFI_MEMORY_DESCRIPTOR` that the kernel reads. -/
structure EfiMemoryDescriptor where
  type : Nat
  physicalStart : Nat
  numberOfPages : Nat
  deriving DecidableEq, Repr

/-- The map that the firmware hands over: its size in bytes, the stride between two records and
the record that stands at each multiple of the stride. -/
structure MemoryMap where
  size : Nat
  descriptorSize : Nat
  descriptor : Nat → EfiMemoryDescriptor

def MemoryMap.entries (map : MemoryMap) : Nat := map.size / map.descriptorSize

def MemoryMap.descriptors (map : MemoryMap) : List EfiMemoryDescriptor :=
  (List.range map.entries).map map.descriptor

/-- The variables of the manager; the bitmap is the byte array at `bitmap_addr`. -/
structure Pmm where
  sizeofBitmap : Nat
  maxPages : Nat
  bitmap : PackedBits.Bytes
  bitmapAddr : Nat
  bitmapInit : Bool
  freePages : Nat
  totalPages : Nat
  totalRamPages : Nat
  totalMemory : Nat
  totalUsableMemory : Nat
  maxPhysicalAddress : Nat

def pageUsed (pmm : Pmm) (page : Nat) : Bool :=
  if page ≥ pmm.maxPages then true else PackedBits.isSet pmm.bitmap page

def markUsed (pmm : Pmm) (page : Nat) : Pmm :=
  if page ≥ pmm.maxPages then pmm
  else if !pageUsed pmm page then
    { pmm with bitmap := PackedBits.set pmm.bitmap page, freePages := sub64 pmm.freePages 1 }
  else pmm

def markFree (pmm : Pmm) (page : Nat) : Pmm :=
  if page ≥ pmm.maxPages then pmm
  else if pageUsed pmm page then
    { pmm with bitmap := PackedBits.clear pmm.bitmap page, freePages := add64 pmm.freePages 1 }
  else pmm

def reserveRegion (base length : Nat) (pmm : Pmm) : Pmm :=
  let start := base / pageSize
  let pages := add64 length (pageSize - 1) / pageSize
  (List.range pages).foldl (fun pmm i => markUsed pmm (add64 start i)) pmm

/-- The inner loop of `palloc` looks for the first clear bit of one byte. -/
def pallocBit (pmm : Pmm) (byte : Nat) : Option Nat :=
  if pmm.bitmap byte = 0xFF#8 then none
  else ((List.range 8).find? fun bit => pmm.bitmap byte &&& (1#8 <<< bit) = 0#8).map
    fun bit => byte * 8 + bit

def palloc (pmm : Pmm) : Nat × Pmm :=
  if !pmm.bitmapInit then (0, pmm)
  else
    match (List.range pmm.sizeofBitmap).findSome? (pallocBit pmm) with
    | none => (0, pmm)
    | some page => if page ≥ pmm.maxPages then (0, pmm) else (page * pageSize, markUsed pmm page)

def pfree (address : Nat) (pmm : Pmm) : Pmm := markFree pmm (address / pageSize)

/-- The first loop of `init_pmm` measures the conventional memory. -/
def measure (pmm : Pmm) (desc : EfiMemoryDescriptor) : Pmm :=
  if desc.type = efiConventionalMemory then
    let last := add64 desc.physicalStart (mul64 desc.numberOfPages pageSize)
    { pmm with
      maxPhysicalAddress := if last > pmm.maxPhysicalAddress then last else pmm.maxPhysicalAddress
      totalPages := add64 pmm.totalPages desc.numberOfPages
      totalRamPages := add64 pmm.totalRamPages desc.numberOfPages }
  else pmm

/-- The second loop of `init_pmm` takes the first large enough range that does not start at zero. -/
def chooseBitmap (sizeofBitmap bitmapAddr : Nat) (desc : EfiMemoryDescriptor) : Nat :=
  if desc.type ≠ efiConventionalMemory then bitmapAddr
  else if mul64 desc.numberOfPages pageSize ≥ sizeofBitmap ∧ bitmapAddr = 0 then desc.physicalStart
  else bitmapAddr

/-- The third loop of `init_pmm` frees the pages of one conventional range. -/
def releaseRange (pmm : Pmm) (desc : EfiMemoryDescriptor) : Pmm :=
  if desc.type = efiConventionalMemory then
    (List.range desc.numberOfPages).foldl
      (fun pmm p => markFree pmm (add64 (desc.physicalStart / pageSize) p)) pmm
  else pmm

/-- The middle of `init_pmm` sizes the bitmap, places it and fills it with ones; `old` is the
content of its memory before. -/
def placeBitmap (map : MemoryMap) (old : PackedBits.Bytes) (pmm : Pmm) : Pmm :=
  let maxPages := pmm.maxPhysicalAddress / pageSize
  let sizeofBitmap := (maxPages + 7) / 8
  { pmm with
    maxPages := maxPages
    sizeofBitmap := sizeofBitmap
    bitmapAddr := map.descriptors.foldl (chooseBitmap sizeofBitmap) 0
    bitmap := fun i => if i < sizeofBitmap then 0xFF#8 else old i }

/-- The pages that hold the bitmap. -/
def bitmapPages (pmm : Pmm) : List Nat :=
  (List.range ((pmm.sizeofBitmap + pageSize - 1) / pageSize)).map (pmm.bitmapAddr / pageSize + ·)

def initPmm (map : MemoryMap) (old : PackedBits.Bytes) (pmm : Pmm) : Except String Pmm :=
  let pmm := { pmm with
    freePages := 0, totalPages := 0, totalRamPages := 0, maxPhysicalAddress := 0 }
  let pmm := placeBitmap map old (map.descriptors.foldl measure pmm)
  if pmm.bitmapAddr = 0 then .error "No room for PMM bitmap"
  else
    let pmm := map.descriptors.foldl releaseRange pmm
    let pmm := { pmm with
      totalUsableMemory := mul64 pmm.totalPages pageSize
      totalMemory := mul64 pmm.totalRamPages pageSize }
    let pmm := markUsed pmm 0
    let pmm := (bitmapPages pmm).foldl markUsed pmm
    .ok { pmm with bitmapInit := true }

end ArchaOS.PhysicalMemory
