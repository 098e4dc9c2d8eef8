import ArchaOS.Construction.KernelImage
import ArchaOS.Library.RunningBest

namespace ArchaOS.KernelImage

open Library

/-- What the firmware documents: pages are granted only if they are free, a page stays allocated, and
the two memory services do what their names say on ranges of the address space. -/
structure Documented {State : Type} (services : BootServices State)
    (allocated : State → Nat → Prop) : Prop where
  exclusive : ∀ state pages address, address % 4096 = 0 →
    ¬ efiError (services.allocatePages state pages address).1 →
    ∀ page, address / 4096 ≤ page → page < address / 4096 + pages →
      ¬ allocated state page ∧ allocated (services.allocatePages state pages address).2 page
  kept : ∀ state pages address page, allocated state page →
    allocated (services.allocatePages state pages address).2 page
  copies : ∀ destination source length memory, destination + length ≤ 2 ^ 64 →
    source + length ≤ 2 ^ 64 →
    services.copyMem destination source length memory = memory.move destination source length
  sets : ∀ buffer size value memory, buffer + size ≤ 2 ^ 64 →
    services.setMem buffer size value memory = memory.fill buffer size value

/-- An address of the segment -/
def ProgramHeader.Holds (segment : ProgramHeader) (address : Nat) : Prop :=
  segment.vaddr ≤ address ∧ address < segment.vaddr + segment.memsz

/-- What the image promises for a segment. -/
structure ProgramHeader.Fits (segment : ProgramHeader) (kernelSize : Nat) : Prop where
  same : segment.vaddr = segment.paddr
  aligned : segment.paddr % 4096 = 0
  sizes : segment.filesz ≤ segment.memsz
  inFile : segment.offset + segment.filesz ≤ kernelSize
  noWrap : segment.vaddr + segment.memsz < 2 ^ 64

/-- The program header `i` of the file. -/
def headerAt (memory : Memory) (kernelAddr i : Nat) : ProgramHeader :=
  programHeader memory (kernelAddr + ePhoff memory kernelAddr + 56 * i)

/-- The program headers of type `PT_LOAD` among the first `count` ones. -/
def segments (memory : Memory) (kernelAddr count : Nat) : List ProgramHeader :=
  ((List.range count).map (headerAt memory kernelAddr)).filter fun header => header.type = 1

/-- The kernel file stands in pages that have been allocated for it, its program headers are in the
file, and its segments fit. -/
structure WellFormed {State : Type} (allocated : State → Nat → Prop) (firmware : State)
    (memory : Memory) (kernelAddr kernelSize : Nat) : Prop where
  aligned : kernelAddr % 4096 = 0
  space : kernelAddr + kernelSize ≤ 2 ^ 64
  pages : ∀ page, kernelAddr / 4096 ≤ page → page < kernelAddr / 4096 + efiSizeToPages kernelSize →
    allocated firmware page
  table : ePhoff memory kernelAddr + 56 * ePhnum memory kernelAddr ≤ kernelSize
  fits : ∀ segment ∈ segments memory kernelAddr (ePhnum memory kernelAddr), segment.Fits kernelSize
  loads : segments memory kernelAddr (ePhnum memory kernelAddr) ≠ []

/-- An area that holds both kinds of headers and the bytes of all segments, in allocated pages. -/
structure Stands {State : Type} (allocated : State → Nat → Prop) (firmware : State)
    (memory : Memory) (kernelAddr area : Nat) : Prop where
  header : 64 ≤ area
  table : ePhoff memory kernelAddr + 56 * ePhnum memory kernelAddr ≤ area
  space : kernelAddr + area ≤ 2 ^ 64
  pages : ∀ address, kernelAddr ≤ address → address < kernelAddr + area →
    allocated firmware (address / 4096)
  fits : ∀ segment ∈ segments memory kernelAddr (ePhnum memory kernelAddr), segment.Fits area

/-- Pages are the quotient by the page size, rounded up. -/
theorem efiSizeToPages_eq (size : Nat) :
    size ≤ 4096 * efiSizeToPages size ∧ 4096 * efiSizeToPages size < size + 4096 := by
  have shift : size >>> 12 = size / 4096 := Nat.shiftRight_eq_div_pow _ 12
  have mask : size &&& 0xFFF = size % 4096 := Nat.and_two_pow_sub_one_eq_mod _ 12
  rw [efiSizeToPages, shift, mask]
  split <;> omega

/-- The pages of the file are such an area. -/
theorem WellFormed.stands {State : Type} {allocated : State → Nat → Prop} {firmware : State}
    {memory : Memory} {kernelAddr kernelSize : Nat}
    (wellFormed : WellFormed allocated firmware memory kernelAddr kernelSize) :
    Stands allocated firmware memory kernelAddr (4096 * efiSizeToPages kernelSize) := by
  have aligned := wellFormed.aligned
  have space := wellFormed.space
  have table := wellFormed.table
  have area := efiSizeToPages_eq kernelSize
  have headers : 0 < ePhnum memory kernelAddr := by
    apply Nat.pos_of_ne_zero
    intro none
    have loads := wellFormed.loads
    rw [none] at loads
    exact loads rfl
  constructor
  · omega
  · omega
  · omega
  · intro address lower upper
    exact wellFormed.pages _ (by omega) (by omega)
  · intro segment member
    have fits := wellFormed.fits segment member
    exact { fits with inFile := fits.inFile.trans area.1 }

section Headers

variable {first second : Memory}

/-- A program header is determined by its bytes. -/
theorem programHeader_congr {p : Nat} (fits : p + 56 ≤ 2 ^ 64)
    (same : ∀ address, p ≤ address → address < p + 56 → first.byte address = second.byte address) :
    programHeader first p = programHeader second p := by
  have field (offset size : Nat) (inside : offset + size ≤ 56) :
      first.read (p + offset) size = second.read (p + offset) size :=
    Memory.read_congr fun address lower upper => same address (by omega) (by omega)
  have type := field 0 4 (by omega)
  rw [programHeader, programHeader, add64_eq (by omega), add64_eq (by omega), add64_eq (by omega),
    add64_eq (by omega), add64_eq (by omega), field 8 8 (by omega), field 16 8 (by omega),
    field 24 8 (by omega), field 32 8 (by omega), field 40 8 (by omega)]
  rw [Nat.add_zero] at type
  rw [type]

/-- The number of program headers is determined by the header of the file. -/
theorem ePhnum_congr {header : Nat} (fits : header + 64 ≤ 2 ^ 64)
    (same : ∀ address, header ≤ address → address < header + 64 →
      first.byte address = second.byte address) : ePhnum first header = ePhnum second header := by
  rw [ePhnum, ePhnum, add64_eq (by omega)]
  exact Memory.read_congr fun address lower upper => same address (by omega) (by omega)

/-- The next header adds a segment exactly when it is one to load. -/
theorem segments_succ (memory : Memory) (kernelAddr count : Nat) :
    segments memory kernelAddr (count + 1) =
      segments memory kernelAddr count ++
        if (headerAt memory kernelAddr count).type = 1 then [headerAt memory kernelAddr count]
        else [] := by
  rw [segments, List.range_succ, List.map_append, List.filter_append, List.map_singleton]
  congr 1
  by_cases load : (headerAt memory kernelAddr count).type = 1
  · rw [if_pos load]
    exact List.filter_cons_of_pos (decide_eq_true load)
  · rw [if_neg load]
    exact List.filter_cons_of_neg (by simpa using load)

end Headers

section Placing

variable (memory : Memory) (kernelAddr : Nat) (segment : ProgramHeader)

/-- The memory with one segment in its place. -/
def placed : Memory :=
  (memory.move segment.vaddr (kernelAddr + segment.offset) segment.filesz).fill
    (segment.vaddr + segment.filesz) (segment.memsz - segment.filesz) 0

/-- A segment holds its bytes of the file and zeros behind them. -/
theorem placed_inside {offset : Nat} (inside : offset < segment.memsz) :
    (placed memory kernelAddr segment).byte (segment.vaddr + offset) =
      if offset < segment.filesz then memory.byte (kernelAddr + segment.offset + offset) else 0 := by
  unfold placed
  split
  · rename_i file
    rw [Memory.fill_outside (by omega), Memory.move_inside file]
  · have range : segment.vaddr + segment.filesz ≤ segment.vaddr + offset ∧
        segment.vaddr + offset <
          segment.vaddr + segment.filesz + (segment.memsz - segment.filesz) := by omega
    exact if_pos range

/-- Placing a segment leaves the bytes outside. -/
theorem placed_outside {segment : ProgramHeader} (sizes : segment.filesz ≤ segment.memsz)
    {address : Nat} (outside : ¬ segment.Holds address) :
    (placed memory kernelAddr segment).byte address = memory.byte address := by
  unfold ProgramHeader.Holds at outside
  rw [placed, Memory.fill_outside (by omega), Memory.move_outside (by omega)]

/-- Every address of a segment is in a page that is asked for. -/
theorem page_inside {segment : ProgramHeader} (aligned : segment.vaddr % 4096 = 0) {address : Nat}
    (inside : segment.Holds address) :
    segment.vaddr / 4096 ≤ address / 4096 ∧
      address / 4096 < segment.vaddr / 4096 + efiSizeToPages segment.memsz := by
  have pages := efiSizeToPages_eq segment.memsz
  unfold ProgramHeader.Holds at inside
  omega

end Placing

end ArchaOS.KernelImage
