import ArchaOS.Construction.VirtualMemory

/-
This file models the page tables that bootloader/uefi.c builds for the jump into the kernel.
-/

namespace ArchaOS.Handoff

open Library PhysicalMemory VirtualMemory

def ptePs : Nat := 1 <<< 7

def handoffIdentitySize : Nat := 512 * 1024 * 1024 * 1024

/-- The statuses that the mapping functions return. -/
inductive Status where
  | success
  | invalidParameter
  | outOfResources
  deriving DecidableEq, Repr

/-- The memory, frame by frame, and the answers that `AllocatePages` has still to give. -/
structure Loader where
  frames : Nat → Fin 512 → Nat
  supply : List (Option Nat)

def Loader.store (loader : Loader) (table : Nat) (index : Fin 512) (entry : Nat) : Loader :=
  { loader with frames := RadixTree.write loader.frames table index entry }

/-- `SetMem` of one page to zero. -/
def Loader.setMem (loader : Loader) (page : Nat) : Loader :=
  { loader with frames := Function.update loader.frames page fun _ => 0 }

/-- `AllocatePages` for one page. -/
def allocatePages (loader : Loader) : Option Nat × Loader :=
  (loader.supply.head?.join, { loader with supply := loader.supply.tail })

def allocateTable (loader : Loader) : Option Nat × Loader :=
  match allocatePages loader with
  | (none, loader) => (none, loader)
  | (some addr, loader) => (some addr, loader.setMem addr)

/-- One level of `map_handoff_page` creates the next table if it is missing and returns its address. -/
def handoffTable (table : Nat) (index : Fin 512) (loader : Loader) : Option Nat × Loader :=
  if loader.frames table index &&& ptePresent = 0 then
    match allocateTable loader with
    | (none, loader) => (none, loader)
    | (some addr, loader) =>
        let loader := loader.store table index (addr ||| ptePresent ||| pteRw)
        (some (loader.frames table index &&& pteAddrMask), loader)
  else (some (loader.frames table index &&& pteAddrMask), loader)

def mapHandoffPage (pml4 physical : Nat) (loader : Loader) : Status × Loader :=
  match handoffTable pml4 (pml4Index physical) loader with
  | (none, loader) => (.outOfResources, loader)
  | (some pdpt, loader) =>
      match handoffTable pdpt (pdptIndex physical) loader with
      | (none, loader) => (.outOfResources, loader)
      | (some pd, loader) =>
          match handoffTable pd (pdIndex physical) loader with
          | (none, loader) => (.outOfResources, loader)
          | (some pt, loader) =>
              (.success, loader.store pt (ptIndex physical) (tableEntry physical))

/-- The loop of `map_handoff_range` over the pages that are left. -/
def mapHandoffPages (pml4 : Nat) : List Nat → Loader → Status × Loader
  | [], loader => (.success, loader)
  | page :: rest, loader =>
      if page < handoffIdentitySize then mapHandoffPages pml4 rest loader
      else
        match mapHandoffPage pml4 page loader with
        | (.success, loader) => mapHandoffPages pml4 rest loader
        | failed => failed

/-- The pages that the loop of `map_handoff_range` visits. -/
def handoffPages (start last : Nat) : List Nat :=
  (List.range ((last - start + pageSize - 1) / pageSize)).map fun i => start + i * pageSize

/-- `map_handoff_range`, where its loop does not reach the last page of the address space. -/
def mapHandoffRange (pml4 physical size : Nat) (loader : Loader) : Status × Loader :=
  let start := physical &&& pageMask
  let last := add64 physical size
  if last < physical then (.invalidParameter, loader)
  else mapHandoffPages pml4 (handoffPages start last) loader

/-- The allocations of `efi_main` for the page directories, which all have to succeed. -/
def allocateDirectories : Nat → Loader → Option (List Nat × Loader)
  | 0, loader => some ([], loader)
  | count + 1, loader =>
      match allocatePages loader with
      | (none, _) => none
      | (some addr, loader) =>
          (allocateDirectories count loader).map fun (rest, loader) => (addr :: rest, loader)

/-- The inner loop of `efi_main` fills one directory with 2 MiB pages. -/
def fillDirectory (pd : Nat) (j : Fin 512) (loader : Loader) : Loader :=
  (List.finRange 512).foldl
    (fun loader i => loader.store pd i
      ((j.val * 0x40000000 + i.val * 0x200000) ||| ptePresent ||| pteRw ||| ptePs)) loader

/-- The part of `efi_main` that builds the map of the first 512 GiB. -/
def buildHandoffMap (loader : Loader) : Option (Nat × Loader) :=
  match allocatePages loader with
  | (none, _) => none
  | (some pml4, loader) =>
      match allocatePages loader with
      | (none, _) => none
      | (some pdpt, loader) =>
          match allocateDirectories 512 loader with
          | none => none
          | some (pds, loader) =>
              let pd : Fin 512 → Nat := fun j => pds.getD j.val 0
              let loader := (loader.setMem pml4).setMem pdpt
              let loader := (List.finRange 512).foldl (fun loader j => loader.setMem (pd j)) loader
              let loader := loader.store pml4 0 (pdpt ||| ptePresent ||| pteRw)
              let loader := (List.finRange 512).foldl
                (fun loader j => fillDirectory (pd j) j
                  (loader.store pdpt j (pd j ||| ptePresent ||| pteRw))) loader
              some (pml4, loader)

/-- An entry above the last level points to a table when it is present and has no `PTE_PS`. -/
def nextLevel (entry : Nat) : Option Nat :=
  if entry &&& ptePresent = 0 then none
  else if entry &&& ptePs = 0 then some (entry &&& pteAddrMask)
  else none

/-- A present entry with `PTE_PS` maps a large page. -/
def largePage (entry : Nat) : Bool := entry &&& ptePresent != 0 && entry &&& ptePs != 0

/-- The processor translates a canonical address through small or large pages. -/
def translate (frames : Nat → Fin 512 → Nat) (pml4 address : Nat) : Option Nat :=
  if canonical address then
    (RadixTree.leafAt nextLevel largePage frames pml4 (tablePath address)).map fun (level, entry) =>
      let size := pageSize * 512 ^ level
      (entry &&& pteAddrMask) / size * size + address % size
  else none

end ArchaOS.Handoff
