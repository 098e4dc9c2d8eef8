import ArchaOS.Construction.Handoff
import ArchaOS.Library.Traced

/-
This file models the loop of map_handoff_range in bootloader/uefi.c with its 64-bit variable.
-/

namespace ArchaOS.Handoff

open Library PhysicalMemory VirtualMemory

/-- `for (page = start; page < end; page += PAGE_SIZE)`, for a bounded number of turns. The events are
the pages that it visits, and there is no status while it runs. -/
def handoffLoop (pml4 last : Nat) : Nat → Nat → Loader → Traced Nat (Option Status × Loader)
  | 0, _, loader => pure (none, loader)
  | fuel + 1, page, loader =>
      if page < last then do
        ⟨[page], ()⟩
        if page < handoffIdentitySize then
          handoffLoop pml4 last fuel (add64 page pageSize) loader
        else
          match mapHandoffPage pml4 page loader with
          | (.success, loader) => handoffLoop pml4 last fuel (add64 page pageSize) loader
          | (failed, loader) => pure (some failed, loader)
      else pure (some .success, loader)

/-- `map_handoff_range` with this loop. -/
def mapHandoffRangeLoop (pml4 physical size fuel : Nat) (loader : Loader) :
    Traced Nat (Option Status × Loader) :=
  let start := physical &&& pageMask
  let last := add64 physical size
  if last < physical then pure (some .invalidParameter, loader)
  else handoffLoop pml4 last fuel start loader

end ArchaOS.Handoff
