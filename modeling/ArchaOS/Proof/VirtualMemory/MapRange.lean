import ArchaOS.Proof.VirtualMemory.Unmapping

namespace ArchaOS.VirtualMemory

open Library PhysicalMemory RadixTree

variable {A B : Type}

/-- A run takes its pages one by one from `palloc` and stops with a panic at the first refusal. -/
def Draws (pages : A → Pmm) (before : Pmm) : Except Stop A → Prop
  | .ok value => ∃ count, Room count before ∧ pages value = pallocs count before
  | .error stop => ∃ count message, Room count before ∧ (palloc (pallocs count before)).1 = 0 ∧
      stop = .panic message

/-- There is room for pages of both parts. -/
theorem Room.add {first second : Nat} {pmm : Pmm} (room : Room first pmm)
    (room' : Room second (pallocs first pmm)) : Room (first + second) pmm := by
  intro taken low
  by_cases early : taken < first
  · exact room taken early
  · have later := room' (taken - first) (by omega)
    rwa [← pallocs_add, Nat.add_sub_of_le (not_lt.mp early)] at later

/-- What needs no page draws none. -/
theorem Draws.same {pages : A → Pmm} (value : A) : Draws pages (pages value) (.ok value) :=
  ⟨0, fun _ low => absurd low (Nat.not_lt_zero _), rfl⟩

/-- A run followed by another takes the pages of both. -/
theorem Draws.bind {pages : A → Pmm} {pages' : B → Pmm} {before : Pmm} {first : Except Stop A}
    {next : A → Except Stop B} (drawn : Draws pages before first)
    (rest : ∀ value, first = .ok value → Draws pages' (pages value) (next value)) :
    Draws pages' before (first >>= next) := by
  cases first with
  | error stop => exact drawn
  | ok value =>
      obtain ⟨count, room, same⟩ := drawn
      have later := rest value rfl
      change Draws pages' before (next value)
      rw [same] at later
      cases result : next value with
      | ok answer =>
          rw [result] at later
          obtain ⟨more, room', same'⟩ := later
          exact ⟨count + more, room.add room', same'.trans (pallocs_add count more before).symm⟩
      | error stop =>
          rw [result] at later
          obtain ⟨more, message, room', refused, same'⟩ := later
          refine ⟨count + more, message, room.add room', ?_, same'⟩
          rw [pallocs_add]
          exact refused

/-- One level of `map_page` draws its pages from `palloc`. -/
theorem nextTable_draws (message : String) (table : Nat) (index : Fin 512) (vmm : Vmm) :
    Draws (fun answer => answer.2.pmm) vmm.pmm (nextTable message table index vmm) := by
  unfold nextTable
  split
  · dsimp only
    split
    · rename_i refused
      exact ⟨0, message, fun _ low => absurd low (Nat.not_lt_zero _), refused, rfl⟩
    · rename_i success
      refine ⟨1, ?_, rfl⟩
      intro taken low
      rw [Nat.lt_one_iff.mp low]
      exact success
  · exact ⟨0, fun _ low => absurd low (Nat.not_lt_zero _), rfl⟩

/-- `map_page` draws its pages from `palloc`. -/
theorem mapPage_draws (phys virt pml4 : Nat) (vmm : Vmm) :
    Draws Vmm.pmm vmm.pmm (mapPage phys virt pml4 vmm) := by
  unfold mapPage
  refine (nextTable_draws _ _ _ vmm).bind fun pdpt _ => ?_
  refine (nextTable_draws _ _ _ pdpt.2).bind fun pd _ => ?_
  refine (nextTable_draws _ _ _ pd.2).bind fun pt _ => ?_
  exact Draws.same (pt.2.store pt.1 (ptIndex virt) (tableEntry phys))

/-- A series of `map_page` draws its pages from `palloc`. -/
theorem mapPages_draws (pml4 : Nat) (vmm : Vmm) (mappings : List Mapping) :
    Draws Vmm.pmm vmm.pmm (mapPages pml4 vmm mappings) := by
  induction mappings generalizing vmm with
  | nil => exact Draws.same vmm
  | cons mapping rest ih =>
      rw [mapPages, List.foldlM_cons]
      exact (mapPage_draws mapping.phys mapping.virt pml4 vmm).bind fun middle _ => ih middle

/-- Every byte of a range is mapped to its own byte, and no page outside the range changes. -/
structure MapsRange (phys virt size pml4 : Nat) (vmm after : Vmm) : Prop where
  mapped : ∀ b < size,
    (lookup after pml4 (virt + b)).map (· + (virt + b) % pageSize) = some (phys + b)
  kept : ∀ address, (∀ b < size, pageKey address ≠ pageKey (virt + b)) →
    lookup after pml4 address = lookup vmm pml4 address

section Bytes

variable {phys virt size : Nat} (aligned : phys % pageSize = virt % pageSize)
  (physLow : phys + size ≤ 2 ^ 47) (virtLow : virt + size ≤ 2 ^ 47)
include aligned physLow virtLow

/-- Every byte lies on the page of one call. -/
theorem rangePages_hit {b : Nat} (low : b < size) :
    ∃ mapping ∈ rangePages phys virt size, pageKey (virt + b) = pageKey mapping.virt := by
  refine ⟨_, (mem_rangePages aligned physLow virtLow _).mpr
    ⟨(virt + b) / pageSize - virt / pageSize, ?_, rfl⟩, ?_⟩
  · unfold pageSize
    omega
  · have ordered : virt / pageSize ≤ (virt + b) / pageSize := Nat.div_le_div_right (Nat.le_add_right _ _)
    dsimp only
    rw [Nat.add_sub_of_le ordered]
    unfold pageKey pageSize
    omega

/-- The call for the page of a byte names the frame of that byte. -/
theorem rangePages_frame {b : Nat} (low : b < size) {mapping : Mapping}
    (member : mapping ∈ rangePages phys virt size)
    (same : pageKey (virt + b) = pageKey mapping.virt) :
    mapping.phys &&& pteAddrMask = (phys + b) / pageSize * pageSize := by
  obtain ⟨i, inside, rfl⟩ := (mem_rangePages aligned physLow virtLow mapping).mp member
  have turn : phys / pageSize + i = (phys + b) / pageSize := by
    unfold pageKey at same
    unfold pageSize at *
    dsimp only at same
    omega
  dsimp only
  rw [turn]
  exact addrMask_page (by unfold pageSize; omega)

/-- Every call names a page that holds a byte of the range. -/
theorem rangePages_inside (nonempty : 0 < size) {mapping : Mapping}
    (member : mapping ∈ rangePages phys virt size) :
    ∃ b < size, pageKey mapping.virt = pageKey (virt + b) := by
  obtain ⟨i, inside, rfl⟩ := (mem_rangePages aligned physLow virtLow mapping).mp member
  refine ⟨(virt / pageSize + i) * pageSize - virt, ?_, ?_⟩
  · have whole := Nat.div_add_mod' virt pageSize
    rw [Nat.add_mul]
    omega
  · have first : virt / pageSize * pageSize ≤ virt := Nat.div_mul_le_self _ _
    cases i with
    | zero =>
        have none : (virt / pageSize + 0) * pageSize - virt = 0 := Nat.sub_eq_zero_of_le first
        rw [none, Nat.add_zero]
        exact pageKey_start.symm
    | succ i =>
        have above : virt ≤ (virt / pageSize + (i + 1)) * pageSize := by
          have whole := Nat.div_add_mod' virt pageSize
          have offset := Nat.mod_lt virt (show 0 < pageSize by decide)
          rw [Nat.add_mul, Nat.add_mul, Nat.one_mul]
          omega
        rw [Nat.add_sub_of_le above]

end Bytes

/-- In a well-formed state `map_range` maps every byte of its range, unless a call of `palloc` is
refused. -/
theorem mapRange_maps (phys virt size pml4 : Nat) (vmm : Vmm) (wellFormed : WellFormed pml4 vmm)
    (aligned : phys % pageSize = virt % pageSize) (nonempty : 0 < size)
    (physLow : phys + size ≤ 2 ^ 47) (virtLow : virt + size ≤ 2 ^ 47) :
    (∃ after, mapRange phys virt size pml4 vmm = .ok after ∧
      MapsRange phys virt size pml4 vmm after) ∨
    ∃ taken message, (∀ earlier < taken, (palloc (pallocs earlier vmm.pmm)).1 ≠ 0) ∧
      (palloc (pallocs taken vmm.pmm)).1 = 0 ∧
      mapRange phys virt size pml4 vmm = .error (.panic message) := by
  have valid := wellFormed.tables
  have fits : mappedSize phys size + pageSize ≤ 2 ^ 64 := by
    unfold mappedSize
    rw [pageMask_low (by omega), sub64_eq (Nat.div_mul_le_self _ _) (by omega)]
    unfold add64 pageSize
    omega
  have drawn := mapPages_draws pml4 vmm (rangePages phys virt size)
  have calls : mapRange phys virt size pml4 vmm = mapPages pml4 vmm (rangePages phys virt size) := by
    rw [mapRange_eq]
    simp only [fits, if_true]
    exact bind_pure _
  rw [calls]
  cases result : mapPages pml4 vmm (rangePages phys virt size) with
  | ok after =>
      refine Or.inl ⟨after, rfl, ?_, ?_⟩
      · intro b low
        have found := mapPages_lookup valid result
          (fun _ member => rangePages_frame aligned physLow virtLow low member)
          (Or.inr (rangePages_hit aligned physLow virtLow low))
        have offset : (virt + b) % pageSize = (phys + b) % pageSize := by
          rw [Nat.add_mod, ← aligned, ← Nat.add_mod]
        rw [found, Option.map_some, offset, Nat.div_add_mod']
      · intro address apart
        refine mapPages_lookup_other valid result fun mapping member same => ?_
        obtain ⟨b, low, page⟩ := rangePages_inside aligned physLow virtLow nonempty member
        exact apart b low (same.trans page)
  | error stop =>
      rw [result] at drawn
      obtain ⟨taken, message, room, refused, rfl⟩ := drawn
      exact Or.inr ⟨taken, message, room, refused, rfl⟩

/-- A range that starts inside a page is mapped in an empty table. -/
theorem mapRange_maps_blank :
    WellFormed 0x1000 blankVmm ∧ ∃ after, mapRange 0x7800 0x2800 0x1000 0x1000 blankVmm = .ok after ∧
      MapsRange 0x7800 0x2800 0x1000 0x1000 blankVmm after := by
  have calls : (mapPages 0x1000 blankVmm (rangePages 0x7800 0x2800 0x1000)).isOk = true := by
    decide +kernel
  cases mapRange_maps 0x7800 0x2800 0x1000 0x1000 blankVmm blankVmm_wellFormed (by decide) (by decide)
    (by decide) (by decide) with
  | inl returned => exact ⟨blankVmm_wellFormed, returned⟩
  | inr refused =>
      obtain ⟨_, message, _, _, stopped⟩ := refused
      rw [mapRange_eq] at stopped
      cases result : mapPages 0x1000 blankVmm (rangePages 0x7800 0x2800 0x1000) with
      | error stop =>
          rw [result] at calls
          cases calls
      | ok after =>
          rw [result] at stopped
          cases stopped
end ArchaOS.VirtualMemory
