import ArchaOS.Proof.KernelImage.Segments

namespace ArchaOS.KernelImage

open Library

section Segment

variable {State : Type} {services : BootServices State} {allocated : State → Nat → Prop}
  {kernelAddr area : Nat}

/-- The ranges that the services get for a segment. -/
def ProgramHeader.writes (segment : ProgramHeader) : List (Nat × Nat) :=
  [(segment.vaddr, segment.filesz)] ++
    if segment.memsz > segment.filesz then
      [(segment.vaddr + segment.filesz, segment.memsz - segment.filesz)]
    else []

/-- The state after a segment has got its pages and its bytes. -/
def Loading.place (loading : Loading State) (services : BootServices State) (kernelAddr : Nat)
    (segment : ProgramHeader) : Loading State :=
  Loading.extend
    { loading with
      firmware := (services.allocatePages loading.firmware (efiSizeToPages segment.memsz)
        segment.paddr).2
      memory := placed loading.memory kernelAddr segment
      written := loading.written ++ segment.writes } segment

/-- The pages that a segment gets were free. -/
theorem granted_pages (documented : Documented services allocated) {segment : ProgramHeader}
    (fits : segment.Fits area) {firmware : State}
    (granted : ¬ efiError
      (services.allocatePages firmware (efiSizeToPages segment.memsz) segment.paddr).1)
    {address : Nat} (inside : segment.Holds address) :
    ¬ allocated firmware (address / 4096) ∧
      allocated (services.allocatePages firmware (efiSizeToPages segment.memsz) segment.paddr).2
        (address / 4096) := by
  have page := page_inside (fits.same ▸ fits.aligned) inside
  rw [fits.same] at page
  exact documented.exclusive _ _ _ fits.aligned granted _ page.1 page.2

/-- `CopyMem` gets the bytes of the file. -/
theorem copied_eq (documented : Documented services allocated) {segment : ProgramHeader}
    (fits : segment.Fits area) (space : kernelAddr + area ≤ 2 ^ 64) (memory : Memory) :
    services.copyMem segment.vaddr (add64 kernelAddr segment.offset) segment.filesz memory =
      memory.move segment.vaddr (kernelAddr + segment.offset) segment.filesz := by
  have inFile := fits.inFile
  have sizes := fits.sizes
  have noWrap := fits.noWrap
  have range := add64_lt kernelAddr segment.offset
  by_cases none : segment.filesz = 0
  · rw [none, documented.copies _ _ _ _ (by omega) (by omega), Memory.move_zero, Memory.move_zero]
  · have source : add64 kernelAddr segment.offset = kernelAddr + segment.offset :=
      add64_eq (by omega)
    rw [source, documented.copies _ _ _ _ (by omega) (by omega)]

/-- A header in the file is read again as long as only the segment has been written. -/
theorem header_kept {segment : ProgramHeader} {memory next : Memory} {p : Nat}
    (start : kernelAddr ≤ p) (end_ : p + 56 ≤ kernelAddr + area)
    (space : kernelAddr + area ≤ 2 ^ 64)
    (apart : ∀ address, kernelAddr ≤ address → address < kernelAddr + area →
      ¬ segment.Holds address)
    (outside : ∀ address, ¬ segment.Holds address → next.byte address = memory.byte address) :
    programHeader next p = programHeader memory p := by
  apply programHeader_congr (by omega)
  intro address lower upper
  exact outside address (apart address (by omega) (by omega))

/-- A granted segment is placed, if the file is not in its pages. -/
theorem loadSegment_granted (documented : Documented services allocated) {segment : ProgramHeader}
    (fits : segment.Fits area) (space : kernelAddr + area ≤ 2 ^ 64)
    {loading : Loading State} {p : Nat} (start : kernelAddr ≤ p)
    (end_ : p + 56 ≤ kernelAddr + area) (read : programHeader loading.memory p = segment)
    (granted : ¬ efiError
      (services.allocatePages loading.firmware (efiSizeToPages segment.memsz) segment.paddr).1)
    (apart : ∀ address, kernelAddr ≤ address → address < kernelAddr + area →
      ¬ segment.Holds address) :
    loadSegment services kernelAddr p loading = .ok (loading.place services kernelAddr segment) := by
  have sizes := fits.sizes
  have noWrap := fits.noWrap
  have copied := copied_eq documented fits space loading.memory
  have movedOutside (address : Nat) (outside : ¬ segment.Holds address) :
      (loading.memory.move segment.vaddr (kernelAddr + segment.offset) segment.filesz).byte address =
        loading.memory.byte address := by
    unfold ProgramHeader.Holds at outside
    exact Memory.move_outside (by omega)
  have again := (header_kept start end_ space apart movedOutside).trans read
  have last : programHeader (placed loading.memory kernelAddr segment) p = segment :=
    (header_kept start end_ space apart
      (fun _ => placed_outside loading.memory kernelAddr sizes)).trans read
  unfold loadSegment
  rw [read]
  dsimp only
  rw [if_neg granted]
  change Except.ok _ = _
  simp only [Loading.copyMem, copied, again]
  by_cases clears : segment.memsz > segment.filesz
  · have buffer : add64 segment.vaddr segment.filesz = segment.vaddr + segment.filesz :=
      add64_eq (by omega)
    have size : sub64 segment.memsz segment.filesz = segment.memsz - segment.filesz :=
      sub64_eq sizes (by omega)
    have cleared : services.setMem (segment.vaddr + segment.filesz) (segment.memsz - segment.filesz) 0
        (loading.memory.move segment.vaddr (kernelAddr + segment.offset) segment.filesz) =
          placed loading.memory kernelAddr segment := documented.sets _ _ _ _ (by omega)
    simp only [if_pos clears, Loading.setMem, buffer, size, cleared, last, Loading.place,
      ProgramHeader.writes, List.append_assoc]
  · have whole : segment.memsz - segment.filesz = 0 := by omega
    have unchanged : loading.memory.move segment.vaddr (kernelAddr + segment.offset) segment.filesz =
        placed loading.memory kernelAddr segment := by
      rw [placed, whole, Memory.fill_zero]
    simp only [if_neg clears, unchanged, last, Loading.place, ProgramHeader.writes, List.append_nil]

end Segment

section Run

variable {State : Type}

/-- The state of the loop after the segments of a list. -/
structure Loaded (allocated : State → Nat → Prop) (firmware : State) (memory : Memory)
    (kernelAddr area : Nat) (done : List ProgramHeader) (loading : Loading State) : Prop where
  kept : ∀ page, allocated firmware page → allocated loading.firmware page
  taken : ∀ segment ∈ done, ∀ address, segment.Holds address →
    allocated loading.firmware (address / 4096)
  content : ∀ segment ∈ done, ∀ offset < segment.memsz,
    loading.memory.byte (segment.vaddr + offset) =
      if offset < segment.filesz then memory.byte (kernelAddr + segment.offset + offset) else 0
  outside : ∀ address, (∀ segment ∈ done, ¬ segment.Holds address) →
    loading.memory.byte address = memory.byte address
  file : ∀ address, kernelAddr ≤ address → address < kernelAddr + area →
    loading.memory.byte address = memory.byte address
  written : ∀ range ∈ loading.written, ∃ segment ∈ done,
    segment.vaddr ≤ range.1 ∧ range.1 + range.2 ≤ segment.vaddr + segment.memsz
  physStart : RunningBest (· < ·) (done.map ProgramHeader.paddr) (2 ^ 64 - 1) loading.kernelPhysStart
  physEnd : RunningBest (· > ·) (done.map fun segment => segment.paddr + segment.memsz) 0
    loading.kernelPhysEnd
  virtStart : RunningBest (· < ·) (done.map ProgramHeader.vaddr) (2 ^ 64 - 1) loading.kernelVirtStart
  virtEnd : RunningBest (· > ·) (done.map fun segment => segment.vaddr + segment.memsz) 0
    loading.kernelVirtEnd

variable {services : BootServices State} {allocated : State → Nat → Prop} {firmware : State}
  {memory : Memory} {kernelAddr kernelSize area : Nat}

/-- Before the first header nothing is loaded. -/
theorem loaded_start : Loaded allocated firmware memory kernelAddr area []
    ⟨firmware, memory, 2 ^ 64 - 1, 0, 2 ^ 64 - 1, 0, []⟩ where
  kept _ granted := granted
  taken _ member := absurd member List.not_mem_nil
  content _ member := absurd member List.not_mem_nil
  outside _ _ := rfl
  file _ _ _ := rfl
  written _ member := absurd member List.not_mem_nil
  physStart := RunningBest.empty _ _
  physEnd := RunningBest.empty _ _
  virtStart := RunningBest.empty _ _
  virtEnd := RunningBest.empty _ _

section Turn

variable {done : List ProgramHeader} {loading : Loading State} {segment : ProgramHeader}
  (documented : Documented services allocated)
  (loaded : Loaded allocated firmware memory kernelAddr area done loading)
  (fits : segment.Fits area)
  (granted : ¬ efiError
    (services.allocatePages loading.firmware (efiSizeToPages segment.memsz) segment.paddr).1)
include documented loaded fits granted

/-- The pages of a segment hold neither the file nor an earlier segment. -/
theorem segment_apart {address : Nat} (inside : segment.Holds address) :
    ¬ allocated firmware (address / 4096) ∧ ∀ earlier ∈ done, ¬ earlier.Holds address := by
  have free := (granted_pages documented fits granted inside).1
  constructor
  · intro before
    exact free (loaded.kept _ before)
  · intro earlier member holds
    exact free (loaded.taken earlier member address holds)

/-- One more segment -/
theorem loaded_place
    (pages : ∀ address, kernelAddr ≤ address → address < kernelAddr + area →
      allocated firmware (address / 4096)) :
    Loaded allocated firmware memory kernelAddr area (done ++ [segment])
      (loading.place services kernelAddr segment) := by
  have apart {address : Nat} (inside : segment.Holds address) :=
    segment_apart documented loaded fits granted inside
  have sizes := fits.sizes
  have noWrap := fits.noWrap
  have outsideFile (address : Nat) (lower : kernelAddr ≤ address)
      (upper : address < kernelAddr + area) : ¬ segment.Holds address := fun inside =>
    (apart inside).1 (pages address lower upper)
  have physEnd : (loading.place services kernelAddr segment).kernelPhysEnd =
      if segment.paddr + segment.memsz > loading.kernelPhysEnd then segment.paddr + segment.memsz
      else loading.kernelPhysEnd := by
    rw [← add64_eq (show segment.paddr + segment.memsz < 2 ^ 64 from fits.same ▸ noWrap)]
    rfl
  have virtEnd : (loading.place services kernelAddr segment).kernelVirtEnd =
      if segment.vaddr + segment.memsz > loading.kernelVirtEnd then segment.vaddr + segment.memsz
      else loading.kernelVirtEnd := by
    rw [← add64_eq noWrap]
    rfl
  constructor
  · intro page before
    exact documented.kept _ _ _ _ (loaded.kept page before)
  · intro other member address inside
    cases List.mem_append.mp member with
    | inl earlier => exact documented.kept _ _ _ _ (loaded.taken other earlier address inside)
    | inr last =>
        rw [List.mem_singleton.mp last] at inside
        exact (granted_pages documented fits granted inside).2
  · intro other member offset inside
    change (placed loading.memory kernelAddr segment).byte _ = _
    cases List.mem_append.mp member with
    | inl earlier =>
        have holds : other.Holds (other.vaddr + offset) := by
          unfold ProgramHeader.Holds
          omega
        rw [placed_outside loading.memory kernelAddr sizes
          fun inside => (apart inside).2 other earlier holds]
        exact loaded.content other earlier offset inside
    | inr last =>
        rw [List.mem_singleton.mp last] at inside ⊢
        rw [placed_inside loading.memory kernelAddr segment inside]
        split
        · have inFile := fits.inFile
          exact loaded.file _ (by omega) (by omega)
        · rfl
  · intro address outside
    rw [List.forall_mem_append, List.forall_mem_singleton] at outside
    change (placed loading.memory kernelAddr segment).byte _ = _
    rw [placed_outside loading.memory kernelAddr sizes outside.2]
    exact loaded.outside address outside.1
  · intro address lower upper
    change (placed loading.memory kernelAddr segment).byte _ = _
    rw [placed_outside loading.memory kernelAddr sizes (outsideFile address lower upper)]
    exact loaded.file address lower upper
  · intro range member
    cases List.mem_append.mp member with
    | inl earlier =>
        obtain ⟨other, inside, bounds⟩ := loaded.written range earlier
        exact ⟨other, List.mem_append_left _ inside, bounds⟩
    | inr last =>
        exists segment
        constructor
        · exact List.mem_append_right _ (List.mem_singleton_self segment)
        · unfold ProgramHeader.writes at last
          split at last
          · rw [List.mem_append, List.mem_singleton, List.mem_singleton] at last
            cases last with
            | inl copied =>
                subst copied
                exact ⟨Nat.le_refl _, Nat.add_le_add_left sizes _⟩
            | inr cleared =>
                subst cleared
                constructor <;> dsimp only <;> omega
          · rw [List.append_nil, List.mem_singleton] at last
            subst last
            exact ⟨Nat.le_refl _, Nat.add_le_add_left sizes _⟩
  · rw [List.map_append]
    exact loaded.physStart.append segment.paddr
  · rw [List.map_append, physEnd]
    exact loaded.physEnd.append (segment.paddr + segment.memsz)
  · rw [List.map_append]
    exact loaded.virtStart.append segment.vaddr
  · rw [List.map_append, virtEnd]
    exact loaded.virtEnd.append (segment.vaddr + segment.memsz)

/-- One turn of the loop for a segment with free pages. -/
theorem loadSegment_loaded (space : kernelAddr + area ≤ 2 ^ 64)
    (pages : ∀ address, kernelAddr ≤ address → address < kernelAddr + area →
      allocated firmware (address / 4096)) {p : Nat} (start : kernelAddr ≤ p)
    (end_ : p + 56 ≤ kernelAddr + area) (read : programHeader loading.memory p = segment) :
    loadSegment services kernelAddr p loading = .ok (loading.place services kernelAddr segment) ∧
      Loaded allocated firmware memory kernelAddr area (done ++ [segment])
        (loading.place services kernelAddr segment) := by
  have apart (address : Nat) (lower : kernelAddr ≤ address)
      (upper : address < kernelAddr + area) : ¬ segment.Holds address := fun inside =>
    (segment_apart documented loaded fits granted inside).1 (pages address lower upper)
  exact ⟨loadSegment_granted documented fits space start end_ read granted apart,
    loaded_place documented loaded fits granted pages⟩

end Turn

/-- A segment whose pages are refused panics. -/
theorem loadSegment_refused {p : Nat} {loading : Loading State} {segment : ProgramHeader}
    (read : programHeader loading.memory p = segment)
    (refused : efiError
      (services.allocatePages loading.firmware (efiSizeToPages segment.memsz) segment.paddr).1) :
    loadSegment services kernelAddr p loading = .error .panic := by
  unfold loadSegment
  rw [read]
  dsimp only
  rw [if_pos refused]
  rfl

/-- Loading keeps the number of program headers. -/
theorem loaded_phnum (stands : Stands allocated firmware memory kernelAddr area)
    {done : List ProgramHeader} {loading : Loading State}
    (loaded : Loaded allocated firmware memory kernelAddr area done loading) :
    ePhnum loading.memory kernelAddr = ePhnum memory kernelAddr := by
  have header := stands.header
  have space := stands.space
  apply ePhnum_congr (by omega)
  intro address lower upper
  exact loaded.file address lower (by omega)

/-- A header of type `PT_LOAD` is one of the segments. -/
theorem headerAt_segment {i : Nat} (inside : i < ePhnum memory kernelAddr)
    (load : (headerAt memory kernelAddr i).type = 1) :
    headerAt memory kernelAddr i ∈ segments memory kernelAddr (ePhnum memory kernelAddr) := by
  rw [segments, List.mem_filter]
  exact ⟨List.mem_map_of_mem (List.mem_range.mpr inside), decide_eq_true load⟩

/-- The loop panics, or it loads all segments. -/
theorem loadLoop_loaded (documented : Documented services allocated)
    (stands : Stands allocated firmware memory kernelAddr area) {rest i fuel : Nat}
    (whole : i + rest = ePhnum memory kernelAddr) (enough : rest < fuel) {loading : Loading State}
    (loaded : Loaded allocated firmware memory kernelAddr area
      (segments memory kernelAddr i) loading) :
    loadLoop services kernelAddr (add64 kernelAddr (ePhoff memory kernelAddr)) fuel i loading =
        .error .panic ∨
      ∃ final,
        loadLoop services kernelAddr (add64 kernelAddr (ePhoff memory kernelAddr)) fuel i loading =
            .ok final ∧
          Loaded allocated firmware memory kernelAddr area
            (segments memory kernelAddr (ePhnum memory kernelAddr)) final := by
  have header := stands.header
  have table := stands.table
  have space := stands.space
  have count : ePhnum memory kernelAddr < 2 ^ 16 := Memory.read_lt _ _ 2
  induction rest generalizing i fuel loading with
  | zero =>
      cases fuel with
      | zero => exact absurd enough (Nat.lt_irrefl 0)
      | succ fuel =>
          have phnum := loaded_phnum stands loaded
          have ended : ¬ i < ePhnum loading.memory kernelAddr := by omega
          have last : i = ePhnum memory kernelAddr := by omega
          rw [loadLoop, if_neg ended]
          exact Or.inr ⟨loading, rfl, last ▸ loaded⟩
  | succ rest ih =>
      cases fuel with
      | zero => exact absurd enough (Nat.not_lt_zero _)
      | succ fuel =>
          have phnum := loaded_phnum stands loaded
          have more : i < ePhnum loading.memory kernelAddr := by omega
          have next : (i + 1) % 2 ^ 16 = i + 1 := Nat.mod_eq_of_lt (by omega)
          have address : add64 (add64 kernelAddr (ePhoff memory kernelAddr))
              (mul64 i programHeaderSize) = kernelAddr + ePhoff memory kernelAddr + 56 * i := by
            have first : add64 kernelAddr (ePhoff memory kernelAddr) =
                kernelAddr + ePhoff memory kernelAddr := add64_eq (by omega)
            rw [first, programHeaderSize, mul64_eq (by omega), add64_eq (by omega), Nat.mul_comm i]
          have read : programHeader loading.memory
              (kernelAddr + ePhoff memory kernelAddr + 56 * i) = headerAt memory kernelAddr i :=
            programHeader_congr (by omega) fun other lower upper =>
              loaded.file other (by omega) (by omega)
          have later := segments_succ memory kernelAddr i
          rw [loadLoop, if_pos more]
          dsimp only
          rw [address, read, next]
          by_cases load : (headerAt memory kernelAddr i).type = 1
          · have fits := stands.fits _ (headerAt_segment (by omega) load)
            rw [if_pos load] at later
            rw [if_neg (not_not.mpr load)]
            by_cases refused : efiError (services.allocatePages loading.firmware
              (efiSizeToPages (headerAt memory kernelAddr i).memsz)
                (headerAt memory kernelAddr i).paddr).1
            · rw [loadSegment_refused read refused]
              exact Or.inl rfl
            · obtain ⟨run, placed⟩ := loadSegment_loaded documented loaded fits refused space
                stands.pages (by omega) (by omega) read
              rw [run]
              exact ih (by omega) (by omega) (later ▸ placed)
          · rw [if_neg load, List.append_nil] at later
            rw [if_pos load]
            exact ih (by omega) (by omega) (later ▸ loaded)

/-- What the loop promises when it does not panic. -/
structure SegmentsLoaded (memory : Memory) (kernelAddr : Nat) (loading : Loading State) : Prop where
  content : ∀ segment ∈ segments memory kernelAddr (ePhnum memory kernelAddr),
    (∀ offset < segment.filesz, loading.memory.byte (segment.vaddr + offset) =
      memory.byte (kernelAddr + (segment.offset + offset))) ∧
    ∀ offset < segment.memsz - segment.filesz,
      loading.memory.byte (segment.vaddr + segment.filesz + offset) = 0
  written : ∀ range ∈ loading.written,
    ∃ segment ∈ segments memory kernelAddr (ePhnum memory kernelAddr),
      segment.vaddr ≤ range.1 ∧ range.1 + range.2 ≤ segment.vaddr + segment.memsz
  outside : ∀ address,
    (∀ segment ∈ segments memory kernelAddr (ePhnum memory kernelAddr), ¬ segment.Holds address) →
      loading.memory.byte address = memory.byte address
  physStart : IsLeast {start | ∃ segment ∈ segments memory kernelAddr (ePhnum memory kernelAddr),
    segment.paddr = start} loading.kernelPhysStart
  physEnd : IsGreatest {end_ | ∃ segment ∈ segments memory kernelAddr (ePhnum memory kernelAddr),
    segment.paddr + segment.memsz = end_} loading.kernelPhysEnd
  virtStart : IsLeast {start | ∃ segment ∈ segments memory kernelAddr (ePhnum memory kernelAddr),
    segment.vaddr = start} loading.kernelVirtStart
  virtEnd : IsGreatest {end_ | ∃ segment ∈ segments memory kernelAddr (ePhnum memory kernelAddr),
    segment.vaddr + segment.memsz = end_} loading.kernelVirtEnd
  covers : ∀ segment ∈ segments memory kernelAddr (ePhnum memory kernelAddr),
    loading.bootInfo.kernelVirtualAddress ≤ segment.vaddr ∧
      segment.vaddr + segment.memsz ≤
        loading.bootInfo.kernelVirtualAddress + loading.bootInfo.kernelSize

/-- When every header has been read, the segments are loaded. -/
theorem segmentsLoaded (wellFormed : WellFormed allocated firmware memory kernelAddr kernelSize)
    {loading : Loading State}
    (loaded : Loaded allocated firmware memory kernelAddr area
      (segments memory kernelAddr (ePhnum memory kernelAddr)) loading) :
    SegmentsLoaded memory kernelAddr loading := by
  have some {Value : Type} (f : ProgramHeader → Value) :
      (segments memory kernelAddr (ePhnum memory kernelAddr)).map f ≠ [] := by
    rw [Ne, List.map_eq_nil_iff]
    exact wellFormed.loads
  have values (f : ProgramHeader → Nat) :
      {value | value ∈ (segments memory kernelAddr (ePhnum memory kernelAddr)).map f} =
        {value | ∃ segment ∈ segments memory kernelAddr (ePhnum memory kernelAddr),
          f segment = value} := by
    ext value
    exact List.mem_map
  have virtStart := loaded.virtStart.isLeast (some _) (by
    intro value member
    obtain ⟨segment, inside, rfl⟩ := List.mem_map.mp member
    have noWrap := (wellFormed.fits segment inside).noWrap
    omega)
  have physStart := loaded.physStart.isLeast (some _) (by
    intro value member
    obtain ⟨segment, inside, rfl⟩ := List.mem_map.mp member
    have fits := wellFormed.fits segment inside
    have same := fits.same
    have noWrap := fits.noWrap
    omega)
  have virtEnd := loaded.virtEnd.isGreatest (some _) fun value _ => Nat.zero_le value
  have physEnd := loaded.physEnd.isGreatest (some _) fun value _ => Nat.zero_le value
  rw [values] at virtStart physStart virtEnd physEnd
  constructor
  · intro segment member
    have sizes := (wellFormed.fits segment member).sizes
    have content := loaded.content segment member
    constructor
    · intro offset inside
      rw [content offset (by omega), if_pos inside, Nat.add_assoc]
    · intro offset inside
      rw [Nat.add_assoc, content _ (by omega), if_neg (by omega)]
  · exact loaded.written
  · exact loaded.outside
  · exact physStart
  · exact physEnd
  · exact virtStart
  · exact virtEnd
  · intro segment member
    have lower : loading.kernelVirtStart ≤ segment.vaddr := virtStart.2 ⟨segment, member, rfl⟩
    have upper : segment.vaddr + segment.memsz ≤ loading.kernelVirtEnd :=
      virtEnd.2 ⟨segment, member, rfl⟩
    obtain ⟨last, inside, ends⟩ := virtEnd.1
    have noWrap := (wellFormed.fits last inside).noWrap
    have size : sub64 loading.kernelVirtEnd loading.kernelVirtStart =
        loading.kernelVirtEnd - loading.kernelVirtStart := sub64_eq (by omega) (by omega)
    change loading.kernelVirtStart ≤ segment.vaddr ∧ segment.vaddr + segment.memsz ≤
      loading.kernelVirtStart + sub64 loading.kernelVirtEnd loading.kernelVirtStart
    omega

/-- Unless it panics, the loop places every segment with its file bytes and its zeros, writes nothing
else, and finds the least start and the greatest end of the segments. -/
theorem loadKernel_loads (documented : Documented services allocated)
    (wellFormed : WellFormed allocated firmware memory kernelAddr kernelSize) {fuel : Nat}
    (enough : ePhnum memory kernelAddr < fuel) :
    loadKernel services kernelAddr fuel firmware memory = .error .panic ∨
      ∃ loading, loadKernel services kernelAddr fuel firmware memory = .ok loading ∧
        SegmentsLoaded memory kernelAddr loading := by
  have start : Loaded allocated firmware memory kernelAddr (4096 * efiSizeToPages kernelSize)
      (segments memory kernelAddr 0) ⟨firmware, memory, 2 ^ 64 - 1, 0, 2 ^ 64 - 1, 0, []⟩ :=
    loaded_start
  have run := loadLoop_loaded documented wellFormed.stands (Nat.zero_add _) enough start
  cases run with
  | inl panics => exact Or.inl panics
  | inr final =>
      obtain ⟨loading, run, loaded⟩ := final
      exact Or.inr ⟨loading, run, segmentsLoaded wellFormed loaded⟩

end Run

section Example

/-- A firmware that keeps a list of the allocated pages -/
def pageList : BootServices (List Nat) where
  allocatePages state pages address :=
    if (List.range pages).any fun page => (address / 4096 + page) ∈ state then
      (0x8000000000000009, state)
    else (0, (List.range pages).map (address / 4096 + ·) ++ state)
  copyMem destination source length memory := memory.move destination source length
  setMem buffer size value memory := memory.fill buffer size value

/-- The firmware that keeps a list of its pages behaves as documented. -/
theorem pageList_documented : Documented pageList fun state page => page ∈ state where
  exclusive state pages address _ granted page lower upper := by
    have inside : page - address / 4096 ∈ List.range pages := List.mem_range.mpr (by omega)
    have position : address / 4096 + (page - address / 4096) = page := by omega
    simp only [pageList] at granted ⊢
    split at granted
    · exact absurd (show efiError 0x8000000000000009 by decide) granted
    · rename_i free
      rw [if_neg free]
      rw [List.any_eq_true] at free
      constructor
      · intro taken
        exact free ⟨_, inside, decide_eq_true (position.symm ▸ taken)⟩
      · exact List.mem_append_left _ (List.mem_map.mpr ⟨_, inside, position⟩)
  kept state pages address page before := by
    simp only [pageList]
    split
    · exact before
    · exact List.mem_append_right _ before
  copies _ _ _ _ _ _ := rfl
  sets _ _ _ _ _ := rfl

/-- A file of one page at address 0 with two segments and a note between them: five bytes at 4096, three
of them in the file, and four at 12288, two of them in the file. -/
def twoSegments : Memory where
  byte address :=
    ([(32, 64), (56, 3), (64, 1), (73, 2), (81, 16), (89, 16), (96, 3), (104, 5), (120, 4), (176, 1),
      (185, 3), (193, 48), (201, 48), (208, 2), (216, 4), (512, 11), (513, 12), (514, 13), (768, 21),
      (769, 22)].lookup address).getD 0

/-- Both segments are loaded, with the bytes of the file. -/
theorem loadKernel_loads_two :
    ∃ loading, loadKernel pageList 0 4 [0] twoSegments = .ok loading ∧
      SegmentsLoaded twoSegments 0 loading ∧
      loading.memory.byte 4098 = 13 ∧ loading.memory.byte 12289 = 22 := by
  have phnum : ePhnum twoSegments 0 = 3 := by decide
  have both : segments twoSegments 0 3 = [⟨1, 512, 4096, 4096, 3, 5⟩, ⟨1, 768, 12288, 12288, 2, 4⟩] := by
    decide
  have wellFormed : WellFormed (fun state page => page ∈ state) [0] twoSegments 0 4096 := by
    constructor
    · decide
    · decide
    · intro page _ upper
      have first : page < 1 := upper
      rw [Nat.lt_one_iff.mp first]
      exact List.mem_singleton_self 0
    · decide
    · rw [phnum, both]
      intro segment member
      rcases List.mem_pair.mp member with rfl | rfl <;> constructor <;> decide
    · rw [phnum, both]
      exact List.cons_ne_nil _ _
  have granted : (loadKernel pageList 0 4 [0] twoSegments).isOk = true := by decide
  cases loadKernel_loads pageList_documented wellFormed (show ePhnum twoSegments 0 < 4 by decide) with
  | inl panics =>
      rw [panics] at granted
      cases granted
  | inr loaded =>
      obtain ⟨loading, result, loaded⟩ := loaded
      have content := loaded.content
      rw [phnum, both] at content
      refine ⟨loading, result, loaded, ?_, ?_⟩
      · exact ((content _ (List.mem_cons_self ..)).1 2 (by decide)).trans (by decide)
      · exact ((content _ (List.mem_cons_of_mem _ (List.mem_singleton_self _))).1 1 (by decide)).trans
          (by decide)

end Example

end ArchaOS.KernelImage
