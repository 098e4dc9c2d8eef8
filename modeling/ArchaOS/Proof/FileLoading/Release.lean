import ArchaOS.Construction.FileLoading
import ArchaOS.Proof.KernelImage.Segments

namespace ArchaOS.FileLoading

open Library KernelImage

/-- A file stands at its address, in pages that were allocated for it. -/
structure Stands (calls : FirmwareCalls) (loadAddress : Nat) (loading : Loading) (size : Nat) :
    Prop where
  reported : loading.fileSize = some size
  positive : 0 < size
  pages : loading.pages = [(loadAddress, efiSizeToPages size)]
  covered : size ≤ 4096 * efiSizeToPages size
  bytes : ∀ offset < size, loading.memory.byte (loadAddress + offset) = calls.contents offset

/-- The function loads the file or fails without a trace, and it gives back what it took. -/
structure LoadsOrFails (calls : FirmwareCalls) (loadAddress : Nat) (result : Nat × Loading) : Prop where
  loaded : ¬ efiError result.1 → ∃ size, Stands calls loadAddress result.2 size
  failed : efiError result.1 →
    (∀ size, result.2.fileSize = some size → size = 0) ∧ result.2.pages = []
  closed : result.2.closed.Perm result.2.opened
  freed : result.2.freed.Perm (result.2.allocated.map Prod.fst)

/-- The pointers show the buffers that were allocated, and nothing was given back yet. -/
structure Holding (opened : List Nat) (loading : Loading) : Prop where
  pools : loading.allocated.map Prod.fst = loading.fileInfo.toList ++ loading.fileBuffer.toList
  opened : loading.opened = opened
  closed : loading.closed = []
  freed : loading.freed = []

/-- Printing holds nothing and frees nothing. -/
theorem Holding.println {opened : List Nat} {loading : Loading} (holding : Holding opened loading)
    (text : String) : Holding opened (loading.println text) :=
  ⟨holding.pools, holding.opened, holding.closed, holding.freed⟩

theorem efiError_loadError : efiError efiLoadError := by decide

theorem efiError_bufferTooSmall : efiError efiBufferTooSmall := by decide

theorem efiError_invalidParameter : efiError efiInvalidParameter := by decide

/-- The bytes of the file are read into the buffer. -/
theorem readInto_inside {contents : Nat → UInt8} {buffer size offset : Nat} {memory : Memory}
    (inside : offset < size) :
    (readInto contents buffer size memory).byte (buffer + offset) = contents offset := by
  have within : buffer ≤ buffer + offset ∧ buffer + offset < buffer + size := by omega
  simp only [readInto, within, and_self, if_true, Nat.add_sub_cancel_left]

/-- How the part before the label ends: the first `GetInfo` gives a status that is no error, a call
fails, or the file is loaded. -/
inductive Ending (calls : FirmwareCalls) (loadAddress : Nat) (start : Option Nat) :
    Nat × Loading → Prop where
  | unsized {result} (status : ¬ efiError calls.infoSize.status)
      (same : result.1 = calls.infoSize.status) (size : result.2.fileSize = start) :
      Ending calls loadAddress start result
  | failed {result} (sized : efiError calls.infoSize.status) (status : efiError result.1)
      (pages : result.2.pages = []) : Ending calls loadAddress start result
  | loaded {result} (sized : efiError calls.infoSize.status) (status : ¬ efiError result.1) (size : Nat)
      (stands : Stands calls loadAddress result.2 size) : Ending calls loadAddress start result

section Contents

variable (calls : FirmwareCalls) {opened : List Nat} {loading : Loading}

/-- Reading the contents ends with an error or with the file in its buffer. -/
theorem readContents_ending (loadAddress : Nat) {size : Nat} (start : Option Nat)
    (holding : Holding opened loading) (buffer : loading.fileBuffer = none)
    (pages : loading.pages = []) (sized : efiError calls.infoSize.status)
    (reported : loading.fileSize = some size) (positive : size ≠ 0) :
    Holding opened (readContents calls loadAddress size loading).2 ∧
      Ending calls loadAddress start (readContents calls loadAddress size loading) := by
  by_cases filePool : efiError calls.filePool.status
  · rw [readContents, if_pos filePool]
    exact ⟨holding.println _, .failed sized filePool pages⟩
  have pools : (loading.allocated ++ [(calls.filePool.address, size)]).map Prod.fst =
      loading.fileInfo.toList ++ [calls.filePool.address] := by
    rw [List.map_append, holding.pools, buffer, Option.toList_none, List.append_nil]
    rfl
  by_cases readError : efiError calls.read.status
  · rw [readContents, if_neg filePool, if_pos (Or.inl readError)]
    simp only [readError, not_true, if_true, if_false]
    exact ⟨⟨pools, holding.opened, holding.closed, holding.freed⟩, .failed sized readError pages⟩
  by_cases short : calls.read.size ≠ size
  · rw [readContents, if_neg filePool, if_pos (Or.inr short)]
    simp only [readError, not_false_eq_true, if_true, if_false]
    exact ⟨⟨pools, holding.opened, holding.closed, holding.freed⟩,
      .failed sized efiError_loadError pages⟩
  have whole : ¬ (efiError calls.read.status ∨ calls.read.size ≠ size) := by
    simp only [readError, short, or_self, not_false_eq_true]
  rw [readContents, if_neg filePool, if_neg whole]
  simp only [readError, if_false]
  by_cases pageError : efiError calls.allocatePages
  · rw [if_pos pageError]
    exact ⟨⟨pools, holding.opened, holding.closed, holding.freed⟩, .failed sized pageError pages⟩
  · rw [if_neg pageError]
    refine ⟨⟨pools, holding.opened, holding.closed, holding.freed⟩, .loaded sized pageError size ?_⟩
    have bytes (offset : Nat) (inside : offset < size) :
        ((readInto calls.contents calls.filePool.address calls.read.size loading.memory).move
          loadAddress calls.filePool.address size).byte (loadAddress + offset) =
            calls.contents offset := by
      rw [Memory.move_inside inside, readInto_inside]
      omega
    exact
      { reported := reported
        positive := Nat.pos_of_ne_zero positive
        pages := congrArg (· ++ [(loadAddress, efiSizeToPages size)]) pages
        covered := (efiSizeToPages_eq size).1
        bytes := bytes }

/-- Asking for the size and reading the contents end in the same way. -/
theorem loadContents_ending (loadAddress : Nat) (holding : Holding opened loading)
    (info : loading.fileInfo = none) (buffer : loading.fileBuffer = none)
    (pages : loading.pages = []) :
    Holding opened (loadContents calls loadAddress loading).2 ∧
      Ending calls loadAddress loading.fileSize (loadContents calls loadAddress loading) := by
  by_cases other : calls.infoSize.status ≠ efiBufferTooSmall
  · rw [loadContents, if_pos other]
    refine ⟨holding.println _, ?_⟩
    by_cases error : efiError calls.infoSize.status
    · exact .failed error error pages
    · exact .unsized error rfl rfl
  have sized : efiError calls.infoSize.status := by
    rw [not_not.mp other]
    exact efiError_bufferTooSmall
  by_cases infoPool : efiError calls.infoPool.status
  · rw [loadContents, if_neg other, if_pos infoPool]
    exact ⟨holding.println _, .failed sized infoPool pages⟩
  have pools : (loading.allocated ++ [(calls.infoPool.address, calls.infoSize.size)]).map Prod.fst =
      [calls.infoPool.address] ++ loading.fileBuffer.toList := by
    rw [List.map_append, holding.pools, info, buffer]
    rfl
  rw [loadContents, if_neg other, if_neg infoPool]
  by_cases infoError : efiError calls.info.status
  · rw [if_pos infoError]
    exact ⟨⟨pools, holding.opened, holding.closed, holding.freed⟩, .failed sized infoError pages⟩
  rw [if_neg infoError]
  by_cases nothing : calls.info.size = 0
  · rw [if_pos nothing]
    exact ⟨⟨pools, holding.opened, holding.closed, holding.freed⟩,
      .failed sized efiError_loadError pages⟩
  · rw [if_neg nothing]
    exact readContents_ending calls loadAddress loading.fileSize
      ⟨pools, holding.opened, holding.closed, holding.freed⟩ buffer pages sized rfl nothing

end Contents

/-- Freeing a pointer records it, and freeing no pointer nothing. -/
theorem Loading.freePool_eq (pointer : Option Nat) (loading : Loading) :
    loading.freePool pointer = { loading with freed := loading.freed ++ pointer.toList } := by
  cases pointer with
  | none => simp only [Loading.freePool, Option.toList_none, List.append_nil]
  | some address => rfl

/-- The label gives back every buffer and both handles, whatever happened before. -/
theorem loadFileCleanup_eq {root file : Nat} {loading : Loading}
    (holding : Holding [root, file] loading) (status : Nat) :
    loadFileCleanup root file status loading =
      (status,
        { loading with
          freed := loading.fileBuffer.toList ++ loading.fileInfo.toList
          closed := [file, root]
          fileSize := if efiError status then some 0 else loading.fileSize }) := by
  simp only [loadFileCleanup, Loading.freePool_eq, Loading.close, holding.freed, holding.closed,
    List.nil_append, List.cons_append]
  split <;> rfl

/-- After the label only the status and the part before it matter. -/
theorem loadFileCleanup_iff {calls : FirmwareCalls} {loadAddress root file : Nat}
    {result : Nat × Loading} (holding : Holding [root, file] result.2)
    (ending : Ending calls loadAddress (some 0) result) :
    LoadsOrFails calls loadAddress (loadFileCleanup root file result.1 result.2) ↔
      efiError calls.infoSize.status := by
  have closed : List.Perm [file, root] result.2.opened := by
    rw [holding.opened]
    exact List.Perm.swap root file []
  have freed : (result.2.fileBuffer.toList ++ result.2.fileInfo.toList).Perm
      (result.2.allocated.map Prod.fst) := by
    rw [holding.pools]
    exact List.perm_append_comm
  rw [loadFileCleanup_eq holding]
  cases ending with
  | unsized status same size =>
      refine iff_of_false (fun loads => ?_) status
      rw [← same] at status
      obtain ⟨size', stands⟩ := loads.loaded status
      have reported := stands.reported
      simp only [status, if_false, size, Option.some.injEq] at reported
      exact absurd stands.positive (by omega)
  | failed sized status pages =>
      refine iff_of_true ⟨fun success => absurd status success, fun _ => ⟨?_, pages⟩, closed, freed⟩ sized
      intro size reported
      simp only [status, if_true, Option.some.injEq] at reported
      exact reported.symm
  | loaded sized status size stands =>
      refine iff_of_true ⟨fun _ => ⟨size, ?_⟩, fun error => absurd error status, closed, freed⟩ sized
      exact
        { reported := by simpa only [status, if_false] using stands.reported
          positive := stands.positive
          pages := stands.pages
          covered := stands.covered
          bytes := stands.bytes }

/-- A return before the label, with an error and with nothing left to give back. -/
theorem loadsOrFails_early (calls : FirmwareCalls) (loadAddress : Nat) {result : Nat × Loading}
    (error : efiError result.1) (pages : result.2.pages = [])
    (closed : result.2.closed = result.2.opened) (freed : result.2.freed = [])
    (allocated : result.2.allocated = []) :
    LoadsOrFails calls loadAddress result ↔ ∀ size, result.2.fileSize = some size → size = 0 := by
  constructor
  · exact fun loads => (loads.failed error).1
  · intro empty
    have pools : result.2.freed.Perm (result.2.allocated.map Prod.fst) := by
      rw [freed, allocated]
      rfl
    exact ⟨fun success => absurd error success, fun _ => ⟨empty, pages⟩, .of_eq closed, pools⟩

/-- The calls fail before the file is looked at, or the first `GetInfo` fails. -/
def FailsInTime (calls : FirmwareCalls) : Prop :=
  efiError calls.loadedImage ∨ efiError calls.fileSystem ∨ efiError calls.openVolume.status ∨
    efiError calls.openFile.status ∨ efiError calls.infoSize.status

/-- What the calls and the arguments must be for the function to keep its contract. -/
def Expected (calls : FirmwareCalls) : Option (List UInt16) → Option Nat → Prop
  | _, none => True
  | none, some size => size = 0
  | some _, some _ => FailsInTime calls

/-- `load_file` loads the file or fails without a trace exactly when the first `GetInfo`, if it is
called, gives an error. -/
theorem loadsOrFails_iff (calls : FirmwareCalls) (path : Option (List UInt16)) (loadAddress : Nat)
    (fileSize : Option Nat) (memory : Memory) :
    LoadsOrFails calls loadAddress (loadFile calls path loadAddress fileSize memory) ↔
      Expected calls path fileSize := by
  cases fileSize with
  | none =>
      rw [loadFile, if_pos (Or.inr rfl)]
      rw [loadsOrFails_early calls loadAddress efiError_invalidParameter rfl rfl rfl rfl]
      exact iff_of_true (fun size impossible => by cases impossible) trivial
  | some initial =>
  cases path with
  | none =>
      rw [loadFile, if_pos (Or.inl rfl)]
      rw [loadsOrFails_early calls loadAddress efiError_invalidParameter rfl rfl rfl rfl]
      simp only [Option.some.injEq, forall_eq', Expected]
  | some path =>
  have given : ¬ (some path = none ∨ some initial = none) := by simp
  have zero (size : Nat) (same : some 0 = some size) : size = 0 := (Option.some.inj same).symm
  rw [loadFile, if_neg given]
  simp only [Expected, FailsInTime]
  by_cases loadedImage : efiError calls.loadedImage
  · rw [if_pos loadedImage, loadsOrFails_early calls loadAddress loadedImage rfl rfl rfl rfl]
    exact iff_of_true zero (Or.inl loadedImage)
  by_cases fileSystem : efiError calls.fileSystem
  · rw [if_neg loadedImage, if_pos fileSystem,
      loadsOrFails_early calls loadAddress fileSystem rfl rfl rfl rfl]
    exact iff_of_true zero (Or.inr (Or.inl fileSystem))
  by_cases openVolume : efiError calls.openVolume.status
  · rw [if_neg loadedImage, if_neg fileSystem, if_pos openVolume,
      loadsOrFails_early calls loadAddress openVolume rfl rfl rfl rfl]
    exact iff_of_true zero (Or.inr (Or.inr (Or.inl openVolume)))
  by_cases openFile : efiError calls.openFile.status
  · rw [if_neg loadedImage, if_neg fileSystem, if_neg openVolume, if_pos openFile,
      loadsOrFails_early calls loadAddress openFile rfl rfl rfl rfl]
    exact iff_of_true zero (Or.inr (Or.inr (Or.inr (Or.inl openFile))))
  · rw [if_neg loadedImage, if_neg fileSystem, if_neg openVolume, if_neg openFile]
    simp only [loadedImage, fileSystem, openVolume, openFile, false_or]
    have start : Holding [calls.openVolume.handle, calls.openFile.handle]
        ⟨some 0, none, none, [calls.openVolume.handle, calls.openFile.handle], [], [], [], [], memory, []⟩ :=
      ⟨rfl, rfl, rfl, rfl⟩
    obtain ⟨holding, ending⟩ := loadContents_ending calls loadAddress start rfl rfl rfl
    exact loadFileCleanup_iff holding ending

/-- A first `GetInfo` that succeeds makes the function succeed with no file. -/
theorem loadsOrFails_fails :
    ¬ LoadsOrFails ⟨0, 0, ⟨0, 1⟩, ⟨0, 2⟩, ⟨0, 80⟩, ⟨0, 0x8000⟩, ⟨0, 512⟩, ⟨0, 0x9000⟩, ⟨0, 512⟩, 0, fun _ => 7⟩
      0x600000
      (loadFile ⟨0, 0, ⟨0, 1⟩, ⟨0, 2⟩, ⟨0, 80⟩, ⟨0, 0x8000⟩, ⟨0, 512⟩, ⟨0, 0x9000⟩, ⟨0, 512⟩, 0, fun _ => 7⟩
        (some []) 0x600000 (some 0) ⟨fun _ => 0⟩) := by
  intro loads
  have success : ¬ efiError 0 := by decide
  obtain ⟨size, stands⟩ := loads.loaded success
  have reported : some 0 = some size := stands.reported
  have positive := stands.positive
  cases reported
  exact absurd positive (by decide)

end ArchaOS.FileLoading
