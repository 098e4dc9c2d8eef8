import ArchaOS.Construction.KernelImage

/-
This file models load_file of bootloader/uefi.c.
-/

namespace ArchaOS.FileLoading

open Library KernelImage

/-- `EFI_LOAD_ERROR`, `EFI_INVALID_PARAMETER` and `EFI_BUFFER_TOO_SMALL` -/
def efiLoadError : Nat := 0x8000000000000001

def efiInvalidParameter : Nat := 0x8000000000000002

def efiBufferTooSmall : Nat := 0x8000000000000005

/-- The status of a call that hands out a file handle. -/
structure Opening where
  status : Nat
  handle : Nat
  deriving DecidableEq, Repr

/-- The status of a call that hands out a pool buffer. -/
structure Pooling where
  status : Nat
  address : Nat
  deriving DecidableEq, Repr

/-- The status of a call that gives a number of bytes. -/
structure Sizing where
  status : Nat
  size : Nat
  deriving DecidableEq, Repr

/-- What the firmware calls give, in the order of the calls, and the bytes of the file. A call whose
status is an error does nothing. -/
structure FirmwareCalls where
  /-- `HandleProtocol` with `LoadedImageGuid` and with `fsGuid` -/
  loadedImage : Nat
  fileSystem : Nat
  openVolume : Opening
  openFile : Opening
  /-- `GetInfo` without a buffer, which gives `fileInfoSize` -/
  infoSize : Sizing
  infoPool : Pooling
  /-- `GetInfo` with the buffer, which gives `FileSize` -/
  info : Sizing
  filePool : Pooling
  read : Sizing
  allocatePages : Nat
  contents : Nat → UInt8

/-- The variables of the function and what it has done so far. A pointer that may be `NULL` is an
option; `fileSize` is what the parameter points at. -/
structure Loading where
  fileSize : Option Nat
  fileInfo : Option Nat
  fileBuffer : Option Nat
  opened : List Nat
  closed : List Nat
  allocated : List (Nat × Nat)
  freed : List Nat
  pages : List (Nat × Nat)
  memory : Memory
  printed : List String

/-- `uefi_println` -/
def Loading.println (text : String) (loading : Loading) : Loading :=
  { loading with printed := loading.printed ++ [text] }

def Loading.close (handle : Nat) (loading : Loading) : Loading :=
  { loading with closed := loading.closed ++ [handle] }

/-- `if (pointer != NULL) gBS->FreePool(pointer)` -/
def Loading.freePool (pointer : Option Nat) (loading : Loading) : Loading :=
  match pointer with
  | none => loading
  | some address => { loading with freed := loading.freed ++ [address] }

/-- `Read` fills the start of a buffer with the bytes of the file. -/
def readInto (contents : Nat → UInt8) (buffer size : Nat) (memory : Memory) : Memory where
  byte other :=
    if buffer ≤ other ∧ other < buffer + size then contents (other - buffer) else memory.byte other

/-- The calls from the allocation of the file buffer up to the label `load_file_cleanup`. -/
def readContents (calls : FirmwareCalls) (loadAddress size : Nat) (loading : Loading) :
    Nat × Loading :=
  let status := calls.filePool.status
  if efiError status then (status, loading.println "[!] File buffer failed") else
  let fileBuffer := calls.filePool.address
  let loading :=
    { loading with fileBuffer := some fileBuffer, allocated := loading.allocated ++ [(fileBuffer, size)] }
  let status := calls.read.status
  let readSize := calls.read.size
  let loading :=
    if efiError status then loading
    else { loading with memory := readInto calls.contents fileBuffer readSize loading.memory }
  if efiError status ∨ readSize ≠ size then
    let loading := loading.println "[!] File read failed"
    let status := if ¬ efiError status then efiLoadError else status
    (status, loading)
  else
  let status := calls.allocatePages
  if efiError status then (status, loading.println "[!] File pages failed") else
  let loading := { loading with pages := loading.pages ++ [(loadAddress, efiSizeToPages size)] }
  (status, { loading with memory := loading.memory.move loadAddress fileBuffer size })

/-- The calls between the opened file and the label. -/
def loadContents (calls : FirmwareCalls) (loadAddress : Nat) (loading : Loading) : Nat × Loading :=
  let status := calls.infoSize.status
  let fileInfoSize := calls.infoSize.size
  if status ≠ efiBufferTooSmall then (status, loading.println "[!] GetInfo size failed") else
  let status := calls.infoPool.status
  if efiError status then (status, loading.println "[!] FileInfo allocation failed") else
  let fileInfo := calls.infoPool.address
  let loading :=
    { loading with fileInfo := some fileInfo, allocated := loading.allocated ++ [(fileInfo, fileInfoSize)] }
  let status := calls.info.status
  if efiError status then (status, loading.println "[!] GetInfo failed") else
  let size := calls.info.size
  let loading := { loading with fileSize := some size }
  if size = 0 then (efiLoadError, loading.println "[!] File is empty") else
  readContents calls loadAddress size loading

/-- The code from the label `load_file_cleanup` on. -/
def loadFileCleanup (root file status : Nat) (loading : Loading) : Nat × Loading :=
  let loading := loading.freePool loading.fileBuffer
  let loading := loading.freePool loading.fileInfo
  let loading := loading.close file
  let loading := loading.close root
  let loading := if efiError status then { loading with fileSize := some 0 } else loading
  (status, loading)

def loadFile (calls : FirmwareCalls) (path : Option (List UInt16)) (loadAddress : Nat)
    (fileSize : Option Nat) (memory : Memory) : Nat × Loading :=
  let loading : Loading := ⟨fileSize, none, none, [], [], [], [], [], memory, []⟩
  if path = none ∨ fileSize = none then (efiInvalidParameter, loading) else
  let loading := { loading with fileSize := some 0 }
  let status := calls.loadedImage
  if efiError status then (status, loading.println "[!] Failed to get loaded image") else
  let status := calls.fileSystem
  if efiError status then (status, loading.println "[!] No filesystem on device") else
  let status := calls.openVolume.status
  if efiError status then (status, loading.println "[!] OpenVolume failed") else
  let root := calls.openVolume.handle
  let loading := { loading with opened := loading.opened ++ [root] }
  let status := calls.openFile.status
  if efiError status then
    let loading := loading.println "[!] File not found"
    (status, loading.close root)
  else
  let file := calls.openFile.handle
  let loading := { loading with opened := loading.opened ++ [file] }
  let (status, loading) := loadContents calls loadAddress loading
  loadFileCleanup root file status loading

end ArchaOS.FileLoading
