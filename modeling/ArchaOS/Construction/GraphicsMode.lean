import ArchaOS.Construction.KernelImage

/-
This file models the part of efi_main in bootloader/uefi.c that picks a graphics mode, and the check
of the pixel format in kernel/startup.c.
-/

namespace ArchaOS.GraphicsMode

open KernelImage

/-- `EFI_GRAPHICS_OUTPUT_MODE_INFORMATION`; the format is a value of `EFI_GRAPHICS_PIXEL_FORMAT`. -/
structure ModeInfo where
  horizontalResolution : Nat
  verticalResolution : Nat
  pixelFormat : Nat
  deriving DecidableEq, Repr

/-- `PixelRedGreenBlueReserved8BitPerColor` and `PixelBlueGreenRedReserved8BitPerColor` -/
def pixelRedGreenBlue : Nat := 0

def pixelBlueGreenRed : Nat := 1

/-- What the graphics output protocol shows: `QueryMode` fails or describes a mode, and `Mode` and
`Info` describe the active one. -/
structure Gop where
  maxMode : Nat
  queryMode : Nat → Option ModeInfo
  mode : Nat
  info : ModeInfo
  agrees : ∀ shown, queryMode mode = some shown → shown = info

/-- What is known of a mode. -/
def Gop.infoOf (gop : Gop) (mode : Nat) : Option ModeInfo :=
  if mode = gop.mode then some gop.info else gop.queryMode mode

/-- `EFI_EDID_DISCOVERED_PROTOCOL`, where `none` stands for `NULL`. -/
structure EdidProtocol where
  sizeOfEdid : Nat
  edid : Option (Nat → UInt8)

/-- `HActive` and `VActive` -/
structure Monitor where
  hActive : Nat
  vActive : Nat
  deriving DecidableEq, Repr

/-- The code from `LocateProtocol` to `gop_pick`; without a monitor `skip_monitor` is set. The
protocol is `none` when it is not located. -/
def readEdid (located : Option EdidProtocol) : Outcome (Option Monitor) :=
  match located with
  | none => .ok none
  | some protocol =>
      if protocol.sizeOfEdid < 128 then .ok none else
      match protocol.edid with
      | none => .ok none
      | some edid =>
          let dtd (i : Nat) : Nat := (edid (54 + i)).toNat
          let pixelClock := dtd 0 ||| dtd 1 <<< 8
          if pixelClock = 0 then .error .panic
          else
            .ok (some
              { hActive := (dtd 2 + (dtd 4 &&& 0xF0) <<< 4) % 2 ^ 16
                vActive := (dtd 5 + (dtd 7 &&& 0xF0) <<< 4) % 2 ^ 16 })

/-- `choosenMode` and `foundMode` -/
structure Choice where
  choosenMode : Nat
  foundMode : Bool
  deriving DecidableEq, Repr

/-- `int preferClassic = 1` -/
def preferClassic : Bool := true

/-- `for (UINTN i = 0; i < gop->Mode->MaxMode; i++)`, from `i` on with `remaining` turns left -/
def pickLoop (gop : Gop) (monitor : Option Monitor) : Nat → Nat → Choice → Choice
  | 0, _, choice => choice
  | remaining + 1, i, choice =>
      match gop.queryMode i with
      | none => pickLoop gop monitor remaining (i + 1) choice
      | some info =>
          if info.pixelFormat ≠ pixelRedGreenBlue ∧ info.pixelFormat ≠ pixelBlueGreenRed then
            pickLoop gop monitor remaining (i + 1) choice
          else
            let choice := if !choice.foundMode then ⟨i, true⟩ else choice
            if monitor = some ⟨info.horizontalResolution, info.verticalResolution⟩ then
              { choice with choosenMode := i }
            else if preferClassic ∧ info.horizontalResolution = 1920 ∧ info.verticalResolution = 1080 then
              { choice with choosenMode := i }
            else pickLoop gop monitor remaining (i + 1) choice

/-- The code from `gop_pick` to `gop_end`. -/
def gopPick (gop : Gop) (monitor : Option Monitor) : Outcome Nat :=
  let choice := pickLoop gop monitor gop.maxMode 0 ⟨0, false⟩
  if !choice.foundMode then .error .panic
  else if monitor = none then .ok gop.mode
  else .ok choice.choosenMode

/-- The mode that `efi_main` chooses. -/
def chooseMode (gop : Gop) (located : Option EdidProtocol) : Outcome Nat := do
  let monitor ← readEdid located
  gopPick gop monitor

/-- `boot->framebuffer_pixel_format > 1` makes `kernel_main` return. -/
def kernelAccepts (pixelFormat : Nat) : Prop := ¬ pixelFormat > 1

instance : DecidablePred kernelAccepts := fun _ => inferInstanceAs (Decidable (¬ _))

end ArchaOS.GraphicsMode
