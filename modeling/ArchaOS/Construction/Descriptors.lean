import ArchaOS.Library.Descriptor

/-
This file models kernel/arch/x86_64/cpu/gdt/gdt.c and kernel/arch/x86_64/interrupts/idt.c.
-/

namespace ArchaOS.Descriptors

/-- `create_descriptor`; the shift promotes the flag to an `int`. -/
def createDescriptor (base limit : BitVec 32) (flag : BitVec 16) : BitVec 64 :=
  let descriptor : BitVec 64 := (limit &&& 0x000F0000).setWidth 64
  let descriptor := descriptor ||| (((flag.setWidth 32) <<< 8) &&& 0x00F0FF00).signExtend 64
  let descriptor := descriptor ||| ((base >>> 16) &&& 0x000000FF).setWidth 64
  let descriptor := descriptor ||| (base &&& 0xFF000000).setWidth 64
  let descriptor := descriptor <<< 32
  let descriptor := descriptor ||| (base <<< 16).setWidth 64
  descriptor ||| (limit &&& 0xFFFF).setWidth 64

abbrev Gdt := Fin 7 → BitVec 64

def tssGdtIndex : Fin 7 := 5

def setTssDescriptor (gdt : Gdt) (base : BitVec 64) (limit : BitVec 32) : Gdt :=
  let low : BitVec 64 := 0
  let low := low ||| (limit &&& 0xFFFF).setWidth 64
  let low := low ||| ((base &&& 0xFFFF) <<< 16)
  let low := low ||| (((base >>> 16) &&& 0xFF) <<< 32)
  let low := low ||| ((0x89 : BitVec 64) <<< 40)
  let low := low ||| (((limit >>> 16) &&& 0x0F).setWidth 64 <<< 48)
  let low := low ||| (((base >>> 24) &&& 0xFF) <<< 56)
  let high := base >>> 32
  Function.update (Function.update gdt tssGdtIndex low) (tssGdtIndex + 1) high

/-- The flag that the macros of gdt.h put together: `SEG_DESCTYPE(1)`, `SEG_PRES(1)`, `SEG_LONG`,
`SEG_SIZE`, `SEG_GRAN(1)`, `SEG_PRIV` and the type of the segment. -/
def segmentFlag (long size privilege type : BitVec 16) : BitVec 16 :=
  1 <<< 0x04 ||| 1 <<< 0x07 ||| long <<< 0x0D ||| size <<< 0x0E ||| 1 <<< 0x0F |||
    (privilege &&& 0x03) <<< 0x05 ||| type

/-- `SEG_CODE_EXRD` and `SEG_DATA_RDWR` -/
def segCodeExrd : BitVec 16 := 0x0A

def segDataRdwr : BitVec 16 := 0x02

/-- `GDT_CODE_PL0`, `GDT_DATA_PL0`, `GDT_CODE_PL3` and `GDT_DATA_PL3` -/
def gdtCodePl0 : BitVec 16 := segmentFlag 1 0 0 segCodeExrd

def gdtDataPl0 : BitVec 16 := segmentFlag 0 1 0 segDataRdwr

def gdtCodePl3 : BitVec 16 := segmentFlag 0 1 3 segCodeExrd

def gdtDataPl3 : BitVec 16 := segmentFlag 0 1 3 segDataRdwr

/-- The table that `init_gdt` writes and loads. -/
def initGdt (gdt : Gdt) : Gdt :=
  let gdt := Function.update gdt 0 0
  let gdt := Function.update gdt 1 (createDescriptor 0 0xFFFFF gdtCodePl0)
  let gdt := Function.update gdt 2 (createDescriptor 0 0xFFFFF gdtDataPl0)
  let gdt := Function.update gdt 3 (createDescriptor 0 0xFFFFF gdtCodePl3)
  let gdt := Function.update gdt 4 (createDescriptor 0 0xFFFFF gdtDataPl3)
  setTssDescriptor gdt 0 0xFFFFF

/-- `struct idt_entry` -/
structure IdtEntry where
  offsetLow : BitVec 16
  selector : BitVec 16
  ist : BitVec 8
  typeAttr : BitVec 8
  offsetMid : BitVec 16
  offsetHigh : BitVec 32
  zero : BitVec 32
  deriving DecidableEq, Repr

/-- The sixteen bytes of the packed structure as one little-endian number. -/
def IdtEntry.bits (entry : IdtEntry) : BitVec 128 :=
  entry.zero ++ entry.offsetHigh ++ entry.offsetMid ++ entry.typeAttr ++ entry.ist ++
    entry.selector ++ entry.offsetLow

/-- An entry of the table before anything is written to it. -/
def IdtEntry.cleared : IdtEntry := ⟨0, 0, 0, 0, 0, 0, 0⟩

def kernelCs : BitVec 16 := 0x08

/-- The globals of idt.c, and the register that `lidt` loads. -/
structure IdtState where
  idt : BitVec 8 → IdtEntry
  idtChanged : Bool
  idtr : BitVec 16 × BitVec 64

def idtSetGate (vector : BitVec 8) (handler : BitVec 64) (state : IdtState) : IdtState :=
  let addr := handler
  let entry : IdtEntry :=
    { offsetLow := (addr &&& 0xFFFF).setWidth 16
      selector := kernelCs
      ist := 0
      typeAttr := 0x8E
      offsetMid := ((addr >>> 16) &&& 0xFFFF).setWidth 16
      offsetHigh := (addr >>> 32).setWidth 32
      zero := 0 }
  { state with idt := Function.update state.idt vector entry }

def setIdtVector (vector : BitVec 8) (handler : BitVec 64) (state : IdtState) : IdtState :=
  if (state.idt vector).offsetLow ≠ 0 then state
  else
    let state := if state.idtChanged = false then { state with idtChanged := true } else state
    idtSetGate vector handler state

def loadIdt (size : BitVec 16) (base : BitVec 64) (state : IdtState) : IdtState :=
  { state with idtr := (size, base) }

/-- `sizeof(idt) - 1` -/
def idtLimit : BitVec 16 := 16 * 256 - 1

/-- `flush_idt_vector`; the table is at the address `table`. -/
def flushIdtVector (table : BitVec 64) (state : IdtState) : IdtState :=
  if state.idtChanged then loadIdt idtLimit table state else state

/-- The state before the first call; `idtr` holds what the processor last loaded. -/
def initialIdt (idtr : BitVec 16 × BitVec 64) : IdtState :=
  { idt := fun _ => IdtEntry.cleared, idtChanged := false, idtr }

/-- The calls that write to the table. -/
inductive IdtCall where
  | setGate (vector : BitVec 8) (handler : BitVec 64)
  | setVector (vector : BitVec 8) (handler : BitVec 64)
  deriving DecidableEq, Repr

def IdtCall.run (state : IdtState) : IdtCall → IdtState
  | .setGate vector handler => idtSetGate vector handler state
  | .setVector vector handler => setIdtVector vector handler state

end ArchaOS.Descriptors
