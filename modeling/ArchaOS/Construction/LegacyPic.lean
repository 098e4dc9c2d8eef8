import ArchaOS.Library.InterruptController

/-
This file models kernel/arch/x86_64/interrupts/pic.c with outb and inb of kernel/arch/x86_64/io.h.
-/

namespace ArchaOS.LegacyPic

open Library

/-- `outb` takes the value first and the port second. -/
def outb (value : BitVec 8) (port : BitVec 16) (pics : ControllerPair) : ControllerPair :=
  pics.write port value

def inb (port : BitVec 16) (pics : ControllerPair) : BitVec 8 := pics.read port

/-- `pic_control[0]` and `pic_control[1]` -/
def masterControl : BitVec 16 := 0x20

def slaveControl : BitVec 16 := 0xA0

/-- `pic_data[0]` and `pic_data[1]` -/
def masterData : BitVec 16 := 0x21

def slaveData : BitVec 16 := 0xA1

def picIcw1 : BitVec 8 := 0x11

def picIcw4Master : BitVec 8 := 0x01

def picIcw4Slave : BitVec 8 := 0x05

def picInit (pic0base pic1base : BitVec 32) (pics : ControllerPair) : ControllerPair :=
  let pics := outb picIcw1 masterControl pics
  let pics := outb (pic0base.setWidth 8) masterData pics
  let pics := outb (1 <<< 2) masterData pics
  let pics := outb picIcw4Master masterData pics
  let pics := outb (~~~ (1 <<< 2)) masterData pics
  let pics := outb picIcw1 slaveControl pics
  let pics := outb (pic1base.setWidth 8) slaveData pics
  let pics := outb 2 slaveData pics
  let pics := outb picIcw4Slave slaveData pics
  outb (~~~ 0) slaveData pics

/-- `1 << irq` as an `int`, which is undefined for a shift by its width. -/
def irqBit (irq : BitVec 8) : Option (BitVec 32) :=
  if irq.toNat < 32 then some (1#32 <<< irq.toNat) else none

/-- One side of `pic_enable`: the mask is read, the bit is cleared, and the mask is written. -/
def unmask (data : BitVec 16) (irq : BitVec 8) (pics : ControllerPair) : Option ControllerPair := do
  let mask := inb data pics
  let bit ← irqBit irq
  let mask := (mask.setWidth 32 &&& ~~~ bit).setWidth 8
  return outb mask data pics

/-- `pic_enable`; the call that it makes of itself takes the first branch. -/
def picEnable (irq : BitVec 8) (pics : ControllerPair) : Option ControllerPair :=
  if irq < 8 then unmask masterData irq pics
  else do
    let pics ← unmask slaveData (irq - 8) pics
    unmask masterData 2 pics

/-- One side of `pic_disable`. -/
def maskOff (data : BitVec 16) (irq : BitVec 8) (pics : ControllerPair) : Option ControllerPair := do
  let mask := inb data pics
  let bit ← irqBit irq
  let mask := (mask.setWidth 32 ||| bit).setWidth 8
  return outb mask data pics

def picDisable (irq : BitVec 8) (pics : ControllerPair) : Option ControllerPair :=
  if irq < 8 then maskOff masterData irq pics else maskOff slaveData (irq - 8) pics

/-- `PIC_COMMAND_MASTER`, `PIC_COMMAND_SLAVE`, `PIC_DATA_MASTER` and `PIC_DATA_SLAVE` -/
def picCommandMaster : BitVec 8 := 0x20

def picCommandSlave : BitVec 8 := 0xA0

def picDataMaster : BitVec 8 := 0x21

def picDataSlave : BitVec 8 := 0xA1

/-- `pic_disable_total`, with the arguments of `outb` in the order in which it gives them. -/
def picDisableTotal (pics : ControllerPair) : ControllerPair :=
  let pics := outb picCommandMaster 0x11 pics
  let pics := outb picCommandSlave 0x11 pics
  let pics := outb picDataMaster 0x20 pics
  let pics := outb picDataSlave 0x28 pics
  let pics := outb picDataMaster 0x2 pics
  let pics := outb picDataSlave 0x4 pics
  let pics := outb picDataMaster 0x01 pics
  let pics := outb picDataSlave 0x01 pics
  let pics := outb picDataMaster 0xFF pics
  outb picDataSlave 0xFF pics

/-- The calls before the switch to the APIC. -/
inductive Call where
  | init (pic0base pic1base : BitVec 32)
  | enable (irq : BitVec 8)
  | disable (irq : BitVec 8)
  deriving DecidableEq, Repr

def Call.run (pics : ControllerPair) : Call → Option ControllerPair
  | .init pic0base pic1base => some (picInit pic0base pic1base pics)
  | .enable irq => picEnable irq pics
  | .disable irq => picDisable irq pics

/-- The state that a sequence of calls reaches, unless a call is undefined. -/
def runCalls (calls : List Call) (pics : ControllerPair) : Option ControllerPair :=
  calls.foldlM Call.run pics

end ArchaOS.LegacyPic
