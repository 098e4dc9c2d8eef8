import Mathlib.Data.BitVec

namespace ArchaOS.Library

/-- What the next byte on the data port of an 8259 means. -/
inductive DataByte where
  | icw2 | icw3 | icw4 | mask
  deriving DecidableEq, Repr

/-- An 8259 interrupt controller; the base is the vector of its first line. -/
structure InterruptController where
  next : DataByte
  mask : BitVec 8
  base : BitVec 8
  deriving DecidableEq, Repr

namespace InterruptController

/-- A byte with bit 4 set on the command port starts the initialisation. -/
def writeCommand (controller : InterruptController) (byte : BitVec 8) : InterruptController :=
  if byte.getLsbD 4 then { controller with next := .icw2 } else controller

/-- Three bytes on the data port complete the initialisation, the first of them with the base, and any
other sets the mask. -/
def writeData (controller : InterruptController) (byte : BitVec 8) : InterruptController :=
  match controller.next with
  | .icw2 => { controller with next := .icw3, base := byte }
  | .icw3 => { controller with next := .icw4 }
  | .icw4 => { controller with next := .mask }
  | .mask => { controller with mask := byte }

/-- The controller has left the initialisation and lets no interrupt through. -/
def Silent (controller : InterruptController) : Prop :=
  controller.next = .mask ∧ controller.mask = 0xFF

instance (controller : InterruptController) : Decidable controller.Silent :=
  inferInstanceAs (Decidable (_ ∧ _))

end InterruptController

/-- The two controllers of a PC and their ports. -/
structure ControllerPair where
  master : InterruptController
  slave : InterruptController
  deriving DecidableEq, Repr

namespace ControllerPair

def write (pair : ControllerPair) (port : BitVec 16) (byte : BitVec 8) : ControllerPair :=
  if port = 0x20 then { pair with master := pair.master.writeCommand byte }
  else if port = 0x21 then { pair with master := pair.master.writeData byte }
  else if port = 0xA0 then { pair with slave := pair.slave.writeCommand byte }
  else if port = 0xA1 then { pair with slave := pair.slave.writeData byte }
  else pair

/-- The data ports read the masks. -/
def read (pair : ControllerPair) (port : BitVec 16) : BitVec 8 :=
  if port = 0x21 then pair.master.mask
  else if port = 0xA1 then pair.slave.mask
  else 0

/-- No legacy interrupt is delivered. -/
def Silent (pair : ControllerPair) : Prop := pair.master.Silent ∧ pair.slave.Silent

instance (pair : ControllerPair) : Decidable pair.Silent := inferInstanceAs (Decidable (_ ∧ _))

/-- Neither controller is being initialised. -/
def Ready (pair : ControllerPair) : Prop := pair.master.next = .mask ∧ pair.slave.next = .mask

/-- An interrupt on one of the sixteen lines is let through. -/
def passes (pair : ControllerPair) (line : Fin 16) : Bool :=
  if line.val < 8 then !pair.master.mask.getLsbD line.val
  else !pair.slave.mask.getLsbD (line.val - 8)

/-- The vector of a line: the upper five bits of the base, and the number of the line. -/
def vector (pair : ControllerPair) (line : Fin 16) : BitVec 8 :=
  let base := if line.val < 8 then pair.master.base else pair.slave.base
  (base &&& 0xF8) ||| BitVec.ofNat 8 (line.val % 8)

/-- A ready pair is silent exactly when every line is masked. -/
theorem silent_iff {pair : ControllerPair} (ready : pair.Ready) :
    pair.Silent ↔ ∀ line, pair.passes line = false := by
  have full (mask : BitVec 8) : mask = 0xFF ↔ ∀ index : Fin 8, mask.getLsbD index = true := by
    constructor
    · rintro rfl index
      revert index
      decide
    · intro set
      apply BitVec.eq_of_getLsbD_eq
      intro index inside
      have ones : ∀ index : Fin 8, (0xFF : BitVec 8).getLsbD index = true := by decide
      exact (set ⟨index, inside⟩).trans (ones ⟨index, inside⟩).symm
  simp only [Silent, InterruptController.Silent, ready.1, ready.2, true_and, full]
  constructor
  · rintro ⟨master, slave⟩ line
    unfold passes
    split
    · rename_i low
      simpa using master ⟨line, low⟩
    · rename_i high
      simpa using slave ⟨line.val - 8, by omega⟩
  · intro masked
    constructor
    · intro index
      simpa [passes] using masked ⟨index.val, by omega⟩
    · intro index
      simpa [passes] using masked ⟨index.val + 8, by omega⟩

/-- A write to any other port does not reach the controllers. -/
theorem write_elsewhere (pair : ControllerPair) {port : BitVec 16} (byte : BitVec 8)
    (elsewhere : port ∉ [0x20, 0x21, 0xA0, 0xA1]) : pair.write port byte = pair := by
  simp only [List.mem_cons, List.not_mem_nil, or_false, not_or] at elsewhere
  obtain ⟨command, data, slaveCommand, slaveData⟩ := elsewhere
  rw [write, if_neg command, if_neg data, if_neg slaveCommand, if_neg slaveData]

/-- A command byte with bit 4 clear changes no controller. -/
theorem write_command (pair : ControllerPair) {byte : BitVec 8} (operation : byte.getLsbD 4 = false) :
    pair.write 0x20 byte = pair := by
  have kept : pair.master.writeCommand byte = pair.master := if_neg (Bool.eq_false_iff.mp operation)
  rw [write, if_pos rfl, kept]

end ControllerPair

end ArchaOS.Library
