import ArchaOS.Construction.LegacyPic

namespace ArchaOS.LegacyPic

open Library ControllerPair

/-- What a call does to a line: lets it pass, masks it, or leaves it alone. -/
def Call.setsLine (line : Fin 16) : Call → Option Bool
  | .init _ _ => some (line = 2)
  | .enable irq =>
      if line.val = irq.toNat ∨ (8 ≤ irq.toNat ∧ line = 2) then some true else none
  | .disable irq => if line.val = irq.toNat then some false else none

/-- A line passes after some calls: the last one that sets it decides. -/
def passesAfter (start : ControllerPair) (calls : List Call) (line : Fin 16) : Bool :=
  calls.foldl (fun before call => (call.setsLine line).getD before) (start.passes line)

/-- After `pic_init` only the line of the second controller passes. -/
theorem picInit_passes (pic0base pic1base : BitVec 32) (pics : ControllerPair) :
    (picInit pic0base pic1base pics).Ready ∧
      ∀ line, (picInit pic0base pic1base pics).passes line = decide (line = 2) := by
  have result : picInit pic0base pic1base pics =
      ⟨⟨.mask, 0xFB, pic0base.setWidth 8⟩, ⟨.mask, 0xFF, pic1base.setWidth 8⟩⟩ := rfl
  have lines : ∀ line : Fin 16, passes ⟨⟨.mask, 0xFB, pic0base.setWidth 8⟩,
      ⟨.mask, 0xFF, pic1base.setWidth 8⟩⟩ line = passes ⟨⟨.mask, 0xFB, 0⟩, ⟨.mask, 0xFF, 0⟩⟩ line :=
    fun _ => rfl
  rw [result]
  exact ⟨⟨rfl, rfl⟩, fun line => (lines line).trans (by revert line; decide)⟩

/-- A byte on a data port sets the mask of a ready controller. -/
theorem outb_masterData {pics : ControllerPair} (ready : pics.Ready) (mask : BitVec 8) :
    (outb mask masterData pics).Ready ∧ ∀ line, (outb mask masterData pics).passes line =
      if line.val < 8 then !mask.getLsbD line.val else pics.passes line := by
  have written : pics.master.writeData mask = { pics.master with mask := mask } := by
    simp [InterruptController.writeData, ready.1]
  have result : outb mask masterData pics = { pics with master := { pics.master with mask := mask } } := by
    simp [outb, ControllerPair.write, masterData, written]
  rw [result]
  refine ⟨ready, fun line => ?_⟩
  unfold passes
  split <;> rfl

/-- A mask for the second controller decides about its lines. -/
theorem outb_slaveData {pics : ControllerPair} (ready : pics.Ready) (mask : BitVec 8) :
    (outb mask slaveData pics).Ready ∧ ∀ line, (outb mask slaveData pics).passes line =
      if line.val < 8 then pics.passes line else !mask.getLsbD (line.val - 8) := by
  have written : pics.slave.writeData mask = { pics.slave with mask := mask } := by
    simp [InterruptController.writeData, ready.2]
  have result : outb mask slaveData pics = { pics with slave := { pics.slave with mask := mask } } := by
    simp [outb, ControllerPair.write, slaveData, written]
  rw [result]
  refine ⟨ready, fun line => ?_⟩
  unfold passes
  split <;> rfl

/-- `1 << irq` has the bit of the line alone. -/
theorem irqBit_eq {irq : BitVec 8} {bit : BitVec 32} (defined : irqBit irq = some bit) (index : Nat) :
    bit.getLsbD index = decide (index = irq.toNat) := by
  unfold irqBit at defined
  split at defined
  · cases defined
    rw [BitVec.getLsbD_shiftLeft, BitVec.getLsbD_one]
    by_cases same : index = irq.toNat
    · simp [same]
      omega
    · simp [same]
      omega
  · cases defined

/-- `pic_enable` clears the bit of its line and keeps the others. -/
theorem cleared_bit {mask irq : BitVec 8} {bit : BitVec 32} (defined : irqBit irq = some bit)
    {index : Nat} (inside : index < 8) :
    ((mask.setWidth 32 &&& ~~~ bit).setWidth 8).getLsbD index =
      (mask.getLsbD index && !decide (index = irq.toNat)) := by
  have narrow : index < 32 := by omega
  rw [BitVec.getLsbD_setWidth, BitVec.getLsbD_and, BitVec.getLsbD_not, BitVec.getLsbD_setWidth,
    irqBit_eq defined]
  simp [inside, narrow]

/-- `pic_disable` sets the bit of its line and keeps the others. -/
theorem set_bit {mask irq : BitVec 8} {bit : BitVec 32} (defined : irqBit irq = some bit)
    {index : Nat} (inside : index < 8) :
    ((mask.setWidth 32 ||| bit).setWidth 8).getLsbD index =
      (mask.getLsbD index || decide (index = irq.toNat)) := by
  have narrow : index < 32 := by omega
  rw [BitVec.getLsbD_setWidth, BitVec.getLsbD_or, BitVec.getLsbD_setWidth, irqBit_eq defined]
  simp [inside, narrow]

section Sides

variable {irq : BitVec 8} {pics next : ControllerPair} (ready : pics.Ready)
include ready

/-- Unmasking a line of the first controller opens it. -/
theorem unmask_master (ran : unmask masterData irq pics = some next) :
    next.Ready ∧ ∀ line : Fin 16, next.passes line =
      (pics.passes line || decide (line.val < 8 ∧ line.val = irq.toNat)) := by
  obtain ⟨bit, defined, written⟩ := Option.bind_eq_some_iff.mp ran
  obtain ⟨after, passes⟩ := outb_masterData ready
    ((pics.master.mask.setWidth 32 &&& ~~~ bit).setWidth 8)
  cases written
  refine ⟨after, fun line => (passes line).trans ?_⟩
  by_cases low : line.val < 8
  · rw [if_pos low, cleared_bit defined low]
    simp [low, ControllerPair.passes]
  · simp [low]

/-- Unmasking a line of the second controller opens it. -/
theorem unmask_slave (ran : unmask slaveData irq pics = some next) :
    next.Ready ∧ ∀ line : Fin 16, next.passes line =
      (pics.passes line || decide (8 ≤ line.val ∧ line.val - 8 = irq.toNat)) := by
  obtain ⟨bit, defined, written⟩ := Option.bind_eq_some_iff.mp ran
  obtain ⟨after, passes⟩ := outb_slaveData ready
    ((pics.slave.mask.setWidth 32 &&& ~~~ bit).setWidth 8)
  cases written
  refine ⟨after, fun line => (passes line).trans ?_⟩
  by_cases low : line.val < 8
  · simp [low]
  · have high : 8 ≤ line.val := by omega
    rw [if_neg low, cleared_bit defined (by omega)]
    simp [low, high, ControllerPair.passes]

/-- Masking a line of the first controller closes it. -/
theorem maskOff_master (ran : maskOff masterData irq pics = some next) :
    next.Ready ∧ ∀ line : Fin 16, next.passes line =
      (pics.passes line && !decide (line.val < 8 ∧ line.val = irq.toNat)) := by
  obtain ⟨bit, defined, written⟩ := Option.bind_eq_some_iff.mp ran
  obtain ⟨after, passes⟩ := outb_masterData ready ((pics.master.mask.setWidth 32 ||| bit).setWidth 8)
  cases written
  refine ⟨after, fun line => (passes line).trans ?_⟩
  by_cases low : line.val < 8
  · rw [if_pos low, set_bit defined low]
    simp [low, ControllerPair.passes]
  · simp [low]

/-- Masking a line of the second controller closes it. -/
theorem maskOff_slave (ran : maskOff slaveData irq pics = some next) :
    next.Ready ∧ ∀ line : Fin 16, next.passes line =
      (pics.passes line && !decide (8 ≤ line.val ∧ line.val - 8 = irq.toNat)) := by
  obtain ⟨bit, defined, written⟩ := Option.bind_eq_some_iff.mp ran
  obtain ⟨after, passes⟩ := outb_slaveData ready ((pics.slave.mask.setWidth 32 ||| bit).setWidth 8)
  cases written
  refine ⟨after, fun line => (passes line).trans ?_⟩
  by_cases low : line.val < 8
  · simp [low]
  · have high : 8 ≤ line.val := by omega
    rw [if_neg low, set_bit defined (by omega)]
    simp [low, high, ControllerPair.passes]

omit ready in
/-- The lines from eight on belong to the second controller. -/
theorem upper_line (high : ¬ irq < 8) : 8 ≤ irq.toNat ∧ (irq - 8).toNat = irq.toNat - 8 := by
  have bound : (8 : BitVec 8) ≤ irq := BitVec.not_lt.mp high
  exact ⟨bound, BitVec.toNat_sub_of_le bound⟩

/-- `pic_enable` lets its line pass, and the cascade as well for a line of the second controller. -/
theorem picEnable_passes (ran : picEnable irq pics = some next) :
    next.Ready ∧ ∀ line, next.passes line =
      ((Call.enable irq).setsLine line).getD (pics.passes line) := by
  rw [picEnable] at ran
  split at ran
  · rename_i low
    obtain ⟨after, passes⟩ := unmask_master ready ran
    refine ⟨after, fun line => (passes line).trans ?_⟩
    have small : irq.toNat < 8 := low
    by_cases same : line.val = irq.toNat
    · simp [Call.setsLine, same, small]
    · have other : ¬ 8 ≤ irq.toNat := by omega
      simp [Call.setsLine, same, other]
  · rename_i high
    obtain ⟨large, shifted⟩ := upper_line high
    obtain ⟨middle, slave, master⟩ := Option.bind_eq_some_iff.mp ran
    obtain ⟨between, first⟩ := unmask_slave ready slave
    obtain ⟨after, second⟩ := unmask_master between master
    refine ⟨after, fun line => (second line).trans ?_⟩
    rw [first, shifted]
    have named : (8 ≤ line.val ∧ line.val - 8 = irq.toNat - 8) ↔ line.val = irq.toNat := by omega
    have cascade : (line.val < 8 ∧ line.val = (2 : BitVec 8).toNat) ↔ line = 2 := by
      rw [Fin.ext_iff]
      exact ⟨And.right, fun same => ⟨same ▸ by decide, same⟩⟩
    simp only [Call.setsLine, named, cascade, large, true_and]
    by_cases same : line.val = irq.toNat
    · simp [same]
    · by_cases second : line = 2 <;> simp [same, second]

/-- `pic_disable` masks its line. -/
theorem picDisable_passes (ran : picDisable irq pics = some next) :
    next.Ready ∧ ∀ line, next.passes line =
      ((Call.disable irq).setsLine line).getD (pics.passes line) := by
  rw [picDisable] at ran
  split at ran
  · rename_i low
    obtain ⟨after, passes⟩ := maskOff_master ready ran
    refine ⟨after, fun line => (passes line).trans ?_⟩
    have small : irq.toNat < 8 := low
    by_cases same : line.val = irq.toNat
    · simp [Call.setsLine, same, small]
    · simp [Call.setsLine, same]
  · rename_i high
    obtain ⟨large, shifted⟩ := upper_line high
    obtain ⟨after, passes⟩ := maskOff_slave ready ran
    refine ⟨after, fun line => (passes line).trans ?_⟩
    have named : (8 ≤ line.val ∧ line.val - 8 = irq.toNat - 8) ↔ line.val = irq.toNat := by omega
    rw [shifted]
    simp only [Call.setsLine, named]
    by_cases same : line.val = irq.toNat <;> simp [same]

/-- A call keeps the controllers ready and sets the lines that it names. -/
theorem Call.run_passes {call : Call} (ran : call.run pics = some next) :
    next.Ready ∧ ∀ line, next.passes line = (call.setsLine line).getD (pics.passes line) := by
  cases call with
  | init pic0base pic1base =>
      cases ran
      exact picInit_passes pic0base pic1base pics
  | enable irq => exact picEnable_passes ready ran
  | disable irq => exact picDisable_passes ready ran

end Sides

/-- After calls from a ready state, the last call that sets a line decides whether it passes. -/
theorem runCalls_passes {calls : List Call} {start reached : ControllerPair} (ready : start.Ready)
    (ran : runCalls calls start = some reached) :
    reached.Ready ∧ ∀ line, reached.passes line = passesAfter start calls line := by
  induction calls generalizing start with
  | nil =>
      cases ran
      exact ⟨ready, fun _ => rfl⟩
  | cons call calls ih =>
      obtain ⟨next, first, rest⟩ := Option.bind_eq_some_iff.mp ran
      obtain ⟨after, passes⟩ := Call.run_passes ready first
      obtain ⟨last, lines⟩ := ih after rest
      refine ⟨last, fun line => ?_⟩
      rw [lines, passesAfter, passesAfter, List.foldl_cons, passes]

/-- Only one byte of `pic_disable_total` reaches a controller, and it is a command without bit 4. -/
theorem picDisableTotal_eq (pics : ControllerPair) : picDisableTotal pics = pics := by
  have elsewhere (value : BitVec 8) (port : BitVec 16) (other : port ∉ [0x20, 0x21, 0xA0, 0xA1])
      (pics : ControllerPair) : outb value port pics = pics := write_elsewhere pics value other
  have command : outb picDataMaster 0x20 pics = pics := write_command pics (by decide)
  simp only [picDisableTotal]
  rw [elsewhere picCommandMaster 0x11 (by decide), elsewhere picCommandSlave 0x11 (by decide), command,
    elsewhere picDataSlave 0x28 (by decide), elsewhere picDataMaster 0x2 (by decide),
    elsewhere picDataSlave 0x4 (by decide), elsewhere picDataMaster 0x01 (by decide),
    elsewhere picDataSlave 0x01 (by decide), elsewhere picDataMaster 0xFF (by decide),
    elsewhere picDataSlave 0xFF (by decide)]

/-- After any calls, `pic_disable_total` leaves the controllers silent exactly when they were; from a
ready state that means that no line passes after the calls. -/
theorem picDisableTotal_silent_iff {calls : List Call} {start reached : ControllerPair}
    (ran : runCalls calls start = some reached) :
    ((picDisableTotal reached).Silent ↔ reached.Silent) ∧
      (start.Ready → ((picDisableTotal reached).Silent ↔
        ∀ line, passesAfter start calls line = false)) := by
  rw [picDisableTotal_eq]
  refine ⟨Iff.rfl, fun ready => ?_⟩
  obtain ⟨after, lines⟩ := runCalls_passes ready ran
  simp only [silent_iff after, lines]

/-- The state that the start of the kernel reaches, and one in which the cascade is masked as well. -/
theorem picDisableTotal_silent_iff_start :
    ¬ (picDisableTotal ⟨⟨.mask, 0xF9, 0x20⟩, ⟨.mask, 0xFF, 0x28⟩⟩).Silent ∧
      (picDisableTotal ⟨⟨.mask, 0xFF, 0x20⟩, ⟨.mask, 0xFF, 0x28⟩⟩).Silent := by
  have enabled : runCalls [.init 0x20 0x28, .enable 1] ⟨⟨.mask, 0, 8⟩, ⟨.mask, 0, 0x70⟩⟩ =
      some ⟨⟨.mask, 0xF9, 0x20⟩, ⟨.mask, 0xFF, 0x28⟩⟩ := by decide
  have disabled : runCalls [.init 0x20 0x28, .disable 2] ⟨⟨.mask, 0, 8⟩, ⟨.mask, 0, 0x70⟩⟩ =
      some ⟨⟨.mask, 0xFF, 0x20⟩, ⟨.mask, 0xFF, 0x28⟩⟩ := by decide
  exact ⟨(picDisableTotal_silent_iff enabled).1.not.mpr (by decide),
    (picDisableTotal_silent_iff disabled).1.mpr (by decide)⟩

/-- After the calls of `init_cpu` the lines of the keyboard and of the second controller still pass. -/
theorem picDisableTotal_silent_fails : ¬ ∀ calls start reached,
    runCalls calls start = some reached → (picDisableTotal reached).Silent := by
  intro silent
  have after := silent [.init 0x20 0x28, .enable 1] ⟨⟨.mask, 0, 8⟩, ⟨.mask, 0, 0x70⟩⟩
    ⟨⟨.mask, 0xF9, 0x20⟩, ⟨.mask, 0xFF, 0x28⟩⟩ (by decide)
  exact absurd after (by decide)

end ArchaOS.LegacyPic
