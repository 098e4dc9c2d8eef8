import ArchaOS.Construction.InterruptSetup
import ArchaOS.Proof.Descriptors.Encoding
import ArchaOS.Proof.LegacyPic.Masking

namespace ArchaOS.InterruptSetup

open Library Descriptors LegacyPic

/-- A present segment for 64-bit code of the kernel. -/
def kernelCode (segment : SegmentDescriptor) : Bool :=
  segment.access &&& 0xF8 = 0x98 ∧ segment.flags &&& 0x6 = 0x2

/-- Where the processor goes for a vector: through the table that it has loaded, a present interrupt
gate in it, and the code segment that the gate selects. -/
def Machine.dispatch (placement : Placement) (machine : Machine) (vector : BitVec 8) :
    Option (BitVec 64) :=
  let gate := GateDescriptor.decode (machine.idt.idt vector).bits
  if machine.idt.idtr.2 = placement.idt ∧ vector.toNat * 16 + 15 ≤ machine.idt.idtr.1.toNat ∧
      gate.access &&& 0x8F = 0x8E ∧ gate.selector = 8 ∧
      kernelCode (SegmentDescriptor.decode (machine.gdt ⟨1, by decide⟩)) then
    some gate.offset
  else none

/-- The page of the local APIC. -/
def localApicPage (apicBase : BitVec 64) : BitVec 64 := apicBase &&& 0xFFFFFFFFFF000

def Machine.localApic (machine : Machine) (reg : BitVec 32) : BitVec 32 :=
  apicReadReg (localApicPage machine.apicBase) reg machine

/-- The entries of the local APIC for its two pins, `LINT0` and `LINT1`. -/
def pinEntries : List (BitVec 32) := [0x350, 0x360]

/-- The entries of the local APIC besides the timer's: machine checks, the thermal sensor, the performance
counters, the two pins and the errors. -/
def otherEntries : List (BitVec 32) := [0x2F0, 0x330, 0x340, 0x350, 0x360, 0x370]

/-- The delivery modes of an interrupt with a vector of its own, and of one whose vector comes from the
legacy controllers. -/
def fixedMode : BitVec 32 := 0

def extIntMode : BitVec 32 := 7

/-- The entry is not masked and delivers in the mode. -/
def OpenAs (mode entry : BitVec 32) : Prop :=
  entry.getLsbD 16 = false ∧ (entry >>> 8) &&& 7 = mode

instance (mode entry : BitVec 32) : Decidable (OpenAs mode entry) := inferInstanceAs (Decidable (_ ∧ _))

/-- What lies between the devices and the processor, and is never written by the kernel: the vectors of
the messages that the I/O APIC, the devices and other processors send, and whether the I/O APIC hands
over the output of the legacy controllers. -/
structure Board where
  messages : BitVec 8 → Prop
  relays : Prop

/-- The local APIC is there, and enabled by both of its bits. -/
structure Machine.Listens (edx : BitVec 32) (machine : Machine) : Prop where
  supported : supportApic edx = true
  enabled : machine.apicBase.getLsbD 11 = true
  software : (machine.localApic apicSpuriousIntVector).getLsbD 8 = true

/-- The local APIC takes the output of the legacy controllers, from a pin or from the I/O APIC. -/
def Board.Relays (board : Board) (localApic : BitVec 32 → BitVec 32) : Prop :=
  board.relays ∨ ∃ pin ∈ pinEntries, OpenAs extIntMode (localApic pin)

/-- The output of the legacy controllers reaches the processor. -/
def Machine.Wired (edx : BitVec 32) (board : Board) (machine : Machine) : Prop :=
  supportApic edx = false ∨ machine.apicBase.getLsbD 11 = false ∨
    machine.Listens edx ∧ board.Relays machine.localApic

/-- The vectors of the maskable interrupts that can reach the processor. -/
inductive Raises (edx : BitVec 32) (board : Board) (machine : Machine) : BitVec 8 → Prop
  | timer : machine.Listens edx → (machine.localApic apicLvtTimer).getLsbD 16 = false →
      Raises edx board machine ((machine.localApic apicLvtTimer).setWidth 8)
  | spurious : machine.Listens edx →
      Raises edx board machine ((machine.localApic apicSpuriousIntVector).setWidth 8)
  | entry (reg : BitVec 32) : reg ∈ otherEntries → machine.Listens edx →
      OpenAs fixedMode (machine.localApic reg) →
      Raises edx board machine ((machine.localApic reg).setWidth 8)
  | message (vector : BitVec 8) : machine.Listens edx → board.messages vector →
      Raises edx board machine vector
  | line (irq : Fin 16) : machine.Wired edx board → machine.pics.passes irq → irq ≠ 2 →
      (8 ≤ irq.val → machine.pics.passes 2) → Raises edx board machine (machine.pics.vector irq)

/-- The vectors that the firmware has left to arrive: those of messages, and those of the entries of the
local APIC that it has opened. -/
def FirmwareLeft (board : Board) (start : Machine) (vector : BitVec 8) : Prop :=
  board.messages vector ∨ ∃ reg ∈ otherEntries, OpenAs fixedMode (start.localApic reg) ∧
    vector = (start.localApic reg).setWidth 8

/-- The vectors with a gate. -/
def installed (placement : Placement) (apic : Bool) (vector : BitVec 8) : Option (BitVec 64) :=
  if vector = 0 then some placement.divideHandler
  else if vector = 6 then some placement.invalidOpcodeHandler
  else if vector = 8 then some placement.doubleFaultHandler
  else if vector = 13 then some placement.generalProtectionHandler
  else if vector = 14 then some placement.pageFaultHandler
  else if apic ∧ vector = 32 then some placement.tickInterrupt
  else if apic ∧ vector = 255 then some placement.spuriousIntHandler
  else none

/-- The tables are loaded, and each vector has the gate of its handler or none. -/
structure Tables (placement : Placement) (apic : Bool) (machine : Machine) : Prop where
  segment : SegmentDescriptor.decode (machine.gdt 1) = ⟨0, 0xFFFFF, 0x9A, 0xA⟩
  idtr : machine.idt.idtr = (idtLimit, placement.idt)
  gates : ∀ vector, machine.idt.idt vector =
    ((installed placement apic vector).map gateEntry).getD IdtEntry.cleared

/-- The processor finds the handler that was installed for a vector. -/
theorem Tables.dispatch {placement : Placement} {apic : Bool} {machine : Machine}
    (tables : Tables placement apic machine) (vector : BitVec 8) :
    machine.dispatch placement vector = installed placement apic vector := by
  have inside : vector.toNat * 16 + 15 ≤ idtLimit.toNat := by
    have limit : idtLimit.toNat = 4095 := rfl
    omega
  have code : kernelCode ⟨0, 0xFFFFF, 0x9A, 0xA⟩ = true := by decide
  have segment : SegmentDescriptor.decode (machine.gdt ⟨1, by decide⟩) = ⟨0, 0xFFFFF, 0x9A, 0xA⟩ :=
    tables.segment
  unfold Machine.dispatch
  rw [tables.gates vector, tables.idtr, segment]
  cases installed placement apic vector with
  | none => exact if_neg fun gate => absurd gate.2.2.1 (by decide)
  | some handler =>
      have decoded := gateEntry_decodes handler
      have gate : (interruptGate handler).access &&& 0x8F = 0x8E := (by decide : (0x8E#8 &&& 0x8F) = 0x8E)
      simp only [Option.map_some, Option.getD_some, decoded]
      exact if_pos ⟨trivial, inside, gate, rfl, code⟩

/-- What `pic_init` and the `pic_enable` behind it leave in the controllers. -/
theorem picEnable_line (irq : BitVec 8) (pics : ControllerPair) :
    picEnable irq (picInit 0x20 0x28 pics) = picEnable irq ⟨⟨.mask, 0xFB, 0x20⟩, ⟨.mask, 0xFF, 0x28⟩⟩ := by
  have result : picInit 0x20 0x28 pics = ⟨⟨.mask, 0xFB, 0x20⟩, ⟨.mask, 0xFF, 0x28⟩⟩ := rfl
  rw [result]

/-- Enabling the keyboard opens its line. -/
theorem picEnable_keyboard :
    picEnable 1 ⟨⟨.mask, 0xFB, 0x20⟩, ⟨.mask, 0xFF, 0x28⟩⟩ = some ⟨⟨.mask, 0xF9, 0x20⟩, ⟨.mask, 0xFF, 0x28⟩⟩ := by
  decide

/-- Enabling the timer opens its line. -/
theorem picEnable_timer :
    picEnable 0 ⟨⟨.mask, 0xFB, 0x20⟩, ⟨.mask, 0xFF, 0x28⟩⟩ = some ⟨⟨.mask, 0xFA, 0x20⟩, ⟨.mask, 0xFF, 0x28⟩⟩ := by
  decide

/-- The bytes of `pit_count` reach neither the timer nor a controller. -/
theorem pitCount_eq (machine : Machine) : pitCount 100 machine = machine.cli := by
  have elsewhere (port : BitVec 16) (other : port ∉ [0x20, 0x21, 0xA0, 0xA1]) (pics : ControllerPair) :
      outb 0x40 port pics = pics := ControllerPair.write_elsewhere pics 0x40 other
  simp only [pitCount]
  rw [elsewhere _ (by decide), elsewhere _ (by decide)]

/-- The gates of both functions of init.c, and those of the local APIC. -/
theorem faultGates_idt (placement : Placement) (machine : Machine) (vector : BitVec 8) :
    (faultGates placement machine).idt.idt vector =
      ((installed placement false vector).map gateEntry).getD (machine.idt.idt vector) := by
  simp only [faultGates, Machine.setGate, idtSetGate_idt, Function.update_apply, installed]
  split_ifs <;> simp_all

/-- A register of the controller reads what was written to it. -/
theorem apicReadReg_write (base : BitVec 64) (reg other value : BitVec 32) (machine : Machine) :
    apicReadReg base reg (apicWriteReg base other value machine) =
      if reg = other then value else apicReadReg base reg machine := by
  have apart : base + reg.setWidth 64 = base + other.setWidth 64 ↔ reg = other := by
    rw [add_right_inj]
    constructor
    · intro same
      bv_omega
    · exact congrArg _
  simp only [apicReadReg, apicWriteReg, Function.update_apply, apart]

/-- The bit that enables the local APIC is not one of its address. -/
theorem localApicPage_enable (apicBase : BitVec 64) :
    localApicPage (apicBase ||| 1#64 <<< 11) = localApicPage apicBase := by
  have none : 1#64 <<< 11 &&& 0xFFFFFFFFFF000 = 0#64 := by decide
  rw [localApicPage, BitVec.and_or_distrib_right, none, BitVec.or_zero, localApicPage]

/-- The tests of single bits in `apic_init`. -/
theorem bit_test (word : BitVec 64) (index : Nat) :
    ((word >>> index) &&& 1 != 0) = word.getLsbD index := by
  have bit : (word >>> index) &&& 1#64 = (BitVec.ofBool (word.getLsbD index)).setWidth 64 := by
    rw [BitVec.and_one_eq_setWidth_ofBool_getLsbD, BitVec.getLsbD_ushiftRight, Nat.add_zero]
  change ((word >>> index) &&& 1#64 != 0) = _
  rw [bit]
  cases word.getLsbD index <;> rfl

/-- The registers of the local APIC behind `apic_init`: it is enabled, its interrupts have their vectors,
and the entries that the kernel never writes are as the firmware has left them. -/
structure Registers (left : BitVec 32 → BitVec 32) (machine : Machine) : Prop where
  page : machine.apicAddr = localApicPage machine.apicBase
  enabled : machine.apicBase.getLsbD 11 = true
  software : (machine.localApic apicSpuriousIntVector).getLsbD 8 = true
  spurious : (machine.localApic apicSpuriousIntVector).setWidth 8 = 255#8
  timer : (machine.localApic apicLvtTimer).setWidth 8 = 32#8
  others : ∀ reg ∈ otherEntries, machine.localApic reg = left reg

/-- They do not depend on the tables and the controllers. -/
theorem Registers.congr {left : BitVec 32 → BitVec 32} {machine other : Machine}
    (registers : Registers left machine) (addr : other.apicAddr = machine.apicAddr)
    (base : other.apicBase = machine.apicBase) (words : other.registers = machine.registers) :
    Registers left other := by
  have same (reg : BitVec 32) : other.localApic reg = machine.localApic reg := by
    rw [Machine.localApic, Machine.localApic, apicReadReg, apicReadReg, base, words]
  obtain ⟨page, enabled, software, spurious, timer, others⟩ := registers
  rw [← same] at software spurious timer
  rw [← base] at page enabled
  exact ⟨addr.trans page, enabled, software, spurious, timer, fun reg entry =>
    (same reg).trans (others reg entry)⟩

/-- What the registers hold behind a write through `apic_addr`. -/
theorem localApic_write {machine : Machine} (page : machine.apicAddr = localApicPage machine.apicBase)
    (reg other value : BitVec 32) :
    (apicWriteReg machine.apicAddr other value machine).localApic reg =
      if reg = other then value else machine.localApic reg := by
  change apicReadReg (localApicPage machine.apicBase) reg _ = _
  rw [← page, apicReadReg_write, Machine.localApic, page]

/-- The registers that the kernel writes once it has enabled the local APIC. -/
def clockRegisters : List (BitVec 32) := [apicLvtTimer, apicTimerDivide, apicTimerInitialCount]

/-- The clock writes to none of the other registers. -/
theorem clockRegisters_apart {reg : BitVec 32} (clock : reg ∈ clockRegisters) :
    apicSpuriousIntVector ≠ reg ∧ ∀ entry ∈ otherEntries, entry ≠ reg := by
  simp only [clockRegisters, List.mem_cons, List.not_mem_nil, or_false] at clock
  rcases clock with rfl | rfl | rfl <;>
    simp [otherEntries, apicSpuriousIntVector, apicLvtTimer, apicTimerDivide, apicTimerInitialCount]

/-- A write to the timer's registers keeps the vectors, unless it changes that of the timer. -/
theorem Registers.write {left : BitVec 32 → BitVec 32} {machine : Machine}
    (registers : Registers left machine) {reg value : BitVec 32} (clock : reg ∈ clockRegisters)
    (timer : reg = apicLvtTimer → value.setWidth 8 = 32#8) :
    Registers left (apicWriteReg machine.apicAddr reg value machine) := by
  obtain ⟨spurious, others⟩ := clockRegisters_apart clock
  refine ⟨registers.page, registers.enabled, ?_, ?_, ?_, ?_⟩
  · rw [localApic_write registers.page, if_neg spurious]
    exact registers.software
  · rw [localApic_write registers.page, if_neg spurious]
    exact registers.spurious
  · rw [localApic_write registers.page]
    split
    · rename_i same
      exact timer same.symm
    · exact registers.timer
  · intro entry listed
    rw [localApic_write registers.page, if_neg (others entry listed)]
    exact registers.others entry listed

@[simp] theorem apicReadReg_setGate (base : BitVec 64) (reg : BitVec 32) (vector : BitVec 8)
    (handler : BitVec 64) (machine : Machine) :
    apicReadReg base reg (machine.setGate vector handler) = apicReadReg base reg machine := rfl

/-- The mask of the upper bytes clears the vector of a register. -/
theorem vector_of_masked (value vector : BitVec 32) :
    ((value &&& 0xFFFFFF00) ||| vector).setWidth 8 = vector.setWidth 8 := by
  have none : (0xFFFFFF00 : BitVec 32).setWidth 8 = 0#8 := by decide
  rw [BitVec.setWidth_or, BitVec.setWidth_and, none, BitVec.and_zero, BitVec.zero_or]

/-- The word that `local_apic_init` writes for the spurious interrupt enables the APIC and has vector 255. -/
theorem spurious_word (value : BitVec 32) :
    let word := (((value ||| 1#32 <<< 8) &&& ~~~ (1#32 <<< 9)) &&& 0xFFFFFF00) ||| 0xff
    word.getLsbD 8 = true ∧ word.setWidth 8 = 255#8 := by
  intro word
  refine ⟨?_, vector_of_masked _ _⟩
  have set : (1#32 <<< 8).getLsbD 8 = true := by decide
  have kept : (~~~ (1#32 <<< 9)).getLsbD 8 = true := by decide
  have upper : (0xFFFFFF00 : BitVec 32).getLsbD 8 = true := by decide
  simp only [word, BitVec.getLsbD_or, BitVec.getLsbD_and, set, kept, upper, Bool.or_true, Bool.and_true,
    Bool.true_or]

/-- What `local_apic_init` does once the APIC is enabled. -/
theorem localApicInit_enabled (placement : Placement) (machine : Machine)
    (page : machine.apicAddr = localApicPage machine.apicBase)
    (enabled : machine.apicBase.getLsbD 11 = true) :
    let after := localApicInit placement machine.apicAddr true machine
    Registers machine.localApic after ∧ after.gdt = machine.gdt ∧ after.pics = machine.pics ∧
      after.idt = idtSetGate 32 placement.tickInterrupt
        (idtSetGate 0xff placement.spuriousIntHandler machine.idt) := by
  intro after
  obtain ⟨software, vector⟩ := spurious_word (machine.localApic apicSpuriousIntVector)
  have words (reg : BitVec 32) : after.localApic reg =
      if reg = apicTimerDivide then 0xB#32
      else if reg = apicLvtTimer then (32#32 ||| 1#32 <<< 16) ||| 1#32 <<< 17
      else if reg = apicSpuriousIntVector then
        (((machine.localApic apicSpuriousIntVector ||| 1#32 <<< 8) &&& ~~~ (1#32 <<< 9)) &&&
          0xFFFFFF00) ||| 0xff
      else machine.localApic reg := by
    change apicReadReg (localApicPage machine.apicBase) reg after = _
    simp only [after, localApicInit, ← page, apicReadReg_setGate, apicReadReg_write, Bool.not_true,
      Bool.false_eq_true, if_false, Machine.localApic]
    rfl
  refine ⟨⟨page, enabled, ?_, ?_, ?_, ?_⟩, rfl, rfl, rfl⟩
  · rw [words, if_neg (by decide), if_neg (by decide), if_pos rfl]
    exact software
  · rw [words, if_neg (by decide), if_neg (by decide), if_pos rfl]
    exact vector
  · rw [words, if_neg (by decide), if_pos rfl]
    decide
  · intro entry listed
    have apart : ∀ entry ∈ otherEntries, entry ≠ apicTimerDivide ∧ entry ≠ apicLvtTimer ∧
        entry ≠ apicSpuriousIntVector := by
      simp [otherEntries, apicTimerDivide, apicLvtTimer, apicSpuriousIntVector]
    obtain ⟨divide, timer, spurious⟩ := apart entry listed
    rw [words, if_neg divide, if_neg timer, if_neg spurious]

/-- `local_apic_init` enables the APIC and gives its two interrupts their vectors and gates. -/
theorem localApicInit_spec (placement : Placement) (machine : Machine)
    (page : machine.apicAddr = localApicPage machine.apicBase) :
    let after := localApicInit placement machine.apicAddr (machine.apicBase.getLsbD 11) machine
    Registers machine.localApic after ∧ after.gdt = machine.gdt ∧ after.pics = machine.pics ∧
      after.idt = idtSetGate 32 placement.tickInterrupt
        (idtSetGate 0xff placement.spuriousIntHandler machine.idt) := by
  cases enabled : machine.apicBase.getLsbD 11 with
  | true => exact localApicInit_enabled placement machine page enabled
  | false =>
      let next : Machine := { machine with apicBase := machine.apicBase ||| 1#64 <<< 11 }
      have page' : next.apicAddr = localApicPage next.apicBase := by
        rw [localApicPage_enable]
        exact page
      have enabled' : (machine.apicBase ||| 1#64 <<< 11).getLsbD 11 := by
        rw [BitVec.getLsbD_or]
        simp
      have left : next.localApic = machine.localApic := by
        funext reg
        change apicReadReg (localApicPage (machine.apicBase ||| 1#64 <<< 11)) reg machine = _
        rw [localApicPage_enable, Machine.localApic]
      rw [← left]
      exact localApicInit_enabled placement next page' enabled'

/-- The local APIC answers to its own page below 4 GiB, in the mode that uses memory-mapped registers. -/
structure Mapped (apicBase : BitVec 64) : Prop where
  mode : apicBase.getLsbD 10 = false
  low : localApicPage apicBase = (apicBase >>> 12 &&& 0xFFFFF) <<< 12

/-- `apic_init` on such a machine takes the branch that initialises the local APIC. -/
theorem apicInit_spec (placement : Placement) (machine : Machine) (mapped : Mapped machine.apicBase) :
    let after := apicInit placement machine
    Registers machine.localApic after ∧ after.gdt = machine.gdt ∧ after.pics = machine.pics ∧
      after.idt = idtSetGate 32 placement.tickInterrupt
        (idtSetGate 0xff placement.spuriousIntHandler machine.idt) := by
  have same : apicInit placement machine = localApicInit placement
      (localApicPage machine.apicBase) (machine.apicBase.getLsbD 11)
      { machine with apicAddr := localApicPage machine.apicBase } := by
    simp only [apicInit, bit_test, mapped.mode, Bool.not_false, if_true, mapped.low]
  rw [same]
  exact localApicInit_spec placement { machine with apicAddr := localApicPage machine.apicBase } rfl

/-- Both functions of init.c up to the interrupt controllers. -/
def withFaultGates (placement : Placement) (machine : Machine) : Machine :=
  faultGates placement (initPrimitivs placement machine).cli.initGdt

/-- The gates of the faults are installed behind the code segment. -/
theorem withFaultGates_tables (placement : Placement) {machine : Machine}
    (cleared : ∀ vector, machine.idt.idt vector = IdtEntry.cleared) (vector : BitVec 8) :
    SegmentDescriptor.decode ((withFaultGates placement machine).gdt 1) = ⟨0, 0xFFFFF, 0x9A, 0xA⟩ ∧
      (withFaultGates placement machine).idt.idt vector =
        ((installed placement false vector).map gateEntry).getD IdtEntry.cleared := by
  refine ⟨(initGdt_entries (initPrimitivs placement machine).gdt).2.1, ?_⟩
  have first : (initPrimitivs placement machine).idt.idt vector =
      ((installed placement false vector).map gateEntry).getD (machine.idt.idt vector) :=
    faultGates_idt placement machine.cli.initGdt vector
  have second := faultGates_idt placement (initPrimitivs placement machine).cli.initGdt vector
  change (withFaultGates placement machine).idt.idt vector = Option.getD _
    ((initPrimitivs placement machine).idt.idt vector) at second
  rw [second, first, cleared]
  cases installed placement false vector <;> rfl

/-- What `init_cpu` has set up on a machine with a local APIC. -/
structure Prepared (placement : Placement) (left : BitVec 32 → BitVec 32) (machine : Machine) : Prop where
  tables : Tables placement true machine
  pics : machine.pics = ⟨⟨.mask, 0xF9, 0x20⟩, ⟨.mask, 0xFF, 0x28⟩⟩
  registers : Registers left machine

/-- Loading a table changes the table register alone. -/
theorem loaded_fields (limit : BitVec 16) (base : BitVec 64) (machine : Machine) :
    let loaded : Machine := { machine with idt := Descriptors.loadIdt limit base machine.idt }
    loaded.gdt = machine.gdt ∧ loaded.idt.idt = machine.idt.idt ∧ loaded.idt.idtr = (limit, base) ∧
      loaded.pics = machine.pics ∧ loaded.apicAddr = machine.apicAddr ∧
      loaded.apicBase = machine.apicBase ∧ loaded.registers = machine.registers :=
  ⟨rfl, rfl, rfl, rfl, rfl, rfl, rfl⟩

/-- The end of `init_cpu` behind `apic_init`. -/
def behindApic (placement : Placement) (machine : Machine) : Machine :=
  let machine := (apicStart machine).loadIdt placement
  Machine.sti { machine with pics := machine.pics, totalTicks := 0 }

/-- The steps of `init_cpu` with a local controller leave a prepared machine. -/
theorem behindApic_prepared {placement : Placement} {left : BitVec 32 → BitVec 32} {machine : Machine}
    (segment : SegmentDescriptor.decode (machine.gdt 1) = ⟨0, 0xFFFFF, 0x9A, 0xA⟩)
    (gates : ∀ vector, machine.idt.idt vector =
      ((installed placement true vector).map gateEntry).getD IdtEntry.cleared)
    (pics : machine.pics = ⟨⟨.mask, 0xF9, 0x20⟩, ⟨.mask, 0xFF, 0x28⟩⟩)
    (registers : Registers left machine) :
    Prepared placement left (behindApic placement machine) := by
  have started : Registers left (apicStart machine) :=
    registers.write (by decide) fun impossible => absurd impossible (by decide)
  obtain ⟨loaded, same, gdt, idt, idtr, controllers, addr, base, words⟩ : ∃ loaded,
      loaded = (apicStart machine).loadIdt placement ∧ loaded.gdt = machine.gdt ∧
      loaded.idt.idt = machine.idt.idt ∧ loaded.idt.idtr = (idtLimit, placement.idt) ∧
      loaded.pics = machine.pics ∧ loaded.apicAddr = (apicStart machine).apicAddr ∧
      loaded.apicBase = (apicStart machine).apicBase ∧
      loaded.registers = (apicStart machine).registers :=
    ⟨_, rfl, loaded_fields idtLimit placement.idt (apicStart machine)⟩
  rw [behindApic, ← same]
  have table : ∀ vector, loaded.idt.idt vector = machine.idt.idt vector := fun vector => congrFun idt vector
  refine ⟨⟨?_, idtr, fun vector => (table vector).trans (gates vector)⟩, controllers.trans pics, ?_⟩
  · change SegmentDescriptor.decode (loaded.gdt 1) = _
    rw [gdt]
    exact segment
  · exact started.congr addr base words

section Start

variable {placement : Placement} {edx : BitVec 32} {start machine : Machine}
  (cleared : ∀ vector, start.idt.idt vector = IdtEntry.cleared)
  (booted : initCpu placement edx (initPrimitivs placement start) = some machine)
include cleared booted

/-- `init_cpu` leaves a machine with a local APIC prepared, the entries of the firmware unchanged. -/
theorem initCpu_apic (apic : supportApic edx = true) (mapped : Mapped start.apicBase) :
    Prepared placement start.localApic machine := by
  obtain ⟨gates, same, result⟩ : ∃ gates,
      gates = Machine.cli { withFaultGates placement start with
        pics := ⟨⟨.mask, 0xF9, 0x20⟩, ⟨.mask, 0xFF, 0x28⟩⟩ } ∧
      behindApic placement (apicInit placement gates) = machine := by
    refine ⟨_, rfl, ?_⟩
    simp only [initCpu, picEnable_line, picEnable_keyboard, apic, if_true, Option.bind_eq_bind,
      Option.bind_some, pitCount_eq, picDisableTotal_eq, Option.pure_def, Option.some.injEq] at booted
    exact booted
  have base : gates.apicBase = start.apicBase := by
    rw [same]
    rfl
  have left : gates.localApic = start.localApic := by
    rw [same]
    rfl
  have tables := withFaultGates_tables placement cleared
  obtain ⟨registers, gdt, pics, idt⟩ := apicInit_spec placement gates (base ▸ mapped)
  rw [← result]
  apply behindApic_prepared
  · rw [gdt, same]
    exact (tables 0).1
  · intro vector
    rw [idt, idtSetGate_idt, idtSetGate_idt, Function.update_apply, Function.update_apply, same]
    change (if _ then _ else if _ then _ else (withFaultGates placement start).idt.idt vector) = _
    rw [(tables vector).2]
    simp only [installed]
    split_ifs <;> simp_all
  · rw [pics, same]
    rfl
  · exact left ▸ registers

/-- Without a local APIC the timer's line passes, and no gate is added. -/
theorem initCpu_legacy (legacy : supportApic edx = false) :
    Tables placement false machine ∧ machine.pics = ⟨⟨.mask, 0xFA, 0x20⟩, ⟨.mask, 0xFF, 0x28⟩⟩ := by
  have result : machine = { (withFaultGates placement start).loadIdt placement with
      pics := ⟨⟨.mask, 0xFA, 0x20⟩, ⟨.mask, 0xFF, 0x28⟩⟩, interrupts := true } := by
    simp only [initCpu, picEnable_line, picEnable_keyboard, picEnable_timer, legacy, Bool.false_eq_true,
      if_false, Option.bind_eq_bind, Option.bind_some, pitCount_eq, Option.pure_def,
      Option.some.injEq] at booted
    exact booted.symm
  subst result
  have tables := withFaultGates_tables placement cleared
  exact ⟨⟨(tables 0).1, rfl, fun vector => (tables vector).2⟩, rfl⟩

end Start

/-- The only line that passes has the vector behind the timer's. -/
theorem keyboardLine : ∀ irq : Fin 16,
    ControllerPair.passes ⟨⟨.mask, 0xF9, 0x20⟩, ⟨.mask, 0xFF, 0x28⟩⟩ irq = true → irq ≠ 2 → irq = 1 := by
  decide

/-- With the timer open no other line of the controllers passes. -/
theorem timerLine : ∀ irq : Fin 16,
    ControllerPair.passes ⟨⟨.mask, 0xFA, 0x20⟩, ⟨.mask, 0xFF, 0x28⟩⟩ irq = true → irq ≠ 2 → irq = 0 := by
  decide

/-- A prepared machine listens to its local controller. -/
theorem Prepared.listens {placement : Placement} {left : BitVec 32 → BitVec 32} {machine : Machine}
    (prepared : Prepared placement left machine) {edx : BitVec 32} (apic : supportApic edx = true) :
    machine.Listens edx :=
  ⟨apic, prepared.registers.enabled, prepared.registers.software⟩

/-- On a prepared machine the board alone decides whether the legacy controllers are heard. -/
theorem Prepared.wired_iff {placement : Placement} {start machine : Machine}
    (prepared : Prepared placement start.localApic machine) {edx : BitVec 32}
    (apic : supportApic edx = true) (board : Board) :
    machine.Wired edx board ↔ board.Relays start.localApic := by
  have pins : ∀ pin ∈ pinEntries, machine.localApic pin = start.localApic pin := fun pin listed =>
    prepared.registers.others pin
      ((by simp [pinEntries, otherEntries] : ∀ pin ∈ pinEntries, pin ∈ otherEntries) pin listed)
  have same : board.Relays machine.localApic ↔ board.Relays start.localApic := by
    refine or_congr Iff.rfl ⟨?_, ?_⟩
    · rintro ⟨pin, listed, opened⟩
      exact ⟨pin, listed, pins pin listed ▸ opened⟩
    · rintro ⟨pin, listed, opened⟩
      exact ⟨pin, listed, (pins pin listed).symm ▸ opened⟩
  have listens := prepared.listens apic
  simp only [Machine.Wired, apic, Bool.true_eq_false, listens.enabled, listens, true_and, false_or, same]

/-- The vectors that can arrive on a prepared machine. -/
theorem Prepared.raises_iff {placement : Placement} {start machine : Machine}
    (prepared : Prepared placement start.localApic machine) {edx : BitVec 32}
    (apic : supportApic edx = true) (board : Board) (vector : BitVec 8) :
    Raises edx board machine vector ↔
      (vector = 32 ∧ (machine.localApic apicLvtTimer).getLsbD 16 = false) ∨ vector = 255 ∨
        (vector = 33 ∧ board.Relays start.localApic) ∨ FirmwareLeft board start vector := by
  have listens := prepared.listens apic
  have others := prepared.registers.others
  constructor
  · intro raised
    cases raised with
    | timer _ opened => exact Or.inl ⟨prepared.registers.timer, opened⟩
    | spurious _ => exact Or.inr (Or.inl prepared.registers.spurious)
    | entry reg listed _ opened =>
        rw [others reg listed] at opened ⊢
        exact Or.inr (Or.inr (Or.inr (Or.inr ⟨reg, listed, opened, rfl⟩)))
    | message _ _ sent => exact Or.inr (Or.inr (Or.inr (Or.inl sent)))
    | line irq wired passes device _ =>
        rw [prepared.pics] at passes ⊢
        rw [keyboardLine irq passes device]
        exact Or.inr (Or.inr (Or.inl ⟨by decide, (prepared.wired_iff apic board).mp wired⟩))
  · rintro (⟨rfl, opened⟩ | rfl | ⟨rfl, relays⟩ | sent | ⟨reg, listed, opened, rfl⟩)
    · have raised : Raises edx board machine _ := Raises.timer listens opened
      rw [prepared.registers.timer] at raised
      exact raised
    · have raised : Raises edx board machine _ := Raises.spurious listens
      rw [prepared.registers.spurious] at raised
      exact raised
    · have passes : machine.pics.passes 1 = true := by
        rw [prepared.pics]
        decide
      have vector : machine.pics.vector 1 = 33#8 := by
        rw [prepared.pics]
        decide
      have raised := Raises.line 1 ((prepared.wired_iff apic board).mpr relays) passes (by decide)
        fun high => absurd high (by decide)
      rw [vector] at raised
      exact raised
    · exact Raises.message _ listens sent
    · rw [← others reg listed] at opened ⊢
      exact Raises.entry reg listed listens opened

/-- A write to the timer's registers leaves the machine prepared. -/
theorem Prepared.write {placement : Placement} {left : BitVec 32 → BitVec 32} {machine : Machine}
    (prepared : Prepared placement left machine) {reg value : BitVec 32} (clock : reg ∈ clockRegisters)
    (timer : reg = apicLvtTimer → value.setWidth 8 = 32#8) :
    Traced.All (Prepared placement left) (tracedWrite reg value machine) ∧
      Prepared placement left (tracedWrite reg value machine).value := by
  have after : Prepared placement left (tracedWrite reg value machine).value :=
    ⟨⟨prepared.tables.segment, prepared.tables.idtr, prepared.tables.gates⟩, prepared.pics,
      prepared.registers.write clock timer⟩
  refine ⟨?_, after⟩
  intro event member
  rw [List.mem_singleton.mp member]
  exact after

/-- The lowest byte of the timer's register, whatever its other bits are. -/
theorem vector_of_bit (value : BitVec 32) : (value ||| 1#32 <<< 16).setWidth 8 = value.setWidth 8 ∧
    (value &&& ~~~ (1#32 <<< 16)).setWidth 8 = value.setWidth 8 := by
  have none : (1#32 <<< 16).setWidth 8 = 0#8 := by decide
  have all : (~~~ (1#32 <<< 16)).setWidth 8 = 255#8 := by decide
  rw [BitVec.setWidth_or, BitVec.setWidth_and, none, all, BitVec.or_zero]
  exact ⟨rfl, BitVec.and_allOnes⟩

/-- Every write of the clock's calls keeps what `init_cpu` has set up. -/
theorem Prepared.call {placement : Placement} {left : BitVec 32 → BitVec 32} {machine : Machine}
    (prepared : Prepared placement left machine) (call : ClockCall) :
    Traced.All (Prepared placement left) (call.run machine) ∧
      Prepared placement left (call.run machine).value := by
  have divide : apicTimerDivide = apicLvtTimer → (0xB : BitVec 32).setWidth 8 = 32#8 := by decide
  have count : apicTimerInitialCount = apicLvtTimer → (10000000 : BitVec 32).setWidth 8 = 32#8 := by decide
  cases call with
  | startClock =>
      have masked (lvt : BitVec 32) : ((lvt &&& ~~~ 0xFF#32) ||| 32).setWidth 8 = 32#8 :=
        vector_of_masked lvt 32
      refine Traced.steps_bind (prepared.write (by decide) fun _ => masked _) ?_
      intro machine prepared
      refine Traced.steps_bind (prepared.write (by decide) divide) ?_
      intro machine prepared
      refine Traced.steps_bind (prepared.write (by decide) count) ?_
      intro machine prepared
      refine prepared.write (by decide) fun _ => ?_
      rw [(vector_of_bit _).2]
      exact masked _
  | stopClock =>
      apply prepared.write (by decide)
      intro _
      have timer := prepared.registers.timer
      rw [Machine.localApic, ← prepared.registers.page] at timer
      rw [(vector_of_bit _).1]
      exact timer

/-- Calls of the clock keep a machine prepared. -/
theorem Prepared.run {placement : Placement} {left : BitVec 32 → BitVec 32} {machine : Machine}
    (prepared : Prepared placement left machine) (calls : List ClockCall) :
    Traced.All (Prepared placement left) (runClock calls machine) := by
  induction calls generalizing machine with
  | nil => exact Traced.all_pure _ _
  | cons call rest ih =>
      obtain ⟨each, after⟩ := prepared.call call
      rw [runClock, List.foldlM_cons, Traced.all_bind]
      exact ⟨each, ih after⟩

/-- The shifts of `pic_enable` are defined for the lines that `init_cpu` opens. -/
theorem initCpu_returns (placement : Placement) (edx : BitVec 32) (machine : Machine) :
    ∃ after, initCpu placement edx machine = some after := by
  simp only [initCpu, picEnable_line, picEnable_keyboard, picEnable_timer, Option.bind_eq_bind,
    Option.bind_some, Option.pure_def]
  split <;> exact ⟨_, rfl⟩

/-- `init_primitivs` loads the tables with the gates of the faults. -/
theorem initPrimitivs_tables (placement : Placement) {machine : Machine}
    (cleared : ∀ vector, machine.idt.idt vector = IdtEntry.cleared) :
    Tables placement false (initPrimitivs placement machine) where
  segment := (initGdt_entries machine.cli.gdt).2.1
  idtr := rfl
  gates vector := by
    have gates : (initPrimitivs placement machine).idt.idt vector =
        ((installed placement false vector).map gateEntry).getD (machine.idt.idt vector) :=
      faultGates_idt placement machine.cli.initGdt vector
    rw [gates, cleared]

/-- Without a local APIC the timer's line is the one that is heard. -/
theorem legacy_raises_iff {edx : BitVec 32} {machine : Machine} (legacy : supportApic edx = false)
    (pics : machine.pics = ⟨⟨.mask, 0xFA, 0x20⟩, ⟨.mask, 0xFF, 0x28⟩⟩) (board : Board)
    (vector : BitVec 8) : Raises edx board machine vector ↔ vector = 32 := by
  have deaf : ¬ machine.Listens edx := fun listens =>
    absurd (legacy.symm.trans listens.supported) (by decide)
  constructor
  · intro raised
    cases raised with
    | timer listens _ => exact absurd listens deaf
    | spurious listens => exact absurd listens deaf
    | entry _ _ listens _ => exact absurd listens deaf
    | message _ listens _ => exact absurd listens deaf
    | line irq _ passes device _ =>
        rw [pics] at passes ⊢
        rw [timerLine irq passes device]
        decide
  · rintro rfl
    have passes : machine.pics.passes 0 = true := by
      rw [pics]
      decide
    have vector : machine.pics.vector 0 = 32#8 := by
      rw [pics]
      decide
    have raised : Raises edx board machine _ :=
      Raises.line 0 (Or.inl legacy) passes (by decide) fun high => absurd high (by decide)
    rw [vector] at raised
    exact raised

/-- A kernel in low memory on a machine with a local APIC, as its firmware leaves it: the first pin hands
over the legacy controllers, and nothing else is open. -/
def lowPlacement : Placement :=
  ⟨0x10000, 0x1000, 0x1100, 0x1200, 0x1300, 0x1400, 0x1500, 0x1600⟩

def coldMachine : Machine :=
  ⟨fun _ => 0, initialIdt (0, 0), ⟨⟨.mask, 0xB8, 8⟩, ⟨.mask, 0x8F, 0x70⟩⟩, 0xFEE00900, 0,
    fun address => if address = 0xFEE00350 then 0x700 else 0x10000, 0, false⟩

def quietBoard : Board := ⟨fun _ => False, False⟩

end ArchaOS.InterruptSetup
