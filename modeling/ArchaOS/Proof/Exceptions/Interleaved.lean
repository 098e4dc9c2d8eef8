import ArchaOS.Proof.Exceptions.Unseen

namespace ArchaOS.Exceptions

open Library Processor Clock

/-- What the interrupts have for themselves: the globals of the clock with the EOI register, and the
stack that the compiled `clock_interrupt` takes. -/
structure Territory where
  globals : Globals
  eoi : Word
  depth : Nat

/-- A byte of the clock. -/
def Territory.Own (territory : Territory) (byte : Nat) : Prop :=
  (territory.globals.totalTicks.toNat ≤ byte ∧ byte < territory.globals.totalTicks.toNat + 8) ∨
    (territory.eoi.toNat ≤ byte ∧ byte < territory.eoi.toNat + 4)

/-- A byte of the clock, or one below the stack pointer. -/
def Territory.Hidden (territory : Territory) (rsp : Word) (byte : Nat) : Prop :=
  Below rsp (territory.depth + 198) byte ∨ territory.Own byte

/-- A program tells by its registers which bytes it may look at; they are none of the hidden ones. -/
structure Setting extends Territory where
  looksAt : Cpu → Nat → Prop
  apart : ∀ cpu byte, looksAt cpu byte → ¬ toTerritory.Hidden (cpu.register .rsp) byte
  stable : ∀ cpu other, Resumed cpu other → ∀ byte, looksAt cpu byte → looksAt other byte

variable {setting : Setting}

theorem Resumed.symm {cpu other : Cpu} (resumed : Resumed cpu other) : Resumed other cpu :=
  ⟨fun register => (resumed.registers register).symm, resumed.rip.symm, resumed.cs.symm,
    resumed.ss.symm, resumed.rflags.symm⟩

theorem Resumed.trans {cpu other third : Cpu} (first : Resumed cpu other) (second : Resumed other third) :
    Resumed cpu third :=
  ⟨fun register => (second.registers register).trans (first.registers register),
    second.rip.trans first.rip, second.cs.trans first.cs, second.ss.trans first.ss,
    second.rflags.trans first.rflags⟩

/-- Two states that the program cannot tell apart. -/
structure Alike (setting : Setting) (cpu other : Cpu) : Prop extends Resumed other cpu where
  memory : ∀ byte, setting.looksAt other byte → cpu.memory.byte byte = other.memory.byte byte

/-- Being alike is an equivalence. -/
theorem alike_equivalence (setting : Setting) : Equivalence (Alike setting) where
  refl _ := ⟨⟨fun _ => rfl, rfl, rfl, rfl, rfl⟩, fun _ _ => rfl⟩
  symm alike := by
    refine ⟨alike.toResumed.symm, ?_⟩
    intro byte visible
    exact (alike.memory byte (setting.stable _ _ alike.toResumed.symm byte visible)).symm
  trans first second := by
    refine ⟨second.toResumed.trans first.toResumed, ?_⟩
    intro byte visible
    rw [← second.memory byte visible]
    exact first.memory byte (setting.stable _ _ second.toResumed byte visible)

/-- A step that has nothing to do with interrupts in the state in which the program takes it. -/
structure Quiet (setting : Setting) (cpu : Cpu) (step : Cpu → Cpu) : Prop where
  unaware : ∀ {other}, Alike setting other cpu → Alike setting (step other) (step cpu)
  ticks : ∀ {other}, Alike setting other cpu →
    wordAt (step other).memory setting.globals.totalTicks = wordAt other.memory setting.globals.totalTicks

/-- The frame of an interrupt that arrives now. -/
def frameOf (cpu : Cpu) : Word := (cpu.register .rsp &&& -16) - bytes 5

/-- The stack below the program has room for an interrupt. -/
structure Clear (setting : Setting) (cpu : Cpu) : Prop where
  apart : ClockApart setting.globals (frameOf cpu) setting.depth cpu
  base : eoiAddress setting.globals cpu.memory = setting.eoi

/-- An interrupt finds room on the stack, and the compiled `clock_interrupt` follows the calling
convention in the state in which it starts. -/
structure Arrives (setting : Setting) (handlers : Handlers) (cpu : Cpu) (interrupt : Interrupt) : Prop
    extends Clear setting cpu where
  abi : interrupt = .tick → FollowsAbi setting.globals setting.depth handlers.clock
    (clockStart handlers.status handlers.returnAddress
      (deliver (kernelDelivery handlers.tickInterrupt handlers.selector cpu) cpu))

section Arrival

variable {cpu : Cpu}

/-- The stacked frame lies just below the stack pointer. -/
theorem below_of_frame {size byte : Nat} (below : Below (frameOf cpu + bytes 5) size byte) :
    Below (cpu.register .rsp) (size + 15) byte := by
  obtain ⟨_, near⟩ := aligned_sixteen (cpu.register .rsp)
  have lifted : Below (cpu.register .rsp) _ byte := below.lift
  rw [frameOf, sub_add_cancel] at lifted
  exact lifted.mono (by omega)

/-- What lies below the stacked frame lies below the stack pointer. -/
theorem below_of_frame_low {size byte : Nat} (below : Below (frameOf cpu) size byte) :
    Below (cpu.register .rsp) (size + 55) byte := by
  have lifted : Below (frameOf cpu + bytes 5) _ byte := below.lift
  rw [add_sub_cancel_left] at lifted
  have size : (bytes 5).toNat = 40 := rfl
  exact (below_of_frame lifted).mono (by omega)

/-- A visible byte is not one of the clock. -/
theorem Clear.other (clear : Clear setting cpu) {byte : Nat} (visible : ¬ setting.Own byte) :
    ¬ ClockByte setting.globals cpu.memory byte := by
  rw [ClockByte, clear.base]
  exact visible

variable {handlers : Handlers} {interrupt : Interrupt} (arrives : Arrives setting handlers cpu interrupt)
include arrives

/-- The program cannot tell that an interrupt has been served. -/
theorem Arrives.unseen : Alike setting (handlers.serve cpu interrupt) cpu := by
  cases interrupt with
  | tick =>
      have apart := arrives.apart
      have abi := arrives.abi rfl
      obtain ⟨resumed, memory⟩ := tickInterrupt_resumes
        (kernelDelivery handlers.tickInterrupt handlers.selector cpu) apart abi
      refine ⟨resumed, ?_⟩
      intro byte looked
      have visible := setting.apart cpu byte looked
      rw [Territory.Hidden, not_or] at visible
      have low : ¬ Below (frameOf cpu) (setting.depth + 143) byte :=
        fun below => visible.1 (below_of_frame_low below)
      have high : ¬ Below (frameOf cpu + bytes 5) 40 byte :=
        fun below => visible.1 ((below_of_frame below).mono (by omega))
      rw [Handlers.serve, memory, called_outside apart abi low (arrives.other visible.2)]
      exact stacked_apart _ _ _ high
  | spurious =>
      obtain ⟨resumed, memory⟩ := spuriousIntHandler_resumes
        (kernelDelivery handlers.spuriousIntHandler handlers.selector cpu) cpu
      refine ⟨resumed, ?_⟩
      intro byte looked
      rw [Handlers.serve, memory]
      refine stacked_apart _ _ _ fun below => setting.apart cpu byte looked (Or.inl ?_)
      exact (below_of_frame below).mono (by simp [stackWords, Syscalls.savedRegisters])

/-- The timer's interrupt is counted, the spurious one is not. -/
theorem Arrives.counts :
    wordAt (handlers.serve cpu interrupt).memory setting.globals.totalTicks =
      wordAt cpu.memory setting.globals.totalTicks + if interrupt = .tick then 1 else 0 := by
  have apart := arrives.apart
  cases interrupt with
  | tick =>
      have abi := arrives.abi rfl
      obtain ⟨_, memory⟩ := tickInterrupt_resumes
        (kernelDelivery handlers.tickInterrupt handlers.selector cpu) apart abi
      rw [Handlers.serve, memory]
      exact called_ticks apart abi
  | spurious =>
      obtain ⟨_, memory⟩ := spuriousIntHandler_resumes
        (kernelDelivery handlers.spuriousIntHandler handlers.selector cpu) cpu
      rw [Handlers.serve, memory, if_neg (by decide), add_zero]
      apply wordAt_congr
      intro byte low high
      refine stacked_apart _ _ _ fun below => apart.clock byte (.inl ⟨low, high⟩) ?_
      exact below.mono (by simp [stackWords, Syscalls.savedRegisters])

end Arrival

/-- A program and the interrupts that arrive between its steps. -/
abbrev Course := List (Move (Cpu → Cpu) Interrupt)

/-- The processor after a course. -/
def follow (handlers : Handlers) (cpu : Cpu) (course : Course) : Cpu :=
  course.foldl (Move.run (fun cpu step => step cpu) handlers.serve) cpu

/-- The processor after the steps of the program alone. -/
def plain (cpu : Cpu) (course : Course) : Cpu :=
  (Move.steps course).foldl (fun cpu step => step cpu) cpu

/-- Every step is quiet where the program takes it in its own run, and every interrupt finds room where
it arrives. -/
structure Undisturbed (setting : Setting) (handlers : Handlers) (cpu : Cpu) (course : Course) : Prop where
  steps : Guarded (fun cpu step => step cpu) (Quiet setting) cpu (Move.steps course)
  interrupts : Guarded (Move.run (fun cpu step => step cpu) handlers.serve)
    (Move.Allows (Arrives setting handlers)) cpu course

/-- The ticks are counted one by one. -/
theorem tally_count (interrupts : List Interrupt) (ticks : Word) :
    interrupts.foldl (fun ticks interrupt => ticks + if interrupt = .tick then 1 else 0) ticks =
      ticks + BitVec.ofNat 64 (interrupts.count .tick) := by
  induction interrupts generalizing ticks with
  | nil => simp
  | cons interrupt rest ih =>
      rw [List.foldl_cons, ih]
      cases interrupt with
      | tick =>
          rw [if_pos rfl, List.count_cons_self, BitVec.ofNat_add, BitVec.add_assoc,
            BitVec.add_comm 1]
          rfl
      | spurious =>
          rw [if_neg (by decide), List.count_cons_of_ne (by decide), add_zero]

section Courses

variable {handlers : Handlers} {cpu : Cpu} {course : Course}
  (undisturbed : Undisturbed setting handlers cpu course)
include undisturbed

/-- The interrupts leave no trace in the run of the program. -/
theorem Undisturbed.alike : Alike setting (follow handlers cpu course) (plain cpu course) :=
  interleaved_alike (alike_equivalence setting) (fun arrives => arrives.unseen)
    (fun quiet alike => quiet.unaware alike) ((alike_equivalence setting).refl cpu) undisturbed.steps
    undisturbed.interrupts

/-- The clock counts the interrupts of the timer. -/
theorem Undisturbed.ticks : wordAt (follow handlers cpu course).memory setting.globals.totalTicks =
    wordAt cpu.memory setting.globals.totalTicks +
      BitVec.ofNat 64 ((Move.events course).count .tick) := by
  have observed := interleaved_observed (alike_equivalence setting) (fun arrives => arrives.unseen)
    (fun cpu => wordAt cpu.memory setting.globals.totalTicks)
    (fun ticks interrupt => ticks + if interrupt = Interrupt.tick then 1 else 0)
    (fun quiet alike => quiet.unaware alike) (fun quiet alike => quiet.ticks alike)
    (fun arrives => arrives.counts) ((alike_equivalence setting).refl cpu) undisturbed.steps
    undisturbed.interrupts
  exact observed.trans (tally_count _ _)

end Courses

/-- However the interrupts of the timer and the spurious ones fall between the steps of a program, the
program ends as if there had been none, and the clock has counted those of the timer. -/
theorem interrupts_unseen (setting : Setting) (handlers : Handlers) (cpu : Cpu) (course : Course)
    (undisturbed : Undisturbed setting handlers cpu course) :
    Alike setting (follow handlers cpu course) (plain cpu course) ∧
      wordAt (follow handlers cpu course).memory setting.globals.totalTicks =
        wordAt cpu.memory setting.globals.totalTicks +
          BitVec.ofNat 64 ((Move.events course).count .tick) :=
  ⟨undisturbed.alike, undisturbed.ticks⟩

/-- A program with a stack from an address on looks at nothing that lies below its stack pointer. -/
def Territory.onStack (territory : Territory) (low : Nat) : Setting where
  toTerritory := territory
  looksAt cpu byte := byte < 2 ^ 64 ∧ ¬ (low ≤ byte ∧ byte < (cpu.register .rsp).toNat) ∧
    ¬ territory.Hidden (cpu.register .rsp) byte
  apart _ _ visible := visible.2.2
  stable cpu other resumed byte visible := by
    rw [resumed.registers .rsp]
    exact visible

/-- What an interrupt may take lies inside the stack. -/
def Territory.Roomy (territory : Territory) (low : Nat) (rsp : Word) : Prop :=
  low + (territory.depth + 198) ≤ rsp.toNat

instance (territory : Territory) (low : Nat) (rsp : Word) : Decidable (territory.Roomy low rsp) :=
  inferInstanceAs (Decidable (_ ≤ _))

section Stack

variable {territory : Territory} {low : Nat}

/-- The bytes below the stack pointer lie in the stack when there is room. -/
theorem below_inside {rsp : Word} {size byte : Nat} (room : low + size ≤ rsp.toNat)
    (small : byte < 2 ^ 64) (below : Below rsp size byte) : low ≤ byte ∧ byte < rsp.toNat := by
  unfold Below at below
  bv_omega

/-- With room on the stack a program looks at what is neither below its stack pointer nor the clock's. -/
theorem looksAt_iff {cpu : Cpu} (room : territory.Roomy low (cpu.register .rsp)) (byte : Nat) :
    (territory.onStack low).looksAt cpu byte ↔
      byte < 2 ^ 64 ∧ ¬ (low ≤ byte ∧ byte < (cpu.register .rsp).toNat) ∧ ¬ territory.Own byte := by
  constructor
  · rintro ⟨small, above, visible⟩
    exact ⟨small, above, fun own => visible (Or.inr own)⟩
  · rintro ⟨small, above, visible⟩
    refine ⟨small, above, ?_⟩
    rintro (below | own)
    · exact above (below_inside room small below)
    · exact visible own

/-- The same store keeps the agreement of two memories. -/
theorem storeAt_congr {first second : Memory} (address value : Word) {byte : Nat}
    (same : byte < address.toNat ∨ address.toNat + 8 ≤ byte → first.byte byte = second.byte byte) :
    (storeAt first address value).byte byte = (storeAt second address value).byte byte := by
  by_cases inside : address.toNat ≤ byte ∧ byte < address.toNat + 8
  · simp only [storeAt, Memory.write, inside, and_self, if_true]
  · rw [storeAt, storeAt, Memory.write_outside (by omega), Memory.write_outside (by omega)]
    exact same (by omega)

/-- Setting a register other than the stack pointer is quiet. -/
theorem quiet_set {cpu : Cpu} {target : Register} (general : target ≠ .rsp) (value : Word) :
    Quiet (territory.onStack low) cpu fun cpu => cpu.set target value where
  unaware := by
    intro other alike
    have registers : other.register = cpu.register := funext alike.registers
    refine ⟨⟨?_, alike.rip, alike.cs, alike.ss, alike.rflags⟩, ?_⟩
    · intro register
      simp only [Cpu.set, registers]
    · intro byte looked
      refine alike.memory byte ?_
      change byte < 2 ^ 64 ∧ ¬ (low ≤ byte ∧ byte < ((cpu.set target value).register .rsp).toNat) ∧
        ¬ territory.Hidden ((cpu.set target value).register .rsp) byte at looked
      rwa [set_register_of_ne cpu general.symm] at looked
  ticks _ := rfl

/-- A push is quiet while it leaves room on the stack. -/
theorem quiet_push {cpu : Cpu} (source : Register)
    (room : territory.Roomy (low + 8) (cpu.register .rsp))
    (apart : territory.globals.totalTicks.toNat + 8 ≤ (cpu.register .rsp).toNat - 8 ∨
      (cpu.register .rsp).toNat ≤ territory.globals.totalTicks.toNat) :
    Quiet (territory.onStack low) cpu fun cpu => exec cpu (.push source) := by
  unfold Territory.Roomy at room
  have lower : (cpu.register .rsp - 8).toNat = (cpu.register .rsp).toNat - 8 :=
    toNat_sub_eight _ (by omega)
  have before : territory.Roomy low (cpu.register .rsp) := by
    unfold Territory.Roomy
    omega
  have pointer : (exec cpu (.push source)).register .rsp = cpu.register .rsp - 8 :=
    set_register cpu .rsp _
  have after : territory.Roomy low ((exec cpu (.push source)).register .rsp) := by
    rw [pointer]
    unfold Territory.Roomy
    omega
  constructor
  · intro other alike
    have registers : other.register = cpu.register := funext alike.registers
    refine ⟨⟨?_, alike.rip, alike.cs, alike.ss, alike.rflags⟩, ?_⟩
    · intro register
      simp only [exec, Cpu.set, registers]
    · intro byte looked
      obtain ⟨small, above, visible⟩ := (looksAt_iff after byte).mp looked
      rw [pointer, lower] at above
      simp only [exec, registers]
      refine storeAt_congr _ _ fun outside => alike.memory byte ((looksAt_iff before byte).mpr
        ⟨small, ?_, visible⟩)
      rw [lower] at outside
      omega
  · intro other alike
    have stack : other.register .rsp = cpu.register .rsp := alike.registers .rsp
    apply wordAt_congr
    intro byte start stop
    change (storeAt other.memory (other.register .rsp - 8) _).byte byte = _
    rw [stack, storeAt]
    change territory.globals.totalTicks.toNat ≤ byte at start
    change byte < territory.globals.totalTicks.toNat + 8 at stop
    exact Memory.write_outside (by omega)

/-- A pop is quiet when its word is neither below the stack nor the clock's. -/
theorem quiet_pop {cpu : Cpu} {target : Register} (general : target ≠ .rsp)
    (room : territory.Roomy low (cpu.register .rsp)) (inside : (cpu.register .rsp).toNat + 8 < 2 ^ 64)
    (apart : ∀ byte, (cpu.register .rsp).toNat ≤ byte → byte < (cpu.register .rsp).toNat + 8 →
      ¬ territory.Own byte) :
    Quiet (territory.onStack low) cpu fun cpu => exec cpu (.pop target) := by
  have upper : (cpu.register .rsp + 8).toNat = (cpu.register .rsp).toNat + 8 := by
    rw [BitVec.toNat_add]
    exact Nat.mod_eq_of_lt inside
  have pointer : (exec cpu (.pop target)).register .rsp = cpu.register .rsp + 8 :=
    (set_register_of_ne _ general.symm _).trans (set_register cpu .rsp _)
  have after : territory.Roomy low ((exec cpu (.pop target)).register .rsp) := by
    rw [pointer]
    unfold Territory.Roomy at room ⊢
    omega
  constructor
  · intro other alike
    have registers : other.register = cpu.register := funext alike.registers
    have word : wordAt other.memory (cpu.register .rsp) = wordAt cpu.memory (cpu.register .rsp) := by
      apply wordAt_congr
      intro byte start stop
      exact alike.memory byte ((looksAt_iff room byte).mpr ⟨by omega, by omega, apart byte start stop⟩)
    refine ⟨⟨?_, alike.rip, alike.cs, alike.ss, alike.rflags⟩, ?_⟩
    · intro register
      simp only [exec, Cpu.set, registers, word]
    · intro byte looked
      obtain ⟨small, above, visible⟩ := (looksAt_iff after byte).mp looked
      rw [pointer, upper] at above
      exact alike.memory byte ((looksAt_iff room byte).mpr ⟨small, by omega, visible⟩)
  · intro other alike
    rfl

end Stack

/-- The globals of the interrupted program. -/
def lowTerritory : Territory := ⟨⟨0x1000, 0x1008⟩, 0xFEE000B0, 64⟩

def plainHandlers : Handlers := ⟨0x600000, 0x601000, 8, fun _ => 0, 0x600020, plainClock ⟨0x1000, 0x1008⟩⟩

/-- A program pushes a register and pops it into another one, and the timer ticks in between. -/
def pushPop : Course :=
  [.own fun cpu => cpu.set .rbx 5, .own fun cpu => exec cpu (.push .rbx), .outside .tick,
    .own fun cpu => exec cpu (.pop .rcx)]

/-- The processor when the timer ticks. -/
def pushed : Cpu := exec (interrupted.set .rbx 5) (.push .rbx)

theorem clear_pushed : Clear (lowTerritory.onStack 0x1100) pushed where
  apart := by
    have frame : frameOf pushed = 0x11F8 := by decide
    rw [frame]
    have eoi : eoiAddress lowTerritory.globals pushed.memory = 0xFEE000B0 := by
      decide
    constructor
    · decide
    · intro byte own
      change ClockByte lowTerritory.globals _ byte at own
      unfold ClockByte at own
      rw [eoi] at own
      have low : lowTerritory.globals.totalTicks = 0x1000 := rfl
      rw [low] at own
      change ¬ Below _ (64 + 183) byte
      unfold Below bytes
      bv_omega
    · intro byte lower upper
      change (0x1008 : Word).toNat ≤ byte at lower
      change byte < (0x1008 : Word).toNat + 8 at upper
      change ¬ Below _ (64 + 183) byte
      unfold Below bytes
      bv_omega
    · decide
    · change _ ∨ (eoiAddress lowTerritory.globals _).toNat + 4 ≤ _
      rw [eoi]
      decide
  base := by decide

theorem undisturbed_pushPop :
    Undisturbed (lowTerritory.onStack 0x1100) plainHandlers interrupted pushPop where
  steps := by
    refine ⟨quiet_set (by decide) 5, quiet_push .rbx (by decide) (by decide),
      quiet_pop (by decide) (by decide) (by decide) ?_, trivial⟩
    intro byte lower upper
    have pointer : pushed.register .rsp = 0x122C := by decide
    change (pushed.register .rsp).toNat ≤ byte at lower
    change byte < (pushed.register .rsp).toNat + 8 at upper
    rw [pointer] at lower upper
    change ¬ ((0x1000 : Word).toNat ≤ byte ∧ byte < (0x1000 : Word).toNat + 8 ∨
      (0xFEE000B0 : Word).toNat ≤ byte ∧ byte < (0xFEE000B0 : Word).toNat + 4)
    bv_omega
  interrupts := ⟨trivial, trivial, ⟨clear_pushed, fun _ => followsAbi_plainClock _ _ _⟩, trivial, trivial⟩

/-- A tick between a push and the pop of its word. -/
theorem interrupts_unseen_pushPop :
    Undisturbed (lowTerritory.onStack 0x1100) plainHandlers interrupted pushPop ∧
      (plain interrupted pushPop).register .rcx = 5 ∧
      Alike (lowTerritory.onStack 0x1100) (follow plainHandlers interrupted pushPop)
        (plain interrupted pushPop) ∧
      wordAt (follow plainHandlers interrupted pushPop).memory 0x1000 =
        wordAt interrupted.memory 0x1000 + 1 :=
  ⟨undisturbed_pushPop, by decide, interrupts_unseen (lowTerritory.onStack 0x1100) plainHandlers interrupted pushPop
    undisturbed_pushPop⟩

end ArchaOS.Exceptions
