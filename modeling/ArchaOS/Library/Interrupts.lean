import ArchaOS.Library.Processor
import ArchaOS.Library.Word64

namespace ArchaOS.Library.Processor

theorem set_register (cpu : Cpu) (target : Register) (value : Word) :
    (cpu.set target value).register target = value := by
  rw [Cpu.set]
  exact Function.update_self target value cpu.register

/-- `cld` clears the direction flag. -/
def cld (cpu : Cpu) : Cpu := { cpu with rflags := cpu.rflags &&& ~~~ 0x400 }

/-- `and` with a constant; `status` gives the status flags of a result. -/
def andImmediate (target : Register) (mask : Word) (status : Word → Word) (cpu : Cpu) : Cpu :=
  let result := cpu.register target &&& mask
  { cpu.set target result with rflags := (cpu.rflags &&& ~~~ 0x8D5) ||| (status result &&& 0x8D5) }

/-- How an interrupt arrives: where its frame stands, and what the processor loads from the gate. -/
structure Delivery where
  frame : Word
  handler : Word
  selector : Word
  stackSegment : Word
  deriving DecidableEq, Repr

/-- The state in which the handler of an interrupt gate starts. -/
def deliver (delivery : Delivery) (cpu : Cpu) : Cpu :=
  { cpu.set .rsp delivery.frame with
    rip := delivery.handler
    cs := delivery.selector
    rflags := cpu.rflags &&& ~~~ 0x14300
    ss := delivery.stackSegment
    memory := stacked cpu.memory (delivery.frame + bytes 5)
      [cpu.ss, cpu.register .rsp, cpu.rflags, cpu.cs, cpu.rip] }

/-- A byte is one of the last `size` bytes before an address, where the address space is a circle. -/
def Below (top : Word) (size byte : Nat) : Prop := (top - 1 - BitVec.ofNat 64 byte).toNat < size

instance (top : Word) (size byte : Nat) : Decidable (Below top size byte) :=
  inferInstanceAs (Decidable (_ < _))

section Below

variable {top : Word} {size byte : Nat}

/-- A byte below a shorter range lies below a longer one. -/
theorem Below.mono {larger : Nat} (below : Below top size byte) (le : size ≤ larger) :
    Below top larger byte :=
  Nat.lt_of_lt_of_le below le

/-- What lies below a lower address lies below the upper one. -/
theorem Below.lift {lower : Word} (below : Below lower size byte) :
    Below top ((top - lower).toNat + size) byte := by
  unfold Below at *
  bv_omega

/-- The words next to an address are apart from what lies below them. -/
theorem Below.apart {lower : Word} (below : Below top size byte) (within : size ≤ (top - lower).toNat)
    {depth : Nat} (room : (top - lower).toNat + depth ≤ 2 ^ 64) : ¬ Below lower depth byte := by
  unfold Below at *
  bv_omega

/-- The bytes of a word lie in the eight bytes below its end. -/
theorem below_word {address : Word} {byte : Nat} (low : address.toNat ≤ byte)
    (high : byte < address.toNat + 8) : Below (address + 8) 8 byte := by
  unfold Below
  bv_omega

end Below

/-- A store of a word leaves the other bytes. -/
theorem storeAt_apart (memory : Memory) (address value : Word) {byte : Nat}
    (apart : ¬ Below (address + 8) 8 byte) : (storeAt memory address value).byte byte = memory.byte byte := by
  apply Memory.write_outside
  by_contra inside
  exact apart (below_word (by omega) (by omega))

/-- Stacked words change only the bytes below the top that they take. -/
theorem stacked_apart (memory : Memory) (top : Word) (values : List Word) {byte : Nat}
    (apart : ¬ Below top (8 * values.length) byte) :
    (stacked memory top values).byte byte = memory.byte byte := by
  induction values generalizing memory top with
  | nil => rfl
  | cons value rest ih =>
      rw [List.length_cons] at apart
      have step : top - (top - 8) = 8 := by bv_omega
      have later : ¬ Below (top - 8) (8 * rest.length) byte := by
        intro below
        have lifted : Below top ((top - (top - 8)).toNat + 8 * rest.length) byte := below.lift
        rw [step] at lifted
        exact apart (lifted.mono (by change 8 + _ ≤ _; omega))
      have first : ¬ Below (top - 8 + 8) 8 byte := by
        rw [sub_add_cancel]
        exact fun below => apart (below.mono (by omega))
      rw [stacked, ih _ _ later, storeAt_apart _ _ _ first]

/-- Each stacked word can be read back, as long as the words do not reach around the circle. -/
theorem stacked_read (memory : Memory) (top : Word) (values : List Word)
    (room : 8 * values.length ≤ 2 ^ 64) (index : Nat) (inside : index < values.length) :
    wordAt (stacked memory top values) (top - bytes (index + 1)) = values[index] := by
  induction values generalizing memory top index with
  | nil => simp at inside
  | cons value rest ih =>
      rw [List.length_cons] at room inside
      cases index with
      | zero =>
          have address : top - bytes (0 + 1) = top - 8 := rfl
          rw [address, stacked, List.getElem_cons_zero, ← wordAt_storeAt memory (top - 8) value]
          apply wordAt_congr
          intro byte low high
          rw [wordAt_storeAt]
          have word := below_word low high
          rw [sub_add_cancel] at word
          have step : (top - (top - 8)).toNat = 8 := by
            rw [sub_sub_cancel]
            rfl
          exact stacked_apart _ _ rest (word.apart (by omega) (by omega))
      | succ index =>
          have address : top - bytes (index + 1 + 1) = (top - 8) - bytes (index + 1) := by
            rw [bytes_succ, sub_add_eq_sub_sub]
          rw [address, stacked, List.getElem_cons_succ]
          exact ih _ _ (by omega) index (by omega)

/-- Two lists of words are stacked one below the other. -/
theorem stacked_append (memory : Memory) (top : Word) (first second : List Word) :
    stacked memory top (first ++ second) =
      stacked (stacked memory top first) (top - bytes first.length) second := by
  induction first generalizing memory top with
  | nil =>
      have same : top - bytes 0 = top := by simp [bytes]
      rw [List.nil_append, List.length_nil, same, stacked]
  | cons value rest ih =>
      rw [List.cons_append, stacked, stacked, ih, List.length_cons, bytes_succ, sub_add_eq_sub_sub]

/-- Alignment clears the last four bits of an address. -/
theorem toNat_align (address : Word) : (address &&& -16).toNat = address.toNat / 16 * 16 := by
  have mask : (-16 : Word).toNat = (2 ^ 60 - 1) <<< 4 := by decide
  have below := address.isLt
  rw [BitVec.toNat_and, mask, and_mask]
  omega

/-- Masking the low four bits off gives a multiple of sixteen that is less than sixteen lower. -/
theorem aligned_sixteen (address : Word) :
    (address &&& -16).toNat % 16 = 0 ∧ (address - (address &&& -16)).toNat < 16 := by
  have aligned := toNat_align address
  constructor
  · omega
  · have below := address.isLt
    rw [BitVec.toNat_sub_of_le (by rw [BitVec.le_def]; omega)]
    omega

end ArchaOS.Library.Processor
