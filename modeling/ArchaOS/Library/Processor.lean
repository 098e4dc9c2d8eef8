import ArchaOS.Library.ByteMemory
import Mathlib.Data.BitVec

namespace ArchaOS.Library.Processor

/-- The general registers of an x86-64 processor. -/
inductive Register where
  | rax | rbx | rcx | rdx | rsi | rdi | rbp | rsp
  | r8 | r9 | r10 | r11 | r12 | r13 | r14 | r15
  deriving DecidableEq, Repr

abbrev Word := BitVec 64

/-- The registers, the two bases of the gs segment, the memory and the addresses of the words that
were read so far. -/
structure Cpu where
  register : Register → Word
  rip : Word
  cs : Word
  rflags : Word
  ss : Word
  gsBase : Word
  kernelGsBase : Word
  memory : Memory
  trace : List Word

/-- The word that stands at an address. -/
def wordAt (memory : Memory) (address : Word) : Word := BitVec.ofNat 64 (memory.read address.toNat 8)

/-- The memory after a word has been stored. -/
def storeAt (memory : Memory) (address value : Word) : Memory :=
  memory.write address.toNat 8 value.toNat

def Cpu.set (cpu : Cpu) (target : Register) (value : Word) : Cpu :=
  { cpu with register := Function.update cpu.register target value }

/-- The state in which a called function starts. -/
def Cpu.calling (cpu : Cpu) (returnAddress : Word) : Cpu :=
  { cpu.set .rsp (cpu.register .rsp - 8) with
    memory := storeAt cpu.memory (cpu.register .rsp - 8) returnAddress }

/-- The part of the instruction set that context switches use; the callee of a call runs up to and
including its return. -/
inductive Instruction where
  | push (source : Register)
  | pop (target : Register)
  | mov (target source : Register)
  | movFromGs (target : Register) (offset : Word)
  | movToGs (offset : Word) (source : Register)
  | swapgs
  | call (returnAddress : Word) (callee : Cpu → Cpu)
  | iretq
  | sysretq

def exec (cpu : Cpu) : Instruction → Cpu
  | .push source =>
      { cpu.set .rsp (cpu.register .rsp - 8) with
        memory := storeAt cpu.memory (cpu.register .rsp - 8) (cpu.register source) }
  | .pop target =>
      { (cpu.set .rsp (cpu.register .rsp + 8)).set target
          (wordAt cpu.memory (cpu.register .rsp)) with
        trace := cpu.trace ++ [cpu.register .rsp] }
  | .mov target source => cpu.set target (cpu.register source)
  | .movFromGs target offset =>
      { cpu.set target (wordAt cpu.memory (cpu.gsBase + offset)) with
        trace := cpu.trace ++ [cpu.gsBase + offset] }
  | .movToGs offset source =>
      { cpu with memory := storeAt cpu.memory (cpu.gsBase + offset) (cpu.register source) }
  | .swapgs => { cpu with gsBase := cpu.kernelGsBase, kernelGsBase := cpu.gsBase }
  | .call returnAddress callee => callee (cpu.calling returnAddress)
  | .iretq =>
      let rsp := cpu.register .rsp
      { cpu.set .rsp (wordAt cpu.memory (rsp + 24)) with
        rip := wordAt cpu.memory rsp
        cs := wordAt cpu.memory (rsp + 8)
        rflags := wordAt cpu.memory (rsp + 16)
        ss := wordAt cpu.memory (rsp + 32)
        trace := cpu.trace ++ [rsp, rsp + 8, rsp + 16, rsp + 24, rsp + 32] }
  | .sysretq =>
      { cpu with
        rip := cpu.register .rcx
        rflags := cpu.register .r11 &&& 0x3C7FD7 ||| 2 }

def run (program : List Instruction) (cpu : Cpu) : Cpu := program.foldl exec cpu

/-- A program made of two runs the second after the first. -/
theorem run_append (first second : List Instruction) (cpu : Cpu) :
    run (first ++ second) cpu = run second (run first cpu) := List.foldl_append

theorem run_cons (instruction : Instruction) (rest : List Instruction) (cpu : Cpu) :
    run (instruction :: rest) cpu = run rest (exec cpu instruction) := rfl

/-- Setting one register keeps the others. -/
theorem set_register_of_ne (cpu : Cpu) {target other : Register} (different : other ≠ target)
    (value : Word) : (cpu.set target value).register other = cpu.register other :=
  Function.update_of_ne different _ _

/-- The memory after words have been pushed below an address, the first one on top. -/
def stacked (memory : Memory) (top : Word) : List Word → Memory
  | [] => memory
  | value :: rest => stacked (storeAt memory (top - 8) value) (top - 8) rest

/-- A number of words as a distance in bytes. -/
def bytes (count : Nat) : Word := BitVec.ofNat 64 (8 * count)

theorem bytes_succ (count : Nat) : bytes (count + 1) = 8 + bytes count := by
  unfold bytes
  rw [show 8 * (count + 1) = 8 + 8 * count by omega, BitVec.ofNat_add]
  rfl

/-- Pushing registers lowers the stack pointer and stacks their values. -/
theorem run_push (registers : List Register) (cpu : Cpu) (notStack : .rsp ∉ registers) :
    run (registers.map .push) cpu =
      { cpu.set .rsp (cpu.register .rsp - bytes registers.length) with
        memory := stacked cpu.memory (cpu.register .rsp) (registers.map cpu.register) } := by
  induction registers generalizing cpu with
  | nil =>
      have same : cpu.register .rsp - bytes 0 = cpu.register .rsp := by simp [bytes]
      simp [run, stacked, Cpu.set, same]
  | cons register rest ih =>
      rw [List.mem_cons, not_or] at notStack
      have kept : ∀ other ∈ rest, (exec cpu (.push register)).register other = cpu.register other := by
        intro other member
        have different : other ≠ .rsp := fun same => notStack.2 (same ▸ member)
        exact set_register_of_ne cpu different _
      rw [List.map_cons, run_cons, ih _ notStack.2, List.map_congr_left kept]
      simp only [exec, Cpu.set, Function.update_self, Function.update_idem, List.length_cons,
        List.map_cons, stacked, bytes_succ, sub_add_eq_sub_sub]

theorem bytes_add (first second : Nat) : bytes (first + second) = bytes first + bytes second := by
  unfold bytes
  rw [Nat.mul_add, BitVec.ofNat_add]

/-- The last word is stored below the others. -/
theorem stacked_snoc (memory : Memory) (top : Word) (values : List Word) (value : Word) :
    stacked memory top (values ++ [value]) =
      storeAt (stacked memory top values) (top - bytes values.length - 8) value := by
  induction values generalizing memory top with
  | nil =>
      have same : top - bytes 0 = top := by simp [bytes]
      simp [stacked, same]
  | cons first rest ih =>
      rw [List.cons_append, stacked, stacked, ih, List.length_cons, bytes_succ, sub_add_eq_sub_sub]

/-- Some words below the top lie that many bytes lower. -/
theorem toNat_sub_bytes (top : Word) (count : Nat) (room : 8 * count ≤ top.toNat) :
    (top - bytes count).toNat = top.toNat - 8 * count := by
  have below := top.isLt
  have size : (bytes count).toNat = 8 * count := by
    rw [bytes, BitVec.toNat_ofNat]
    exact Nat.mod_eq_of_lt (by omega)
  rw [BitVec.toNat_sub_of_le (by rw [BitVec.le_def, size]; exact room), size]

theorem toNat_sub_eight (top : Word) (room : 8 ≤ top.toNat) : (top - 8).toNat = top.toNat - 8 :=
  toNat_sub_bytes top 1 room

/-- A stored word is read back. -/
theorem wordAt_storeAt (memory : Memory) (address value : Word) :
    wordAt (storeAt memory address value) address = value := by
  rw [wordAt, storeAt, Memory.read_write_same]
  apply BitVec.eq_of_toNat_eq
  have below := value.isLt
  rw [BitVec.toNat_ofNat]
  omega

/-- A word is determined by its eight bytes. -/
theorem wordAt_congr {first second : Memory} {address : Word}
    (same : ∀ byte, address.toNat ≤ byte → byte < address.toNat + 8 →
      first.byte byte = second.byte byte) : wordAt first address = wordAt second address := by
  rw [wordAt, wordAt, Memory.read_congr same]

/-- Stacking words changes only the bytes that they occupy. -/
theorem stacked_outside (memory : Memory) (top : Word) (values : List Word)
    (room : 8 * values.length ≤ top.toNat) (byte : Nat)
    (outside : byte < top.toNat - 8 * values.length ∨ top.toNat ≤ byte) :
    (stacked memory top values).byte byte = memory.byte byte := by
  induction values generalizing memory top with
  | nil => rfl
  | cons value rest ih =>
      rw [List.length_cons] at room outside
      have lower := toNat_sub_eight top (by omega)
      rw [stacked, ih _ _ (by omega) (by omega), storeAt]
      exact Memory.write_outside (by omega)

/-- Popping registers raises the stack pointer and loads each of them from its own word. -/
theorem run_pop (registers : List Register) (cpu : Cpu) (notStack : .rsp ∉ registers)
    (distinct : registers.Nodup) :
    run (registers.map .pop) cpu =
      { cpu with
        register := fun register =>
          if register = .rsp then cpu.register .rsp + bytes registers.length
          else if register ∈ registers then
            wordAt cpu.memory (cpu.register .rsp + bytes (registers.idxOf register))
          else cpu.register register
        trace := cpu.trace ++ (List.range registers.length).map fun index =>
          cpu.register .rsp + bytes index } := by
  induction registers generalizing cpu with
  | nil =>
      have same : (fun register => if register = Register.rsp then cpu.register .rsp + bytes 0
          else cpu.register register) = cpu.register := by
        funext register
        split
        · rename_i isStack
          simp [isStack, bytes]
        · rfl
      simp [run, same]
  | cons first rest ih =>
      rw [List.mem_cons, not_or] at notStack
      rw [List.nodup_cons] at distinct
      rw [List.map_cons, run_cons, ih _ notStack.2 distinct.2]
      have stack : (exec cpu (.pop first)).register .rsp = cpu.register .rsp + 8 := by
        simp [exec, Cpu.set, Function.update_of_ne notStack.1]
      have address (count : Nat) :
          cpu.register .rsp + 8 + bytes count = cpu.register .rsp + bytes (count + 1) := by
        rw [bytes_succ, add_assoc]
      rw [stack]
      simp only [address]
      congr 1
      · funext register
        by_cases isStack : register = .rsp
        · simp [isStack]
        · by_cases isFirst : register = first
          · subst isFirst
            simp [exec, isStack, distinct.1, bytes, Cpu.set]
          · have later : (first :: rest).idxOf register = rest.idxOf register + 1 :=
              List.idxOf_cons_ne rest (Ne.symm isFirst)
            simp only [isStack, if_false, List.mem_cons, isFirst, false_or, later]
            split
            · rfl
            · simp [exec, Cpu.set, Function.update_of_ne isStack, Function.update_of_ne isFirst]
      · simp only [exec, List.append_assoc, List.length_cons, List.range_succ_eq_map, List.map_cons,
          List.map_map, List.singleton_append]
        congr 2
        simp [bytes]

/-- Popping the pushed registers in the opposite order restores them and the stack pointer. -/
theorem run_restore (registers : List Register) (cpu : Cpu) (notStack : .rsp ∉ registers)
    (distinct : registers.Nodup) (top : Word) (value : Register → Word)
    (stack : cpu.register .rsp = top - bytes registers.length)
    (saved : ∀ index (inside : index < registers.length),
      wordAt cpu.memory (top - bytes (index + 1)) = value registers[index]) :
    (∀ register ∈ registers,
      (run (registers.reverse.map .pop) cpu).register register = value register) ∧
    (run (registers.reverse.map .pop) cpu).register .rsp = top ∧
    (run (registers.reverse.map .pop) cpu).memory = cpu.memory ∧
    (run (registers.reverse.map .pop) cpu).gsBase = cpu.gsBase ∧
    (run (registers.reverse.map .pop) cpu).kernelGsBase = cpu.kernelGsBase := by
  rw [run_pop registers.reverse cpu (by simpa using notStack) (List.nodup_reverse.mpr distinct)]
  refine ⟨?_, ?_, rfl, rfl, rfl⟩
  · intro register held
    obtain ⟨index, inside, rfl⟩ := List.getElem_of_mem held
    have member : registers[index] ∈ registers.reverse := by simp
    have general : registers[index] ≠ .rsp := fun same => notStack (same ▸ held)
    have bound : registers.length - 1 - index < registers.reverse.length := by
      rw [List.length_reverse]
      omega
    have position : registers.reverse.idxOf registers[index] = registers.length - 1 - index := by
      have found : registers.reverse[registers.length - 1 - index] = registers[index] := by
        rw [List.getElem_reverse]
        congr 1
        omega
      rw [← found]
      exact (List.nodup_reverse.mpr distinct).idxOf_getElem _ _
    have address : top - bytes registers.length + bytes (registers.length - 1 - index) =
        top - bytes (index + 1) := by
      have parts : bytes registers.length =
          bytes (index + 1) + bytes (registers.length - 1 - index) := by
        rw [← bytes_add]
        congr 1
        omega
      rw [parts, sub_add_eq_sub_sub, sub_add_cancel]
    simp only [general, if_false, member, if_true, position, stack, address]
    exact saved index inside
  · simp only [if_true, stack, List.length_reverse, sub_add_cancel]

end ArchaOS.Library.Processor
