import Mathlib.Tactic

namespace ArchaOS.Library

/-- A memory holds one byte at each address. -/
@[ext] structure Memory where
  byte : Nat → UInt8

namespace Memory

/-- The little-endian number that stands in `count` bytes from an address on. -/
def read (memory : Memory) (address : Nat) : Nat → Nat
  | 0 => 0
  | count + 1 => (memory.byte address).toNat + 256 * read memory (address + 1) count

/-- The memory after a little-endian number has been stored in `count` bytes. -/
def write (memory : Memory) (address count value : Nat) : Memory where
  byte other :=
    if address ≤ other ∧ other < address + count then UInt8.ofNat (value / 256 ^ (other - address))
    else memory.byte other

/-- The memory after a range of bytes has been filled with one value. -/
def fill (memory : Memory) (address count : Nat) (value : UInt8) : Memory where
  byte other := if address ≤ other ∧ other < address + count then value else memory.byte other

/-- The memory after one byte has been stored. -/
def store (memory : Memory) (address : Nat) (value : UInt8) : Memory where
  byte other := if other = address then value else memory.byte other

/-- The memory after a range of bytes has been replaced by the bytes of another range. -/
def move (memory : Memory) (destination source count : Nat) : Memory where
  byte other :=
    if destination ≤ other ∧ other < destination + count then
      memory.byte (source + (other - destination))
    else memory.byte other

/-- The memory after `count` numbers of `size` bytes have been filled with one value. -/
def fillWords (memory : Memory) (address size count value : Nat) : Memory where
  byte other :=
    if address ≤ other ∧ other < address + size * count then
      UInt8.ofNat (value / 256 ^ ((other - address) % size))
    else memory.byte other

/-- The bytes stand at an address. -/
def Holds (memory : Memory) (address : Nat) (bytes : List UInt8) : Prop :=
  ∀ index, (inside : index < bytes.length) → memory.byte (address + index) = bytes[index]

/-- A read depends only on the bytes that it covers. -/
theorem read_congr {first second : Memory} {address count : Nat}
    (same : ∀ other, address ≤ other → other < address + count → first.byte other = second.byte other) :
    read first address count = read second address count := by
  induction count generalizing address with
  | zero => rfl
  | succ count ih =>
      have head := same address (Nat.le_refl _) (by omega)
      have tail : read first (address + 1) count = read second (address + 1) count :=
        ih fun other lower upper => same other (by omega) (by omega)
      simp only [read, head, tail]

/-- A number of some bytes is below the power of 256. -/
theorem read_lt (memory : Memory) (address count : Nat) : read memory address count < 256 ^ count := by
  induction count generalizing address with
  | zero => exact Nat.one_pos
  | succ count ih =>
      have byte := (memory.byte address).toNat_lt
      have rest := ih (address + 1)
      rw [read, Nat.pow_succ]
      omega

/-- A number is zero exactly when all of its bytes are. -/
theorem read_eq_zero_iff {memory : Memory} {address count : Nat} :
    read memory address count = 0 ↔ ∀ offset < count, memory.byte (address + offset) = 0 := by
  induction count generalizing address with
  | zero => simp [read]
  | succ count ih =>
      have tail : (∀ offset < count, memory.byte (address + 1 + offset) = 0) ↔
          ∀ offset < count, memory.byte (address + (offset + 1)) = 0 := by
        simp only [Nat.add_assoc, Nat.add_comm 1]
      rw [read, Nat.add_eq_zero_iff, Nat.mul_eq_zero, ih, tail, Nat.forall_lt_succ_left, Nat.add_zero,
        ← UInt8.toNat_inj]
      simp

/-- A write changes only the bytes that it covers. -/
theorem write_outside {memory : Memory} {address count value other : Nat}
    (outside : other < address ∨ address + count ≤ other) :
    (write memory address count value).byte other = memory.byte other := by
  have missed : ¬ (address ≤ other ∧ other < address + count) := by omega
  simp only [write, missed, if_false]

/-- A fill changes only the bytes that it covers. -/
theorem fill_outside {memory : Memory} {address count : Nat} {value : UInt8} {other : Nat}
    (outside : other < address ∨ address + count ≤ other) :
    (fill memory address count value).byte other = memory.byte other := by
  have missed : ¬ (address ≤ other ∧ other < address + count) := by omega
  simp only [fill, missed, if_false]

@[simp] theorem fill_zero (memory : Memory) (address : Nat) (value : UInt8) :
    fill memory address 0 value = memory := by
  apply Memory.ext
  funext other
  exact fill_outside (by omega)

/-- A store does not change a number that it does not touch. -/
theorem read_write_apart {memory : Memory} {address count value other size : Nat}
    (apart : other + size ≤ address ∨ address + count ≤ other) :
    read (write memory address count value) other size = read memory other size := by
  apply read_congr
  intro byte lower upper
  exact write_outside (by omega)

/-- A number apart from a filled range is read as before. -/
theorem read_fill_apart {memory : Memory} {address count : Nat} {value : UInt8} {other size : Nat}
    (apart : other + size ≤ address ∨ address + count ≤ other) :
    read (fill memory address count value) other size = read memory other size := by
  apply read_congr
  intro byte lower upper
  exact fill_outside (by omega)

/-- The last `rest` bytes of a stored number hold its upper digits. -/
theorem read_write_suffix (memory : Memory) (address count value : Nat) (rest : Nat)
    (within : rest ≤ count) :
    read (write memory address count value) (address + (count - rest)) rest =
      value / 256 ^ (count - rest) % 256 ^ rest := by
  induction rest with
  | zero => simp [read, Nat.mod_one]
  | succ rest ih =>
      have inside : address ≤ address + (count - (rest + 1)) ∧
          address + (count - (rest + 1)) < address + count := by omega
      have offset : address + (count - (rest + 1)) - address = count - (rest + 1) := by omega
      have next : address + (count - (rest + 1)) + 1 = address + (count - rest) := by omega
      have power : 256 ^ (count - rest) = 256 ^ (count - (rest + 1)) * 256 := by
        rw [← Nat.pow_succ]
        congr 1
        omega
      rw [read, next, ih (by omega), power, ← Nat.div_div_eq_div_mul]
      simp only [write, inside, and_self, if_true, offset, UInt8.toNat_ofNat']
      have step : 256 ^ (rest + 1) = 256 * 256 ^ rest := by rw [Nat.pow_succ, Nat.mul_comm]
      rw [step, Nat.mod_mul]

/-- Reading back a stored number gives its low bytes. -/
theorem read_write_same (memory : Memory) (address count value : Nat) :
    read (write memory address count value) address count = value % 256 ^ count := by
  have whole := read_write_suffix memory address count value count (Nat.le_refl _)
  simpa using whole

/-- A moved byte is the byte of the source before the move. -/
theorem move_inside {memory : Memory} {destination source count offset : Nat}
    (inside : offset < count) :
    (move memory destination source count).byte (destination + offset) =
      memory.byte (source + offset) := by
  have range : destination ≤ destination + offset ∧ destination + offset < destination + count := by
    omega
  simp only [move, range, and_self, if_true, Nat.add_sub_cancel_left]

/-- A move changes only the bytes of its destination. -/
theorem move_outside {memory : Memory} {destination source count other : Nat}
    (outside : other < destination ∨ destination + count ≤ other) :
    (move memory destination source count).byte other = memory.byte other := by
  have missed : ¬ (destination ≤ other ∧ other < destination + count) := by omega
  simp only [move, missed, if_false]

@[simp] theorem move_zero (memory : Memory) (destination source : Nat) :
    move memory destination source 0 = memory := by
  apply Memory.ext
  funext other
  rw [move_outside (by omega)]

/-- Bytes that are moved to the front of their buffer leave what stood behind them. -/
theorem Holds.move_front {memory : Memory} {address start count : Nat} {bytes : List UInt8}
    (holds : Holds memory address bytes) (within : start + count ≤ bytes.length) :
    Holds (memory.move address (address + start) count) address
      ((bytes.drop start).take count ++ bytes.drop count) := by
  intro index inside
  have size : ((bytes.drop start).take count).length = count := by
    rw [List.length_take, List.length_drop]
    omega
  rw [List.length_append, size, List.length_drop] at inside
  by_cases moved : index < count
  · rw [move_inside moved, Nat.add_assoc, holds (start + index) (by omega),
      List.getElem_append_left (by omega), List.getElem_take, List.getElem_drop]
  · have position : count + (index - count) = index := by omega
    rw [move_outside (by omega), holds index (by omega), List.getElem_append_right (by omega),
      List.getElem_drop]
    simp only [size, position]

/-- Each byte of a number that is read stands at its own place. -/
theorem read_digit (memory : Memory) (address : Nat) {count offset : Nat} (inside : offset < count) :
    UInt8.ofNat (memory.read address count / 256 ^ offset) = memory.byte (address + offset) := by
  induction count generalizing address offset with
  | zero => omega
  | succ count ih =>
      have byte := (memory.byte address).toNat_lt
      cases offset with
      | zero =>
          change _ = memory.byte address
          rw [read, Nat.pow_zero, Nat.div_one, ← UInt8.toNat_inj, UInt8.toNat_ofNat']
          omega
      | succ offset =>
          have quotient : memory.read address (count + 1) / 256 = memory.read (address + 1) count := by
            rw [read]
            omega
          rw [Nat.pow_succ, Nat.mul_comm, ← Nat.div_div_eq_div_mul, quotient, ih _ (by omega)]
          congr 1
          omega

/-- A number that is read and stored at another place is moved. -/
theorem write_read (memory : Memory) (destination source count : Nat) :
    write memory destination count (memory.read source count) = move memory destination source count := by
  apply Memory.ext
  funext other
  simp only [write, move]
  split
  · exact read_digit memory source (by omega)
  · rfl

/-- Storing a loaded byte is a move of one byte. -/
theorem store_eq_move (memory : Memory) (destination source : Nat) :
    store memory destination (memory.byte source) = move memory destination source 1 := by
  apply Memory.ext
  funext other
  simp only [store, move]
  by_cases here : other = destination
  · have range : destination ≤ other ∧ other < destination + 1 := by omega
    rw [if_pos here, if_pos range, here, Nat.sub_self, Nat.add_zero]
  · have missed : ¬ (destination ≤ other ∧ other < destination + 1) := by omega
    rw [if_neg here, if_neg missed]

/-- A range that lies apart from its source can be moved in two parts. -/
theorem move_append (memory : Memory) {destination source first second : Nat}
    (apart : destination + (first + second) ≤ source ∨ source + (first + second) ≤ destination) :
    move (move memory destination source first) (destination + first) (source + first) second =
      move memory destination source (first + second) := by
  apply Memory.ext
  funext other
  by_cases behind : destination + first ≤ other ∧ other < destination + first + second
  · obtain ⟨offset, rfl⟩ := Nat.exists_eq_add_of_le behind.1
    have inside : first + offset < first + second := by omega
    rw [move_inside (by omega), move_outside (by omega), Nat.add_assoc destination, move_inside inside,
      Nat.add_assoc]
  · rw [move_outside (by omega)]
    by_cases inside : destination ≤ other ∧ other < destination + first
    · obtain ⟨offset, rfl⟩ := Nat.exists_eq_add_of_le inside.1
      rw [move_inside (by omega), move_inside (by omega)]
    · rw [move_outside (by omega), move_outside (by omega)]

/-- The lowest byte is moved first, towards lower addresses. -/
theorem move_lowest (memory : Memory) {destination source : Nat} (below : destination < source)
    (count : Nat) :
    move (memory.store destination (memory.byte source)) (destination + 1) (source + 1) count =
      move memory destination source (count + 1) := by
  apply Memory.ext
  funext other
  simp only [move, store]
  by_cases first : other = destination
  · have range : destination ≤ other ∧ other < destination + (count + 1) := by omega
    have missed : ¬ (destination + 1 ≤ other ∧ other < destination + 1 + count) := by omega
    have position : source + (other - destination) = source := by omega
    rw [if_neg missed, if_pos first, if_pos range, position]
  · by_cases inside : destination + 1 ≤ other ∧ other < destination + 1 + count
    · have range : destination ≤ other ∧ other < destination + (count + 1) := by omega
      have position : source + 1 + (other - (destination + 1)) = source + (other - destination) := by
        omega
      have apart : ¬ source + (other - destination) = destination := by omega
      simp only [inside, range, and_self, if_true, position, apart, if_false]
    · have range : ¬ (destination ≤ other ∧ other < destination + (count + 1)) := by omega
      simp only [inside, range, first, if_false]

/-- The highest byte is moved first, towards higher addresses. -/
theorem move_highest (memory : Memory) {destination source : Nat} (below : source ≤ destination)
    (count : Nat) :
    move (memory.store (destination + count) (memory.byte (source + count))) destination source
        count = move memory destination source (count + 1) := by
  apply Memory.ext
  funext other
  simp only [move, store]
  by_cases last : other = destination + count
  · have range : destination ≤ other ∧ other < destination + (count + 1) := by omega
    have missed : ¬ (destination ≤ other ∧ other < destination + count) := by omega
    have position : source + (other - destination) = source + count := by omega
    rw [if_neg missed, if_pos last, if_pos range, position]
  · by_cases inside : destination ≤ other ∧ other < destination + count
    · have range : destination ≤ other ∧ other < destination + (count + 1) := by omega
      have apart : ¬ source + (other - destination) = destination + count := by omega
      simp only [inside, range, and_self, if_true, apart, if_false]
    · have range : ¬ (destination ≤ other ∧ other < destination + (count + 1)) := by omega
      simp only [inside, range, last, if_false]

/-- A fill with words changes only the bytes that it covers. -/
theorem fillWords_outside {memory : Memory} {address size count value other : Nat}
    (outside : other < address ∨ address + size * count ≤ other) :
    (fillWords memory address size count value).byte other = memory.byte other := by
  have missed : ¬ (address ≤ other ∧ other < address + size * count) := by omega
  simp only [fillWords, missed, if_false]

@[simp] theorem fillWords_zero (memory : Memory) (address size value : Nat) :
    fillWords memory address size 0 value = memory := by
  apply Memory.ext
  funext other
  rw [fillWords_outside (by omega)]

/-- Two ranges of words that stand one behind the other are filled as one. -/
theorem fillWords_append (memory : Memory) (address size first second value : Nat) :
    fillWords (fillWords memory address size first value) (address + size * first) size second value =
      fillWords memory address size (first + second) value := by
  apply Memory.ext
  funext other
  have total : size * (first + second) = size * first + size * second := Nat.mul_add _ _ _
  simp only [fillWords, total]
  by_cases behind : address + size * first ≤ other
  · have offset : other - address = other - (address + size * first) + size * first := by omega
    have same : (other - address) % size = (other - (address + size * first)) % size := by
      rw [offset, Nat.add_mul_mod_self_left]
    have above : address ≤ other := by omega
    have missed : ¬ other < address + size * first := by omega
    simp only [behind, above, missed, same, true_and, and_false, if_false, Nat.add_assoc]
  · simp only [behind, false_and, if_false]
    by_cases above : address ≤ other
    · have inside : other < address + size * first ∧
          other < address + (size * first + size * second) := by omega
      simp only [above, inside, and_self, if_true]
    · simp only [above, false_and, if_false]

/-- Storing one number fills one word. -/
theorem write_eq_fillWords (memory : Memory) (address size value : Nat) :
    write memory address size value = fillWords memory address size 1 value := by
  apply Memory.ext
  funext other
  simp only [write, fillWords, Nat.mul_one]
  by_cases inside : address ≤ other ∧ other < address + size
  · have offset : (other - address) % size = other - address := Nat.mod_eq_of_lt (by omega)
    simp only [inside, and_self, if_true, offset]
  · simp only [inside, if_false]

/-- Each word of a filled range holds the value. -/
theorem read_fillWords (memory : Memory) {address size count value index : Nat}
    (inside : index < count) :
    read (fillWords memory address size count value) (address + size * index) size =
      value % 256 ^ size := by
  rw [← read_write_same memory (address + size * index) size value]
  apply read_congr
  intro other lower upper
  have end_ : size * (index + 1) ≤ size * count := Nat.mul_le_mul_left size inside
  rw [Nat.mul_add, Nat.mul_one] at end_
  have range : address ≤ other ∧ other < address + size * count := by omega
  have here : address + size * index ≤ other ∧ other < address + size * index + size := by omega
  have offset : other - address = other - (address + size * index) + size * index := by omega
  have position : (other - address) % size = other - (address + size * index) := by
    rw [offset, Nat.add_mul_mod_self_left, Nat.mod_eq_of_lt (by omega)]
  simp only [fillWords, write, range, here, and_self, if_true, position]

/-- A moved number is read at its new place. -/
theorem read_move (memory : Memory) {destination source count offset size : Nat}
    (inside : offset + size ≤ count) :
    read (move memory destination source count) (destination + offset) size =
      read memory (source + offset) size := by
  induction size generalizing offset with
  | zero => rfl
  | succ size ih =>
      have here : offset < count := by omega
      rw [read, read, move_inside here, Nat.add_assoc, Nat.add_assoc, ih (by omega)]

/-- A number apart from the destination of a move is read as before. -/
theorem read_move_apart {memory : Memory} {destination source count other size : Nat}
    (apart : other + size ≤ destination ∨ destination + count ≤ other) :
    read (move memory destination source count) other size = read memory other size := by
  apply read_congr
  intro byte lower upper
  exact move_outside (by omega)

/-- A number apart from a range filled with words is read as before. -/
theorem read_fillWords_apart {memory : Memory} {address size count value other width : Nat}
    (apart : other + width ≤ address ∨ address + size * count ≤ other) :
    read (fillWords memory address size count value) other width = read memory other width := by
  apply read_congr
  intro byte lower upper
  exact fillWords_outside (by omega)

end Memory

end ArchaOS.Library
