import ArchaOS.Proof.FileSystem.Parser

namespace ArchaOS.FileSystem

open Library

/-- A hexadecimal digit in upper or lower case. -/
def encodeDigit (upper : Bool) (digit : Nat) : UInt8 :=
  UInt8.ofNat (if digit < 10 then 48 + digit else if upper then 55 + digit else 87 + digit)

/-- The low `count` hexadecimal digits of a number, highest first. -/
def encodeDigits (upper : Nat → Bool) (value : Nat) : Nat → List UInt8
  | 0 => []
  | count + 1 => encodeDigit (upper count) (value / 16 ^ count % 16) :: encodeDigits upper value count

/-- The header fields from an index on, eight digits each. -/
def encodeFields (fields : Nat → Nat) (upper : Nat → Nat → Bool) (index : Nat) : Nat → List UInt8
  | 0 => []
  | count + 1 => encodeDigits (upper index) (fields index) 8 ++ encodeFields fields upper (index + 1) count

def zeros (count : Nat) : List UInt8 := List.replicate count 0

/-- A newc record: the magic, thirteen fields, the terminated name and the data, both padded. -/
def encodeRecord (fields : Nat → Nat) (upper : Nat → Nat → Bool) (name : CString) (data : List UInt8) :
    List UInt8 :=
  magic ++ encodeFields fields upper 0 13 ++
    (name ++ [0] ++ zeros (padding (110 + (name.length + 1)))) ++ (data ++ zeros (padding data.length))

/-- An encoded digit is decoded in either case. -/
theorem hexDigit_encodeDigit (upper : Bool) {digit : Nat} (small : digit < 16) :
    hexDigit (encodeDigit upper digit) = some digit := by
  have all : ∀ upper : Bool, ∀ digit < 16, hexDigit (encodeDigit upper digit) = some digit := by
    decide
  exact all upper digit small

@[simp] theorem encodeDigits_length (upper : Nat → Bool) (value count : Nat) :
    (encodeDigits upper value count).length = count := by
  induction count with
  | zero => rfl
  | succ count ih => rw [encodeDigits, List.length_cons, ih]

@[simp] theorem encodeFields_length (fields : Nat → Nat) (upper : Nat → Nat → Bool) (index count : Nat) :
    (encodeFields fields upper index count).length = 8 * count := by
  induction count generalizing index with
  | zero => rfl
  | succ count ih =>
      rw [encodeFields, List.length_append, ih, encodeDigits_length]
      omega

section Reading

variable {disk : Archive} {position : Nat}

/-- The archive continues with these bytes. -/
def Continues (disk : Archive) (position : Nat) (bytes : List UInt8) : Prop :=
  bytes <+: disk.bytes.drop position

/-- The archive continues with the first of two parts. -/
theorem Continues.left {first second : List UInt8} (here : Continues disk position (first ++ second)) :
    Continues disk position first := (List.prefix_append first second).trans here

/-- Behind the first of two parts the archive continues with the second. -/
theorem Continues.right (first : List UInt8) {second : List UInt8} (here : Continues disk position (first ++ second)) :
    Continues disk (position + first.length) second := by
  obtain ⟨rest, same⟩ := here
  refine ⟨rest, ?_⟩
  rw [← List.drop_drop, ← same, List.append_assoc, List.drop_append]
  simp

/-- What the archive continues with lies inside. -/
theorem Continues.inside {bytes : List UInt8} (here : Continues disk position bytes)
    (start : position ≤ disk.size) : position + bytes.length ≤ disk.size := by
  have bound := here.length_le
  rw [List.length_drop] at bound
  unfold Archive.size at *
  omega

/-- A slice of the archive is what it continues with. -/
theorem Continues.slice {bytes : List UInt8} (here : Continues disk position bytes) :
    disk.slice position bytes.length = bytes := by
  obtain ⟨rest, same⟩ := here
  rw [Archive.slice, ← same, List.take_append_of_le_length (Nat.le_refl _), List.take_length]

/-- The next byte is read. -/
theorem Continues.readDisk {byte : UInt8} {rest : List UInt8}
    (here : Continues disk position (byte :: rest)) : readDisk disk position = .ok byte := by
  obtain ⟨tail, same⟩ := here
  have look : disk.bytes[position]? = some byte := by
    rw [← List.head?_drop, ← same]
    rfl
  rw [FileSystem.readDisk, look]

/-- `hex8` reads back what the encoder wrote. -/
theorem hexLoop_encode (accumulated : Nat) {upper : Nat → Bool} {value count : Nat}
    (here : Continues disk position (encodeDigits upper value count))
    (room : accumulated * 16 ^ count + 16 ^ count ≤ 2 ^ 32) :
    hexLoop disk count position accumulated =
      .ok (some (accumulated * 16 ^ count + value % 16 ^ count)) := by
  induction count generalizing position accumulated with
  | zero => simp [hexLoop, Nat.mod_one]
  | succ count ih =>
      rw [encodeDigits] at here
      have digit := Nat.mod_lt (value / 16 ^ count) (show 0 < 16 by decide)
      have positive : 0 < 16 ^ count := Nat.pow_pos (by decide)
      have power : 16 ^ (count + 1) = 16 * 16 ^ count := by rw [Nat.pow_succ, Nat.mul_comm]
      have scaled : (accumulated * 16 + 16) * 16 ^ count ≤ 2 ^ 32 := by
        rw [Nat.add_mul, Nat.mul_assoc, ← power]
        exact room
      have small : accumulated * 16 + 16 ≤ 2 ^ 32 :=
        (Nat.le_mul_of_pos_right _ positive).trans scaled
      have shifted : (accumulated <<< 4) % 2 ^ 32 ||| value / 16 ^ count % 16 =
          accumulated * 16 + value / 16 ^ count % 16 := by
        have low : (accumulated <<< 4) % 2 ^ 32 = accumulated <<< 4 := by
          rw [Nat.shiftLeft_eq]
          omega
        rw [low, ← Nat.shiftLeft_add_eq_or_of_lt (by omega), Nat.shiftLeft_eq]
      have later : Continues disk (position + 1) (encodeDigits upper value count) :=
        Continues.right [_] here
      have rest := ih (accumulated * 16 + value / 16 ^ count % 16) later (by
        calc (accumulated * 16 + value / 16 ^ count % 16) * 16 ^ count + 16 ^ count
            = (accumulated * 16 + value / 16 ^ count % 16 + 1) * 16 ^ count := by ring
          _ ≤ (accumulated * 16 + 16) * 16 ^ count := Nat.mul_le_mul_right _ (by omega)
          _ ≤ 2 ^ 32 := scaled)
      have split : value % 16 ^ (count + 1) =
          value / 16 ^ count % 16 * 16 ^ count + value % 16 ^ count := by
        rw [Nat.pow_succ, Nat.mod_mul]
        ring
      rw [hexLoop, here.readDisk]
      simp only [bind, Except.bind, hexDigit_encodeDigit _ digit, shifted, rest]
      rw [split, power]
      congr 2
      ring

/-- Encoded fields are read back. -/
theorem readFields_encode {fields : Nat → Nat} {upper : Nat → Nat → Bool} {index count : Nat}
    (here : Continues disk position (encodeFields fields upper index count)) :
    readFields disk count position =
      .ok (some ((List.range' index count).map fun index => fields index % 2 ^ 32)) := by
  induction count generalizing position index with
  | zero => rfl
  | succ count ih =>
      rw [encodeFields] at here
      have digits := hexLoop_encode 0 here.left (by decide)
      have later := here.right
      rw [encodeDigits_length] at later
      have rest := ih later
      rw [Nat.zero_mul, Nat.zero_add] at digits
      simp only [readFields, hex8, digits, rest, bind, Except.bind]
      rfl

/-- The header of an encoded record. -/
theorem parseHeader_encode {fields : Nat → Nat} {upper : Nat → Nat → Bool}
    (here : Continues disk position (magic ++ encodeFields fields upper 0 13))
    (start : position ≤ disk.size) :
    parseHeader disk position =
      .ok (.ok ⟨fields 1 % 2 ^ 32, fields 6 % 2 ^ 32, fields 11 % 2 ^ 32⟩) := by
  have inside := here.inside start
  have length : (magic ++ encodeFields fields upper 0 13).length = 110 := by simp [magic]
  rw [length] at inside
  have left : sub64 disk.size position = disk.size - position := sub64_eq start disk.fits
  have enough : ¬ (position > disk.size ∨ sub64 disk.size position < 110) := by omega
  have head : disk.slice position 6 = magic := here.left.slice
  have rest := readFields_encode here.right
  have sixth : magic.length = 6 := rfl
  rw [sixth] at rest
  rw [parseHeader, if_neg enough]
  simp only [bind, Except.bind, readRange_ok (show position + 6 ≤ disk.size by omega), head, ne_eq,
    not_true_eq_false, if_false, rest]
  rfl

/-- The name of an encoded record. -/
theorem parseName_encode {name : CString} (stack : Nat → UInt8) (plain : 0 ∉ name)
    (short : name.length ≤ maxPath)
    (here : Continues disk position (name ++ [0] ++ zeros (padding (position + (name.length + 1)))))
    (start : position ≤ disk.size) :
    ∃ buffer, parseName disk stack position (name.length + 1) =
        .ok (.ok (buffer, position + (name.length + 1) + padding (position + (name.length + 1)))) ∧
      Terminated buffer name := by
  have inside := here.inside start
  have length : (name ++ [0]).length = name.length + 1 := by simp
  have zerosLength : (zeros (padding (position + (name.length + 1)))).length =
      padding (position + (name.length + 1)) := List.length_replicate
  rw [List.length_append, length, zerosLength] at inside
  have left : sub64 disk.size position = disk.size - position := sub64_eq start disk.fits
  have fits := disk.fits
  have small : ¬ (name.length + 1 = 0 ∨ name.length + 1 > maxPath + 1) := by omega
  have enough : ¬ (position > disk.size ∨ sub64 disk.size position < name.length + 1) := by omega
  have slice : disk.slice position (name.length + 1) = name ++ [0] := by
    rw [← length]
    exact here.left.slice
  have total : add64 position (name.length + 1) = position + (name.length + 1) :=
    disk.add64_inside (by omega)
  obtain ⟨tail, copy, size⟩ := copyName_ok stack (show (name ++ [0]).length ≤ maxPath + 1 by rw [length]; omega)
  have held : Terminated (name ++ [0] ++ tail) name :=
    ⟨⟨tail, by simp⟩, plain, size⟩
  have last : readName (name ++ [0] ++ tail) name.length = .ok 0 := held.read_end
  have text := held.cString 0 (Nat.zero_le _)
  rw [List.drop_zero] at text
  have room : ¬ disk.size < position + (name.length + 1) + padding (position + (name.length + 1)) := by
    omega
  refine ⟨name ++ [0] ++ tail, ?_, held⟩
  rw [parseName, if_neg small, if_neg enough]
  simp only [bind, Except.bind, readRange_ok (show position + (name.length + 1) ≤ disk.size by omega),
    slice, copy, Nat.add_sub_cancel, last, ne_eq, not_true_eq_false, if_false, text, total]
  rw [skipPadding_ok (by omega), if_neg room]
  rfl

end Reading

end ArchaOS.FileSystem
