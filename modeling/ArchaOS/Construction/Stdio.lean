import ArchaOS.Construction.Terminal
import ArchaOS.Library.Reversal

/-
This file models the number and string output of kernel/lib/stdio.c: the functions behind `print`, the
string builder `format` and the serial decimal output.
-/

namespace ArchaOS.Stdio

open Library

/-- An access outside of an object, or a `va_arg` without an argument of its type. -/
inductive Fault where
  | outside
  | argument
  deriving DecidableEq, Repr

abbrev Outcome := Except Fault

/-- The bytes of a string in front of its terminator. -/
structure Text where
  bytes : List UInt8
  plain : 0 ∉ bytes

/-- What the pointer to a string reads, up to the end of the object. -/
def Text.terminated (text : Text) : List UInt8 := text.bytes ++ [0]

/-- `'%'` -/
def percent : UInt8 := 37

/-- `'-'` -/
def minus : UInt8 := 45

/-- `'0' + digit` -/
def digitChar (digit : Nat) : UInt8 := UInt8.ofNat (48 + digit)

def hexChars : List UInt8 := [48, 49, 50, 51, 52, 53, 54, 55, 56, 57, 65, 66, 67, 68, 69, 70]

/-- The loops that store the decimal digits of a value in a local array, the lowest digit first. -/
def storeDigits (size value : Nat) (buf : List UInt8) : Outcome (List UInt8) :=
  if value = 0 then .ok buf
  else if buf.length ≥ size then .error .outside
  else storeDigits size (value / 10) (buf ++ [digitChar (value % 10)])
termination_by value

section Serial

/-- The loop of `serial_print_dec` that exchanges the ends of `str`. -/
def exchangeEnds (j k : Nat) (str : List UInt8) : List UInt8 :=
  if j < k then exchangeEnds (j + 1) (k - 1) (swap str j k) else str
termination_by k - j

def serialPrint : List UInt8 → Outcome (List UInt8)
  | [] => .error .outside
  | c :: str => if c = 0 then .ok [] else (c :: ·) <$> serialPrint str

/-- `serial_print_dec`; `int sign = N` keeps the low 32 bits. -/
def serialPrintDec (N : BitVec 64) : Outcome (List UInt8) := do
  let sign : BitVec 32 := N.setWidth 32
  let N := if N < 0 then -N else N
  let str ← storeDigits 22 N.toNat []
  let str ← if sign.toInt < 0 then
      if str.length ≥ 22 then .error .outside else .ok (str ++ [minus])
    else .ok str
  if str.length ≥ 22 then .error .outside
  else serialPrint (exchangeEnds 0 (str.length - 1) str ++ [0])

end Serial

section Print

def printUint (value : Nat) : List UInt8 :=
  if value ≥ 10 then printUint (value / 10) ++ [digitChar (value % 10)]
  else [digitChar (value % 10)]
termination_by value

def printInt (value : BitVec 32) : List UInt8 :=
  if value.toInt < 0 then minus :: printUint (0 - value).toNat
  else printUint value.toNat

/-- The loops that print `count` hexadecimal digits. -/
def hexDigits (count value : Nat) : List UInt8 :=
  (List.range count).reverse.map fun i => hexChars.getD ((value >>> (i * 4)) &&& 0xF) 0

def printHex (value : BitVec 32) : List UInt8 := [48, 120] ++ hexDigits 8 value.toNat

def printChar : List UInt8 → Outcome (List UInt8)
  | [] => .error .outside
  | c :: toPrint => if c = 0 then .ok [] else (c :: ·) <$> printChar toPrint

def printU64 (value : BitVec 64) : Outcome (List UInt8) :=
  if value = 0 then .ok [48]
  else List.reverse <$> storeDigits 20 value.toNat []

def printU64Hex (value : BitVec 64) : List UInt8 := [48, 120] ++ hexDigits 16 value.toNat

/-- The types that the conversions fetch with `va_arg`; `int` and `unsigned int` are one. -/
inductive Kind where
  | word
  | long
  | string
  deriving DecidableEq, Repr

/-- An argument behind the format. -/
inductive Arg where
  | word (value : BitVec 32)
  | long (value : BitVec 64)
  | string (value : Text)

def Arg.kind : Arg → Kind
  | .word _ => .word
  | .long _ => .long
  | .string _ => .string

/-- `va_arg(args, int)` and `va_arg(args, unsigned int)` -/
def takeWord : List Arg → Outcome (BitVec 32 × List Arg)
  | .word value :: args => .ok (value, args)
  | _ => .error .argument

/-- `va_arg(args, uint64_t)` -/
def takeLong : List Arg → Outcome (BitVec 64 × List Arg)
  | .long value :: args => .ok (value, args)
  | _ => .error .argument

/-- `va_arg(args, const char *)` -/
def takeString : List Arg → Outcome (Text × List Arg)
  | .string value :: args => .ok (value, args)
  | _ => .error .argument

/-- The characters that `print` and `format` tell apart behind a `%`. -/
inductive Letter where
  | d
  | u
  | n
  | s
  | x
  | l
  | percent
  | other
  deriving DecidableEq, Repr

def letter (c : UInt8) : Letter :=
  if c = 100 then .d
  else if c = 117 then .u
  else if c = 110 then .n
  else if c = 115 then .s
  else if c = 120 then .x
  else if c = 108 then .l
  else if c = percent then .percent
  else .other

/-- The loop of `print` -/
def printLoop : List UInt8 → List Arg → Outcome (List UInt8)
  | [], _ => .error .outside
  | c :: format, args =>
      if c = 0 then .ok []
      else if c ≠ percent then (c :: ·) <$> printLoop format args
      else
        match format with
        | [] => .error .outside
        | c :: format =>
            if c = 0 then .ok []
            else
              match letter c with
              | .d => do
                  let (value, args) ← takeWord args
                  (printInt value ++ ·) <$> printLoop format args
              | .u => do
                  let (value, args) ← takeWord args
                  (printUint value.toNat ++ ·) <$> printLoop format args
              | .n => do
                  let (value, args) ← takeLong args
                  let digits ← printU64 value
                  (digits ++ ·) <$> printLoop format args
              | .s => do
                  let (value, args) ← takeString args
                  let chars ← printChar value.terminated
                  (chars ++ ·) <$> printLoop format args
              | .x => do
                  let (value, args) ← takeWord args
                  (printHex value ++ ·) <$> printLoop format args
              | .l =>
                  match format with
                  | [] => .error .outside
                  | c :: format =>
                      if letter c = .x then do
                        let (value, args) ← takeLong args
                        -- The last step of the loop passes one more character than the conversion has.
                        match format with
                        | [] => .error .outside
                        | _ :: format => (printU64Hex value ++ ·) <$> printLoop format args
                      else ([percent, 108] ++ ·) <$> printLoop format args
              | .percent => printLoop format args
              | .other =>
                  match format with
                  | [] => .error .outside
                  | _ :: format => ([percent, c] ++ ·) <$> printLoop format args

/-- `print` sends these characters to `Putchar`. -/
def print (framebuffer : Option Terminal.Framebuffer) (format : List UInt8) (args : List Arg) :
    Outcome (List UInt8) :=
  match framebuffer with
  | none => .ok []
  | some _ => printLoop format args

end Print

section Format

/-- `buffer` with the position of `*out` and with `*remaining` -/
structure Appender where
  buffer : List UInt8
  out : Nat
  remaining : Nat
  deriving DecidableEq, Repr

/-- A write through `*out` -/
def Appender.store (appender : Appender) (c : UInt8) : Outcome (List UInt8) :=
  if appender.out < appender.buffer.length then .ok (appender.buffer.set appender.out c)
  else .error .outside

def appendChar (c : UInt8) (appender : Appender) : Outcome Appender :=
  if appender.remaining ≤ 1 then .ok appender
  else do
    let buffer ← appender.store c
    return ⟨buffer, appender.out + 1, appender.remaining - 1⟩

def appendString : List UInt8 → Appender → Outcome Appender
  | [], _ => .error .outside
  | c :: str, appender =>
      if c = 0 then .ok appender
      else do
        let appender ← appendChar c appender
        appendString str appender

/-- The part of `append_int` behind the sign. -/
def appendMagnitude (n : BitVec 32) (appender : Appender) : Outcome Appender :=
  if n = 0 then appendChar 48 appender
  else do
    let tmp ← storeDigits 12 n.toNat []
    tmp.reverse.foldlM (fun appender c => appendChar c appender) appender

def appendInt (value : BitVec 32) (appender : Appender) : Outcome Appender :=
  if value.toInt < 0 then do
    let appender ← appendChar minus appender
    appendMagnitude (0 - value) appender
  else appendMagnitude value appender

/-- The loop of `format` -/
def formatLoop : List UInt8 → List Arg → Appender → Outcome Appender
  | [], _, _ => .error .outside
  | c :: fmt, args, appender =>
      if c = 0 then .ok appender
      else if c ≠ percent then do
        let appender ← appendChar c appender
        formatLoop fmt args appender
      else
        match fmt with
        | [] => .error .outside
        | c :: fmt =>
            match letter c with
            | .d => do
                let (value, args) ← takeWord args
                let appender ← appendInt value appender
                formatLoop fmt args appender
            | .s => do
                let (value, args) ← takeString args
                let appender ← appendString value.terminated appender
                formatLoop fmt args appender
            | .percent => do
                let appender ← appendChar percent appender
                formatLoop fmt args appender
            | _ => do
                let appender ← appendChar percent appender
                let appender ← appendChar c appender
                formatLoop fmt args appender

def format (buffer : List UInt8) (size : Nat) (fmt : List UInt8) (args : List Arg) :
    Outcome (List UInt8) :=
  if size = 0 then .ok buffer
  else do
    let appender ← formatLoop fmt args ⟨buffer, 0, size⟩
    appender.store 0

end Format

end ArchaOS.Stdio
