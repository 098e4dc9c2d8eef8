import ArchaOS.Library.Reversal

/-
This file models the decimal output of bootloader/uefi.c.
-/

namespace ArchaOS.LoaderText

open Library

/-- The first loop of `decimalConvert`, with what it has stored in `buf`. -/
def decimalLoop (bufSize n : Nat) (buf : List UInt16) : List UInt16 :=
  if buf.length ≥ bufSize - 1 then buf
  else if n / 10 = 0 then buf ++ [UInt16.ofNat (48 + n % 10)]
  else decimalLoop bufSize (n / 10) (buf ++ [UInt16.ofNat (48 + n % 10)])
termination_by n
decreasing_by omega

/-- The second loop of `decimalConvert` -/
def reverseLoop (buf : List UInt16) : List UInt16 :=
  (List.range (buf.length / 2)).foldl (fun buf i => swap buf i (buf.length - 1 - i)) buf

/-- `decimalConvert` leaves these characters at the start of the buffer. -/
def decimalConvert (n : BitVec 64) (bufSize : Nat) : List UInt16 :=
  if bufSize = 0 then []
  else reverseLoop (decimalLoop bufSize n.toNat []) ++ [0]

end ArchaOS.LoaderText
