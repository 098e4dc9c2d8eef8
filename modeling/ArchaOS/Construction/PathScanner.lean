import ArchaOS.Construction.FileSystem

/-
This file models `parse_path` of kernel/fs/fs.c on raw pointers, with the string functions of
kernel/lib/string.c that it calls.
-/

namespace ArchaOS.FileSystem

/-- The bytes from a pointer on. -/
abbrev Text := Nat → UInt8

/-- The string at a pointer, with its terminator. -/
def text (string : CString) : Text := fun index => string.getD index 0

/-- `while (*path == '/') ++path;` -/
def passSlashes (path : Text) : Nat → Nat → Outcome Nat
  | 0, _ => .error .endless
  | bound + 1, index => if path index = slash then passSlashes path bound (index + 1) else .ok index

/-- `while (*path != '\0' && *path != '/') ++path;` -/
def passComponent (path : Text) : Nat → Nat → Outcome Nat
  | 0, _ => .error .endless
  | bound + 1, index =>
      if path index ≠ 0 ∧ path index ≠ slash then passComponent path bound (index + 1) else .ok index

/-- The loop of `strlen` -/
def strlenFrom (str : Text) : Nat → Nat → Outcome Nat
  | 0, _ => .error .endless
  | bound + 1, len => if str len ≠ 0 then strlenFrom str bound (len + 1) else .ok len

def strlen (str : Text) (bound : Nat) : Outcome Nat := strlenFrom str bound 0

/-- The loop of `memcmp` from a position on, with the number of bytes that are left -/
def memcmpFrom (a b : Text) : Nat → Nat → Int
  | _, 0 => 0
  | index, n + 1 =>
      if a index ≠ b index then (a index).toNat - (b index).toNat else memcmpFrom a b (index + 1) n

def memcmp (a b : Text) (n : Nat) : Int := memcmpFrom a b 0 n

/-- The loop of `parse_path` over the children of a directory -/
def matchChildren (nodes : Nodes) (start : Text) (length : Nat) : Nat → Nat → Outcome Nat
  | 0, _ => .error .endless
  | bound + 1, child =>
      if child = 0 then .ok 0
      else do
        let file ← load nodes child
        let nameLength ← strlen (text file.name) (file.name.length + 1)
        if nameLength = length ∧ memcmp (text file.name) start length = 0 then .ok child
        else matchChildren nodes start length bound file.next

/-- The main loop of `parse_path` from an index of the path on; `limit` bounds its inner loops. -/
def scanPath (nodes : Nodes) (path : Text) (limit : Nat) :
    Nat → Nat → Nat → Outcome (Except FsReturn Nat)
  | 0, _, _ => .error .endless
  | bound + 1, current, index =>
      if path index = 0 then .ok (.ok current)
      else do
        let stop ← passComponent path limit index
        let length := stop - index
        let next ← passSlashes path limit stop
        if length = 1 ∧ path index = dot then
          scanPath nodes path limit bound current next
        else if length = 2 ∧ path index = dot ∧ path (index + 1) = dot then
          let file ← load nodes current
          scanPath nodes path limit bound file.parent next
        else
          let file ← load nodes current
          if ¬ file.isDirectory then
            return .error .notADir
          let child ← matchChildren nodes (fun offset => path (index + offset)) length (walkBound nodes)
            file.children
          if child = 0 then
            return .error .notFound
          scanPath nodes path limit bound child next

/-- `parse_path` on pointers; no path and no result stand for null pointers, and the answer is the
status with what `result` points at afterwards. -/
def parsePathAt (nodes : Nodes) (limit : Nat) :
    Option Text → Option Nat → Outcome (FsReturn × Option Nat)
  | some path, some result => do
      let start ← passSlashes path limit 0
      match ← scanPath nodes path limit limit root start with
      | .error status => return (status, some result)
      | .ok current => return (.success, some current)
  | _, result => .ok (.invalidPath, result)

end ArchaOS.FileSystem
