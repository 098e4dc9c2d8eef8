import ArchaOS.Construction.PathScanner

/-
This file models `find_child` of kernel/fs/fs.c on raw pointers, with `strcmp` of kernel/lib/string.c
and the name that `create_file` copies for it.
-/

namespace ArchaOS.FileSystem

/-- A `char` where it is compared; the type is signed. -/
def char (byte : UInt8) : Int := byte.toInt8.toInt

/-- The loop of `strcmp` from a position on -/
def strcmpFrom (a b : Text) : Nat → Nat → Outcome Int
  | 0, _ => .error .endless
  | bound + 1, index =>
      if char (a index) ≠ 0 ∧ char (a index) = char (b index) then strcmpFrom a b bound (index + 1)
      else .ok ((a index).toNat - (b index).toNat)

def strcmp (a b : Text) (bound : Nat) : Outcome Int := strcmpFrom a b bound 0

/-- The loop of `find_child` -/
def compareChildren (nodes : Nodes) (name : Text) : Nat → Nat → Outcome Nat
  | 0, _ => .error .endless
  | bound + 1, f =>
      if f = 0 then .ok 0
      else do
        let file ← load nodes f
        let order ← strcmp (text file.name) name (file.name.length + 1)
        if order = 0 then .ok f else compareChildren nodes name bound file.next

/-- `find_child` on a pointer -/
def findChildAt (nodes : Nodes) (dir : Nat) (name : Text) : Outcome Nat := do
  let file ← load nodes dir
  compareChildren nodes name (walkBound nodes) file.children

/-- The search of `parse_path` in the current directory, for the component at `start` -/
def findComponent (nodes : Nodes) (current : Nat) (start : Text) (length : Nat) : Outcome Nat := do
  let file ← load nodes current
  matchChildren nodes start length (walkBound nodes) file.children

/-- `memcpy(name, slash, name_len); name[name_len] = '\0';` onto what the block held before -/
def copiedName (block slash : Text) (nameLen : Nat) : Text := fun index =>
  if index < nameLen then slash index else if index = nameLen then 0 else block index

end ArchaOS.FileSystem
