import ArchaOS.Library.ByteMemory
import ArchaOS.Library.Word64

/-
This file models the global registry of kernel/grs/grs.c.
-/

namespace ArchaOS.GlobalRegistry

open Library

def maxRegisters : Nat := 500

/-- `enum GRS_RETURN` -/
inductive GrsReturn where
  | success
  | failed
  | regFilled
  | notExists
  | invalid
  deriving DecidableEq, Repr

/-- `register_t`; its name and its value are pointers. -/
structure Register where
  name : Nat
  id : Nat
  value : Nat
  deriving DecidableEq, Repr

/-- `sizeof(register_t)` -/
def sizeofRegister : Nat := 24

/-- The constant strings of the kernel by their addresses, and the one that marks a failed search. -/
structure Strings where
  text : Nat → String
  notExists : Nat
  marked : text notExists = "GRS_NOT_EXISTS"

/-- The variables of the registry and the memory that its records lie in. -/
structure Registry where
  memory : Memory
  memBase : Nat
  memSize : Nat
  memPtr : Nat

/-- `registry_mem_base[id] = register` -/
def Registry.store (registry : Registry) (id : Nat) (register : Register) : Registry :=
  let address := registry.memBase + id * sizeofRegister
  { registry with
    memory := ((registry.memory.write address 8 register.name).write (address + 8) 8 register.id).write
      (address + 16) 8 register.value }

def memmove (memory : Memory) (dest src n : Nat) : Memory where
  byte address := if dest ≤ address ∧ address < dest + n then memory.byte (src + (address - dest))
    else memory.byte address

/-- `remove_at`; the elements of a buffer of type `void` are bytes. -/
def removeAt (memory : Memory) (buffer count index : Nat) : Nat × Memory :=
  let held := memory.read count 8
  if index ≥ held then (0, memory)
  else
    let memory := memmove memory (buffer + index) (buffer + index + 1) (held - index - 1)
    (1, memory.write count 8 (sub64 (memory.read count 8) 1))

/-- The loop of `ret_register_handler`, which goes on while the index is above the limit; `a` is the
local record, which the function never fills. -/
def retRegisterHandlerFrom (strings : Strings) (name : Nat) (a : Register) : Nat → Nat → Register
  | 0, _ => { a with name := strings.notExists }
  | turns + 1, i =>
      if i > maxRegisters then
        if a.name = name then a else retRegisterHandlerFrom strings name a turns (i + 1)
      else { a with name := strings.notExists }

def retRegisterHandler (strings : Strings) (a : Register) (name : Nat) : Register :=
  retRegisterHandlerFrom strings name a (2 ^ 31) 0

def wrtRegisterHandler (handler : Register) (registry : Registry) : Registry :=
  registry.store handler.id handler

/-- `init_registry`; `memBase` is the block that `kcalloc` returned. -/
def initRegistry (memory : Memory) (memBase : Nat) : Registry where
  memory := memory.fill memBase (maxRegisters * sizeofRegister) 0
  memBase := memBase
  memSize := maxRegisters * sizeofRegister
  memPtr := 0

def createRegister (strings : Strings) (name value : Nat) (registry : Registry) :
    GrsReturn × Registry :=
  if strings.text name = "GRS_NOT_EXISTS" then (.invalid, registry)
  else if name = 0 ∨ value = 0 then (.invalid, registry)
  else
    let registry := { registry with memPtr := add64 registry.memPtr 1 }
    if registry.memPtr ≥ maxRegisters then (.regFilled, registry)
    else (.success, registry.store registry.memPtr ⟨name, registry.memPtr, value⟩)

/-- `read_register`; the value is assigned to the parameter and stays there. -/
def readRegister (strings : Strings) (a : Register) (name readBuf : Nat) (registry : Registry) :
    GrsReturn × Registry :=
  if name = 0 ∨ readBuf = 0 then (.invalid, registry)
  else
    let b := retRegisterHandler strings a name
    if strings.text b.name = "GRS_NOT_EXISTS" then (.notExists, registry) else (.success, registry)

/-- `write_register`; the last branch ends without a return value. -/
def writeRegister (strings : Strings) (a : Register) (name writeBuf : Nat) (registry : Registry) :
    Option GrsReturn × Registry :=
  if name = 0 ∨ writeBuf = 0 then (some .invalid, registry)
  else
    let b := retRegisterHandler strings a name
    if strings.text b.name = "GRS_NOT_EXISTS" then (some .notExists, registry)
    else (none, wrtRegisterHandler b registry)

def destroyRegister (strings : Strings) (a : Register) (name : Nat) (registry : Registry) :
    GrsReturn × Registry :=
  if name = 0 then (.invalid, registry)
  else
    let c := retRegisterHandler strings a name
    if strings.text c.name = "GRS_NOT_EXISTS" then (.notExists, registry)
    else
      (.success, { registry with
        memory := (removeAt registry.memory registry.memBase c.id sizeofRegister).2 })

end ArchaOS.GlobalRegistry
