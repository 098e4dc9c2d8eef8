import ArchaOS.Construction.GlobalRegistry
import ArchaOS.Library.Runs

namespace ArchaOS.GlobalRegistry

open Library

/-- A name that clients may use: not the null pointer and not the reserved text. -/
structure Name (strings : Strings) where
  address : Nat
  notNull : address ≠ 0
  allowed : strings.text address ≠ "GRS_NOT_EXISTS"

def Name.text {strings : Strings} (name : Name strings) : String := strings.text name.address

/-- A pointer other than the null pointer. -/
structure Pointer where
  address : Nat
  notNull : address ≠ 0

/-- The calls that clients make. -/
inductive Request (strings : Strings) where
  | create (name : Name strings) (value : Pointer)
  | read (name : Name strings) (readBuf : Pointer)
  | write (name : Name strings) (writeBuf : Pointer)
  | destroy (name : Name strings)

/-- The registry next to the finite map that it stands for and the number of registers created. -/
structure Session where
  registry : Registry
  entries : String → Option Nat
  created : Nat

section Calls

variable (strings : Strings) (a : Register)

/-- A call changes the registry as the code does and the map as its meaning says. -/
def Session.step (session : Session) : Request strings → Session
  | .create name value =>
      let result := createRegister strings name.address value.address session.registry
      if result.1 = .success then
        ⟨result.2, Function.update session.entries name.text (some value.address), session.created + 1⟩
      else ⟨result.2, session.entries, session.created⟩
  | .read name readBuf =>
      ⟨(readRegister strings a name.address readBuf.address session.registry).2, session.entries,
        session.created⟩
  | .write name writeBuf =>
      ⟨(writeRegister strings a name.address writeBuf.address session.registry).2,
        if (session.entries name.text).isSome then
          Function.update session.entries name.text (some writeBuf.address)
        else session.entries,
        session.created⟩
  | .destroy name =>
      ⟨(destroyRegister strings a name.address session.registry).2,
        Function.update session.entries name.text none, session.created⟩

/-- The answer of a call is the one that the finite map gives: there is room for the first registers,
and a read delivers the entry of its name or reports that there is none. -/
def Session.Conforms (session : Session) : Request strings → Prop
  | .create name value => session.created < maxRegisters - 1 →
      (createRegister strings name.address value.address session.registry).1 = .success
  | .read name readBuf =>
      match session.entries name.text with
      | some value =>
          (readRegister strings a name.address readBuf.address session.registry).1 = .success ∧
            (readRegister strings a name.address readBuf.address session.registry).2.memory.read
              readBuf.address 8 = value
      | none =>
          (readRegister strings a name.address readBuf.address session.registry).1 = .notExists
  | _ => True

/-- A read asks for a name that has no entry. -/
def Session.Misses (session : Session) : Request strings → Prop
  | .read name _ => session.entries name.text = none
  | _ => True

/-- The search never looks at a record. -/
theorem retRegisterHandler_text (name : Nat) :
    strings.text (retRegisterHandler strings a name).name = "GRS_NOT_EXISTS" := strings.marked

/-- `read_register` finds no register. -/
theorem readRegister_eq (name : Name strings) (readBuf : Pointer) (registry : Registry) :
    readRegister strings a name.address readBuf.address registry = (.notExists, registry) := by
  simp [readRegister, name.notNull, readBuf.notNull, retRegisterHandler_text]

/-- `write_register` finds no register. -/
theorem writeRegister_eq (name : Name strings) (writeBuf : Pointer) (registry : Registry) :
    writeRegister strings a name.address writeBuf.address registry = (some .notExists, registry) := by
  simp [writeRegister, name.notNull, writeBuf.notNull, retRegisterHandler_text]

/-- `destroy_register` finds no register. -/
theorem destroyRegister_eq (name : Name strings) (registry : Registry) :
    destroyRegister strings a name.address registry = (.notExists, registry) := by
  simp [destroyRegister, name.notNull, retRegisterHandler_text]

/-- `create_register` succeeds as long as the counter stays below the limit. -/
theorem createRegister_cases (name : Name strings) (value : Pointer) (registry : Registry) :
    (add64 registry.memPtr 1 < maxRegisters ∧
      (createRegister strings name.address value.address registry).1 = .success ∧
      (createRegister strings name.address value.address registry).2.memPtr =
        add64 registry.memPtr 1) ∨
    (maxRegisters ≤ add64 registry.memPtr 1 ∧
      (createRegister strings name.address value.address registry).1 = .regFilled) := by
  by_cases room : add64 registry.memPtr 1 < maxRegisters
  · left
    simp [createRegister, name.allowed, name.notNull, value.notNull, not_le.mpr room, room,
      Registry.store]
  · right
    simp [createRegister, name.allowed, name.notNull, value.notNull, not_lt.mp room]

/-- Until the registry is full, the bump index counts the registers created. -/
def Session.Counted (session : Session) : Prop :=
  session.created < maxRegisters - 1 → session.registry.memPtr = session.created

/-- A create call succeeds while the registry is not full, and keeps the count. -/
theorem create_counted {session : Session} (counted : session.Counted) (name : Name strings)
    (value : Pointer) :
    session.Conforms strings a (.create name value) ∧
      (session.step strings a (.create name value)).Counted := by
  unfold Session.Counted at counted
  simp only [Session.Conforms, Session.step]
  rcases createRegister_cases strings name value session.registry with
    ⟨_, success, pointer⟩ | ⟨full, filled⟩
  · refine ⟨fun _ => success, ?_⟩
    rw [if_pos success]
    intro room
    change session.created + 1 < maxRegisters - 1 at room
    change (createRegister strings name.address value.address session.registry).2.memPtr =
      session.created + 1
    unfold maxRegisters at *
    rw [pointer, counted (by omega), add64_eq (by omega)]
  · have crowded : ¬ session.created < maxRegisters - 1 := by
      intro room
      rw [counted room] at full
      unfold maxRegisters at *
      rw [add64_eq (by omega)] at full
      omega
    refine ⟨fun room => absurd room crowded, ?_⟩
    have other : (createRegister strings name.address value.address session.registry).1 ≠ .success := by
      rw [filled]
      decide
    rw [if_neg other]
    exact fun room => absurd room crowded

/-- One request keeps the counter in step with the registers. -/
theorem step_counted (session : Session) (request : Request strings) (counted : session.Counted) :
    (session.step strings a request).Counted := by
  cases request with
  | create name value => exact (create_counted strings a counted name value).2
  | read name readBuf =>
      simp only [Session.step, readRegister_eq]
      exact counted
  | write name writeBuf =>
      simp only [Session.step, writeRegister_eq]
      exact counted
  | destroy name =>
      simp only [Session.step, destroyRegister_eq]
      exact counted

/-- A call answers as the finite map does exactly when it is not a read of an entry. -/
theorem conforms_iff (session : Session) (request : Request strings) (counted : session.Counted) :
    session.Conforms strings a request ↔ session.Misses strings request := by
  cases request with
  | create name value => exact iff_of_true (create_counted strings a counted name value).1 trivial
  | read name readBuf =>
      simp only [Session.Conforms, Session.Misses, readRegister_eq]
      cases session.entries name.text with
      | none => simp
      | some value => simp
  | write name writeBuf => exact Iff.rfl
  | destroy name => exact Iff.rfl

end Calls

/-- Every call of a run answers as the finite map does exactly when no read asks for an entry. -/
theorem finiteMap_run_iff (strings : Strings) (a : Register) (memory : Memory) (memBase : Nat)
    (requests : List (Request strings)) :
    Guarded (Session.step strings a) (Session.Conforms strings a)
        ⟨initRegistry memory memBase, fun _ => none, 0⟩ requests ↔
      Guarded (Session.step strings a) (Session.Misses strings)
        ⟨initRegistry memory memBase, fun _ => none, 0⟩ requests := by
  have start : Session.Counted ⟨initRegistry memory memBase, fun _ => none, 0⟩ := fun _ => rfl
  exact guarded_iff (step_counted strings a) (conforms_iff strings a) start

/-- One client string at address one. -/
def colorStrings : Strings where
  text := fun address => if address = 1 then "color" else "GRS_NOT_EXISTS"
  notExists := 2
  marked := by decide

/-- A register that was just created cannot be read. -/
theorem finiteMap_run_fails :
    ¬ Guarded (Session.step colorStrings ⟨0, 0, 0⟩) (Session.Conforms colorStrings ⟨0, 0, 0⟩)
      ⟨initRegistry ⟨fun _ => 0⟩ 0x1000, fun _ => none, 0⟩
      [.create ⟨1, by decide, by decide⟩ ⟨0x2000, by decide⟩,
        .read ⟨1, by decide, by decide⟩ ⟨0x3000, by decide⟩] := by
  rintro ⟨_, conforms, _⟩
  have missed := (conforms_iff colorStrings ⟨0, 0, 0⟩ _ _
    (step_counted colorStrings ⟨0, 0, 0⟩ _ _ fun _ => rfl)).mp conforms
  have present : ((Session.step colorStrings ⟨0, 0, 0⟩
      ⟨initRegistry ⟨fun _ => 0⟩ 0x1000, fun _ => none, 0⟩
      (.create ⟨1, by decide, by decide⟩ ⟨0x2000, by decide⟩)).entries "color") = some 0x2000 := by
    rfl
  exact absurd (present.symm.trans missed) (by decide)

end ArchaOS.GlobalRegistry
