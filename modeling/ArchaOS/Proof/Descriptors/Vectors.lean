import ArchaOS.Proof.Descriptors.Encoding
import ArchaOS.Library.Runs

namespace ArchaOS.Descriptors

open Library

/-- The handlers that are installed, by the calls alone. -/
abbrev Installed := BitVec 8 → Option (BitVec 64)

/-- `idt_set_gate` installs its handler; `set_idt_vector` is to do so where there is none. -/
def IdtCall.install (installed : Installed) : IdtCall → Installed
  | .setGate vector handler => Function.update installed vector (some handler)
  | .setVector vector handler =>
      Function.update installed vector (some ((installed vector).getD handler))

/-- The globals and the handlers that the calls have installed so far. -/
structure Installation where
  state : IdtState
  installed : Installed

def Installation.step (now : Installation) (call : IdtCall) : Installation :=
  ⟨call.run now.state, call.install now.installed⟩

/-- A call of `set_idt_vector` keeps an installed handler and installs one where there is none. -/
def KeepsHandlers (now : Installation) : IdtCall → Prop
  | .setGate _ _ => True
  | .setVector vector handler =>
      if now.installed vector = none then
        (setIdtVector vector handler now.state).idt = (idtSetGate vector handler now.state).idt
      else (setIdtVector vector handler now.state).idt = now.state.idt

/-- No call of `set_idt_vector` meets another handler whose low sixteen bits are zero. -/
def LowBitsShow (installed : Installed) : IdtCall → Prop
  | .setGate _ _ => True
  | .setVector vector handler =>
      ∀ other, installed vector = some other → other.setWidth 16 ≠ 0#16 ∨ other = handler

/-- The table holds the gates of the installed handlers and is zero elsewhere. -/
def Tracks (now : Installation) : Prop :=
  ∀ vector, now.state.idt vector = ((now.installed vector).map gateEntry).getD IdtEntry.cleared

theorem gateEntry_offsetLow (handler : BitVec 64) :
    (gateEntry handler).offsetLow = handler.setWidth 16 := by
  ext index inside
  simp only [gateEntry, BitVec.getElem_setWidth, BitVec.getLsbD_and]
  interval_cases index <;> simp

/-- A vector that is taken keeps its gate. -/
theorem setIdtVector_taken {vector : BitVec 8} {state : IdtState}
    (taken : (state.idt vector).offsetLow ≠ 0) (handler : BitVec 64) :
    setIdtVector vector handler state = state :=
  if_pos taken

/-- A free vector gets the gate. -/
theorem setIdtVector_free {vector : BitVec 8} {state : IdtState}
    (free : (state.idt vector).offsetLow = 0) (handler : BitVec 64) :
    setIdtVector vector handler state =
      { idtSetGate vector handler state with idtChanged := true } := by
  rw [setIdtVector, if_neg (not_not.mpr free)]
  cases changed : state.idtChanged
  · rfl
  · rw [if_neg (by decide)]
    simp only [idtSetGate, changed]

/-- The table is all zero before the first call. -/
theorem Tracks.initial (idtr : BitVec 16 × BitVec 64) : Tracks ⟨initialIdt idtr, fun _ => none⟩ :=
  fun _ => rfl

/-- `set_idt_vector` does what it should exactly when the low bits show the installed handler. -/
theorem Tracks.agree {now : Installation} (tracks : Tracks now) (call : IdtCall) :
    KeepsHandlers now call ↔ LowBitsShow now.installed call := by
  cases call with
  | setGate vector handler => exact Iff.rfl
  | setVector vector handler =>
      have entry := tracks vector
      cases slot : now.installed vector with
      | none =>
          rw [slot] at entry
          have free : (now.state.idt vector).offsetLow = 0 := by
            rw [entry]
            rfl
          simp [KeepsHandlers, LowBitsShow, slot, setIdtVector_free free]
      | some other =>
          have held : now.state.idt vector = gateEntry other := by
            rw [entry, slot]
            rfl
          by_cases hidden : other.setWidth 16 = 0#16
          · have free : (now.state.idt vector).offsetLow = 0 := by
              rw [held, gateEntry_offsetLow, hidden]
              rfl
            simp [KeepsHandlers, LowBitsShow, slot, setIdtVector_free free, idtSetGate_idt, held,
              hidden, gateEntry_injective.eq_iff, eq_comm]
          · have taken : (now.state.idt vector).offsetLow ≠ 0 := by
              rw [held, gateEntry_offsetLow]
              exact hidden
            simp [KeepsHandlers, LowBitsShow, slot, setIdtVector_taken taken, hidden]

/-- Replacing an entry and the installed handler together keeps the table in step. -/
theorem Tracks.update {now : Installation} (tracks : Tracks now) (vector : BitVec 8)
    (handler : BitVec 64) {state : IdtState}
    (table : state.idt = Function.update now.state.idt vector (gateEntry handler)) :
    Tracks ⟨state, Function.update now.installed vector (some handler)⟩ := by
  intro other
  simp only [table]
  by_cases same : other = vector
  · cases same
    simp only [Function.update_self, Option.map_some, Option.getD_some]
  · rw [Function.update_of_ne same, Function.update_of_ne same]
    exact tracks other

/-- One call keeps track of the handlers. -/
theorem Tracks.step {now : Installation} (tracks : Tracks now) (call : IdtCall)
    (keeps : KeepsHandlers now call) : Tracks (now.step call) := by
  cases call with
  | setGate vector handler => exact tracks.update vector handler rfl
  | setVector vector handler =>
      have entry := tracks vector
      cases slot : now.installed vector with
      | none =>
          have table : (setIdtVector vector handler now.state).idt =
              Function.update now.state.idt vector (gateEntry handler) := by
            simpa [KeepsHandlers, slot, idtSetGate_idt] using keeps
          have after := tracks.update vector handler table
          simpa [Installation.step, IdtCall.run, IdtCall.install, slot] using after
      | some other =>
          have table : (setIdtVector vector handler now.state).idt = now.state.idt := by
            simpa [KeepsHandlers, slot] using keeps
          have same : Function.update now.installed vector (some other) = now.installed := by
            rw [← slot, Function.update_eq_self]
          intro vector'
          simp only [Installation.step, IdtCall.run, IdtCall.install, slot, Option.getD_some, same, table]
          exact tracks vector'

/-- A change that `set_idt_vector` makes is recorded. -/
theorem setIdtVector_records {vector : BitVec 8} {handler : BitVec 64} {state : IdtState}
    (changed : (setIdtVector vector handler state).idt ≠ state.idt) :
    (setIdtVector vector handler state).idtChanged = true := by
  by_cases free : (state.idt vector).offsetLow = 0
  · rw [setIdtVector_free free]
  · rw [setIdtVector_taken free] at changed
    exact absurd rfl changed

/-- The record of a change stays. -/
theorem run_idtChanged {state : IdtState} (changed : state.idtChanged = true) (calls : List IdtCall) :
    (calls.foldl IdtCall.run state).idtChanged = true := by
  induction calls generalizing state with
  | nil => exact changed
  | cons call rest ih =>
      apply ih
      cases call with
      | setGate vector handler => exact changed
      | setVector vector handler =>
          change (setIdtVector vector handler state).idtChanged = true
          by_cases free : (state.idt vector).offsetLow = 0
          · rw [setIdtVector_free free]
          · rw [setIdtVector_taken free]
            exact changed

/-- After a call of `set_idt_vector` has changed the table, `flush_idt_vector` loads it again. -/
def ReloadsChanges (table : BitVec 64) (start : IdtState) (calls : List IdtCall) : Prop :=
  ∀ before vector handler rest, calls = before ++ .setVector vector handler :: rest →
    let state := before.foldl IdtCall.run start
    (setIdtVector vector handler state).idt ≠ state.idt →
      flushIdtVector table (calls.foldl IdtCall.run start) =
        loadIdt idtLimit table (calls.foldl IdtCall.run start)

/-- The table is loaded exactly when a gate has changed. -/
theorem reloadsChanges (table : BitVec 64) (start : IdtState) (calls : List IdtCall) :
    ReloadsChanges table start calls := by
  intro before vector handler rest parts state changed
  have recorded := run_idtChanged (setIdtVector_records changed) rest
  have after : calls.foldl IdtCall.run start =
      rest.foldl IdtCall.run (setIdtVector vector handler state) := by
    rw [parts, List.foldl_append, List.foldl_cons]
    rfl
  rw [after]
  exact if_pos recorded

/-- `set_idt_vector` never replaces an installed handler and installs one where there is none, and a
flush after a change reloads the table. -/
structure VectorsKept (idtr : BitVec 16 × BitVec 64) (table : BitVec 64) (calls : List IdtCall) :
    Prop where
  keeps : Guarded Installation.step KeepsHandlers ⟨initialIdt idtr, fun _ => none⟩ calls
  reloads : ReloadsChanges table (initialIdt idtr) calls

/-- A run keeps its handlers exactly when the low bits of each show it to later calls. -/
theorem vectorsKept_iff (idtr : BitVec 16 × BitVec 64) (table : BitVec 64) (calls : List IdtCall) :
    VectorsKept idtr table calls ↔ Guarded IdtCall.install LowBitsShow (fun _ => none) calls := by
  have handlers : Guarded Installation.step KeepsHandlers ⟨initialIdt idtr, fun _ => none⟩ calls ↔
      Guarded IdtCall.install LowBitsShow (fun _ => none) calls := by
    apply guarded_simulation fun now installed => Tracks now ∧ now.installed = installed
    · rintro now _ call ⟨tracks, rfl⟩
      exact tracks.agree call
    · rintro now _ call ⟨tracks, rfl⟩ keeps
      exact ⟨tracks.step call keeps, rfl⟩
    · exact ⟨Tracks.initial idtr, rfl⟩
  exact ⟨fun kept => handlers.mp kept.keeps,
    fun shown => ⟨handlers.mpr shown, reloadsChanges table _ calls⟩⟩

/-- A handler at 0x10000 is replaced. -/
theorem vectorsKept_fails : ¬ VectorsKept (0, 0) 0x1000 [.setGate 32 0x10000, .setVector 32 0x20008] := by
  intro kept
  have replaced := kept.keeps.2.1
  have entries := congrFun replaced 32
  exact absurd entries (by decide)

end ArchaOS.Descriptors
