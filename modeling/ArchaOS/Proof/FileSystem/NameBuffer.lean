import ArchaOS.Construction.Initramfs
import Mathlib.Data.List.DropRight
import Mathlib.Tactic

namespace ArchaOS.FileSystem

open Library

/-- The name buffer holds a C string and its terminator. -/
structure Terminated (name : List UInt8) (text : CString) : Prop where
  split : ∃ rest, name = text ++ 0 :: rest
  plain : 0 ∉ text
  room : name.length = maxPath + 1

section Buffers

variable {name : List UInt8} {text : CString}

/-- The text of a buffer is shorter than the buffer. -/
theorem Terminated.length_lt (held : Terminated name text) : text.length < name.length := by
  obtain ⟨rest, split⟩ := held.split
  rw [split]
  simp

/-- A byte of the text is read. -/
theorem Terminated.read_inside (held : Terminated name text) (index : Nat) (inside : index < text.length) :
    readName name index = .ok (text.get ⟨index, inside⟩) := by
  obtain ⟨rest, split⟩ := held.split
  have look : name[index]? = some (text.get ⟨index, inside⟩) := by
    rw [split, List.getElem?_append_left inside, List.getElem?_eq_getElem inside]
    rfl
  rw [readName, look]

/-- The byte behind the text is zero. -/
theorem Terminated.read_end (held : Terminated name text) : readName name text.length = .ok 0 := by
  obtain ⟨rest, split⟩ := held.split
  have look : name[text.length]? = some 0 := by
    rw [split, List.getElem?_append_right (Nat.le_refl _)]
    simp
  rw [readName, look]

/-- A text ends at its first zero. -/
theorem takeWhile_terminated {text : CString} (rest : List UInt8) (plain : 0 ∉ text) :
    (text ++ 0 :: rest).takeWhile (· ≠ 0) = text := by
  induction text with
  | nil => simp
  | cons byte tail ih =>
      have parts : byte ≠ 0 ∧ 0 ∉ tail := by
        simp only [List.mem_cons, not_or] at plain
        exact ⟨Ne.symm plain.1, plain.2⟩
      rw [List.cons_append, List.takeWhile_cons_of_pos (by simp [parts.1]), ih parts.2]

/-- The C string at an index inside the text is the rest of the text. -/
theorem Terminated.cString (held : Terminated name text) (start : Nat) (inside : start ≤ text.length) :
    cString name start = .ok (text.drop start) := by
  obtain ⟨rest, split⟩ := held.split
  have drop : name.drop start = text.drop start ++ 0 :: rest := by
    rw [split, List.drop_append_of_le_length inside]
  have plain : 0 ∉ text.drop start := fun member => held.plain (List.mem_of_mem_drop member)
  rw [FileSystem.cString, drop, if_pos (by simp), takeWhile_terminated rest plain]

/-- Cutting the text at an index. -/
theorem Terminated.cut (held : Terminated name text) (index : Nat) (inside : index ≤ text.length) :
    writeName name index 0 = .ok (name.set index 0) ∧ Terminated (name.set index 0) (text.take index) := by
  obtain ⟨rest, split⟩ := held.split
  have bound := held.length_lt
  refine ⟨if_pos (by omega), ⟨?_, ?_, ?_⟩⟩
  · refine ⟨name.drop (index + 1), ?_⟩
    have taken : name.take index = text.take index := by
      rw [split, List.take_append_of_le_length inside]
    rw [← taken]
    exact List.set_eq_take_cons_drop 0 (by omega)
  · exact fun member => held.plain (List.mem_of_mem_take member)
  · rw [List.length_set]
    exact held.room

/-- Writing back the byte that a cut replaced. -/
theorem Terminated.restore (held : Terminated name text) {index : Nat} (inside : index < text.length) :
    writeName (name.set index 0) index (text.get ⟨index, inside⟩) = .ok name := by
  obtain ⟨rest, split⟩ := held.split
  have bound := held.length_lt
  rw [writeName, if_pos (by rw [List.length_set]; omega), List.set_set]
  congr 1
  have here : name[index]? = some (text.get ⟨index, inside⟩) := by
    rw [split, List.getElem?_append_left inside, List.getElem?_eq_getElem inside]
    rfl
  apply List.ext_getElem?
  intro position
  rw [List.getElem?_set]
  by_cases same : index = position
  · rw [if_pos same, if_pos (by omega), ← here, same]
  · rw [if_neg same]

/-- Moving the tail of the text to the front drops the bytes before it. -/
theorem Terminated.move (held : Terminated name text) (start : Nat) (inside : start ≤ text.length) :
    ∃ name', moveName name start ((text.drop start).length + 1) = .ok name' ∧
      Terminated name' (text.drop start) := by
  obtain ⟨rest, split⟩ := held.split
  have bound := held.length_lt
  have count : (text.drop start).length + 1 + start ≤ name.length := by
    rw [List.length_drop]
    omega
  have moved : (name.drop start).take ((text.drop start).length + 1) = text.drop start ++ [0] := by
    rw [split, List.drop_append_of_le_length inside, List.take_append]
    simp
  refine ⟨_, if_pos (by omega), ?_, ?_, ?_⟩
  · exact ⟨name.drop ((text.drop start).length + 1), by rw [moved, List.append_assoc]; rfl⟩
  · exact fun member => held.plain (List.mem_of_mem_drop member)
  · rw [moved, List.length_append, List.length_append, List.length_drop, List.length_drop]
    have room := held.room
    simp only [List.length_cons, List.length_nil]
    rw [List.length_drop] at count
    omega

end Buffers

/-- The name without leading `./`. -/
def cleanName : CString → CString
  | [] => []
  | [byte] => [byte]
  | first :: second :: rest =>
      if first = dot ∧ second = slash then cleanName rest else first :: second :: rest

/-- The loop over leading `./` computes `cleanName`. -/
theorem stripDots_eq {name : List UInt8} {text : CString} {bound : Nat} (held : Terminated name text)
    (enough : text.length < bound) :
    ∃ name', stripDots bound name = .ok name' ∧ Terminated name' (cleanName text) := by
  induction text using cleanName.induct generalizing name bound with
  | case1 =>
      cases bound with
      | zero => simp at enough
      | succ bound =>
          have first : readName name 0 = .ok 0 := held.read_end
          refine ⟨name, ?_, held⟩
          simp only [stripDots, first, bind, Except.bind]
          rfl
  | case2 byte =>
      cases bound with
      | zero => simp at enough
      | succ bound =>
          have first : readName name 0 = .ok byte := held.read_inside 0 (by simp)
          have second : readName name 1 = .ok 0 := held.read_end
          refine ⟨name, ?_, held⟩
          simp only [stripDots, first, second, bind, Except.bind]
          split
          · rfl
          · rfl
  | case3 first second rest match_ ih =>
      cases bound with
      | zero => simp at enough
      | succ bound =>
          obtain ⟨leading, following⟩ := match_
          subst leading following
          have readFirst : readName name 0 = .ok dot := held.read_inside 0 (by simp)
          have readSecond : readName name 1 = .ok slash := held.read_inside 1 (by simp)
          have tail := held.cString 2 (by simp)
          obtain ⟨moved, move, heldMoved⟩ := held.move 2 (by simp)
          obtain ⟨name', result, heldResult⟩ := ih heldMoved (show rest.length < bound by simp at enough; omega)
          refine ⟨name', ?_, ?_⟩
          · simp only [stripDots, readFirst, readSecond, bind, Except.bind, ne_eq, not_true_eq_false,
              if_false, tail, move]
            exact result
          · rw [cleanName, if_pos ⟨rfl, rfl⟩]
            exact heldResult
  | case4 first second rest other =>
      cases bound with
      | zero => simp at enough
      | succ bound =>
          have readFirst : readName name 0 = .ok first := held.read_inside 0 (by simp)
          have readSecond : readName name 1 = .ok second := held.read_inside 1 (by simp)
          refine ⟨name, ?_, ?_⟩
          · simp only [stripDots, readFirst, readSecond, bind, Except.bind]
            by_cases leading : first = dot
            · have notSlash : second ≠ slash := fun same => other ⟨leading, same⟩
              simp only [leading, ne_eq, not_true_eq_false, if_false, notSlash, not_false_eq_true, if_true]
              rfl
            · simp only [leading, ne_eq, not_false_eq_true, if_true]
              rfl
          · rw [cleanName, if_neg other]
            exact held

/-- The text without trailing slashes. -/
def trimSlashes (text : CString) : CString := text.rdropWhile (· = slash)

/-- A text that does not end in a slash is trimmed already. -/
theorem trimSlashes_self {text : CString} (last : text.getLast? ≠ some slash) :
    trimSlashes text = text := by
  rcases text.eq_nil_or_concat with nil | ⟨front, byte, same⟩
  · rw [nil]
    rfl
  · rw [List.concat_eq_append] at same
    rw [same] at last ⊢
    have other : byte ≠ slash := fun equal => last (by simp [equal])
    rw [trimSlashes, List.rdropWhile_concat_neg _ _ _ (by simp [other])]

/-- The loop over trailing slashes computes `trimSlashes`. -/
theorem stripSlashes_eq {name : List UInt8} {text : CString} (held : Terminated name text) :
    ∃ name', stripSlashes name text.length = .ok (name', (trimSlashes text).length) ∧
      Terminated name' (trimSlashes text) := by
  induction text using List.reverseRecOn generalizing name with
  | nil => exact ⟨name, rfl, held⟩
  | append_singleton front last ih =>
      have read : readName name front.length = .ok last := by
        have inside := held.read_inside front.length (by simp)
        simpa using inside
      rw [List.length_append, List.length_singleton, stripSlashes, read]
      by_cases same : last = slash
      · obtain ⟨write, cut⟩ := held.cut front.length (by simp)
        rw [List.take_append_of_le_length (Nat.le_refl _), List.take_length] at cut
        obtain ⟨name', result, heldResult⟩ := ih cut
        have trim : trimSlashes (front ++ [last]) = trimSlashes front := by
          rw [trimSlashes, List.rdropWhile_concat_pos _ _ _ (by simp [same])]
          rfl
        rw [trim]
        refine ⟨name', ?_, heldResult⟩
        simp only [bind, Except.bind, same, ne_eq, not_true_eq_false, if_false, write]
        exact result
      · have trim : trimSlashes (front ++ [last]) = front ++ [last] := by
          rw [trimSlashes, List.rdropWhile_concat_neg _ _ _ (by simp [same])]
        refine ⟨name, ?_, by rw [trim]; exact held⟩
        simp only [bind, Except.bind, same, ne_eq, not_false_eq_true, if_true, trim,
          List.length_append, List.length_singleton]
        rfl

/-- The text without one trailing slash. -/
def trimSlash (text : CString) : CString := if text.getLast? = some slash then text.dropLast else text

/-- Stripping a slash in the buffer trims it from the text. -/
theorem stripSlash_eq {name : List UInt8} {text : CString} (held : Terminated name text) :
    ∃ name', stripSlash name text.length = .ok (name', (trimSlash text).length) ∧
      Terminated name' (trimSlash text) := by
  rcases text.eq_nil_or_concat with nil | ⟨front, last, same⟩
  · subst nil
    exact ⟨name, rfl, held⟩
  · rw [List.concat_eq_append] at same
    subst same
    have read : readName name front.length = .ok last := by
      have inside := held.read_inside front.length (by simp)
      simpa using inside
    have present : front.length + 1 ≠ 0 := by omega
    rw [List.length_append, List.length_singleton, stripSlash, if_neg present, Nat.add_sub_cancel, read]
    by_cases ends : last = slash
    · obtain ⟨write, cut⟩ := held.cut front.length (by simp)
      rw [List.take_append_of_le_length (Nat.le_refl _), List.take_length] at cut
      have trim : trimSlash (front ++ [last]) = front := by simp [trimSlash, ends]
      rw [trim]
      refine ⟨_, ?_, cut⟩
      simp only [bind, Except.bind, ends, ne_eq, not_true_eq_false, if_false, write]
      rfl
    · have trim : trimSlash (front ++ [last]) = front ++ [last] := by simp [trimSlash, ends]
      refine ⟨name, ?_, by rw [trim]; exact held⟩
      simp only [bind, Except.bind, ends, ne_eq, not_false_eq_true, if_true, trim, List.length_append,
        List.length_singleton]
      rfl

end ArchaOS.FileSystem
