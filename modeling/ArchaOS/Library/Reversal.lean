import Mathlib.Tactic

namespace ArchaOS.Library

variable {A : Type}

/-- The list after two of its elements have changed places. -/
def swap (list : List A) (first second : Nat) : List A :=
  match list[first]?, list[second]? with
  | some a, some b => (list.set first b).set second a
  | _, _ => list

@[simp] theorem swap_length (list : List A) (first second : Nat) :
    (swap list first second).length = list.length := by
  unfold swap
  split <;> simp

/-- A swap exchanges two elements and keeps the others. -/
theorem swap_getElem? {list : List A} {first second : Nat} (left : first < list.length)
    (right : second < list.length) (index : Nat) :
    (swap list first second)[index]? =
      if index = second then list[first]? else if index = first then list[second]? else list[index]? := by
  have a := List.getElem?_eq_getElem left
  have b := List.getElem?_eq_getElem right
  simp only [swap, a, b]
  by_cases last : index = second
  · subst last
    rw [if_pos rfl, List.getElem?_set_self (by rw [List.length_set]; exact right)]
  rw [if_neg last, List.getElem?_set_ne (Ne.symm last)]
  by_cases initial : index = first
  · subst initial
    rw [if_pos rfl, List.getElem?_set_self left]
  · rw [if_neg initial, List.getElem?_set_ne (Ne.symm initial)]

/-- The outer elements of a list, `turns` at either end, stand in reverse order. -/
structure Turned (original list : List A) (turns : Nat) : Prop where
  length : list.length = original.length
  element : ∀ index < original.length, list[index]? =
    if index < turns ∨ original.length ≤ index + turns then original[original.length - 1 - index]?
    else original[index]?

/-- Before the first swap the list is as it was. -/
theorem Turned.start (list : List A) : Turned list list 0 where
  length := rfl
  element index inside := by
    rw [if_neg]
    omega

/-- The next exchange turns one more element at either end. -/
theorem Turned.turn {original list : List A} {turns : Nat} (turned : Turned original list turns)
    (more : turns < original.length - 1 - turns) :
    Turned original (swap list turns (original.length - 1 - turns)) (turns + 1) where
  length := by
    rw [swap_length, turned.length]
  element index inside := by
    have size := turned.length
    rw [swap_getElem? (by omega) (by omega), turned.element turns (by omega),
      turned.element (original.length - 1 - turns) (by omega), turned.element index inside]
    by_cases last : index = original.length - 1 - turns
    · have mirrored : original.length - 1 - index = turns := by omega
      rw [if_pos last, if_neg (by omega), if_pos (by omega), mirrored]
    by_cases first : index = turns
    · rw [if_neg last, if_pos first, if_neg (by omega), if_pos (by omega), first]
    · rw [if_neg last, if_neg first]
      have same : (index < turns ∨ original.length ≤ index + turns) ↔
          (index < turns + 1 ∨ original.length ≤ index + (turns + 1)) := by omega
      simp only [same]

/-- Once the ends meet, the whole list is reversed. -/
theorem Turned.whole {original list : List A} {turns : Nat} (turned : Turned original list turns)
    (half : original.length ≤ 2 * turns + 1) : list = original.reverse := by
  apply List.ext_getElem?
  intro index
  by_cases inside : index < original.length
  · rw [turned.element index inside, List.getElem?_reverse inside]
    split
    · rfl
    · have middle : original.length - 1 - index = index := by omega
      rw [middle]
  · rw [List.getElem?_eq_none (by rw [turned.length]; omega),
      List.getElem?_eq_none (by rw [List.length_reverse]; omega)]

end ArchaOS.Library
