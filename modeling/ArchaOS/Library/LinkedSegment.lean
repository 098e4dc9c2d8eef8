import Mathlib.Tactic

namespace ArchaOS.Library

variable {Node : Type}

/-- The address that a link to a list holds; an empty list continues at `next`. -/
def headAddress (address : Node → Nat) (next : Nat) : List Node → Nat
  | [] => next
  | node :: _ => address node

/-- The address of the last node; an empty list leaves the predecessor. -/
def lastAddress (address : Node → Nat) (prev : Nat) : List Node → Nat
  | [] => prev
  | node :: rest => lastAddress address (address node) rest

/-- A doubly linked segment: every node stands between its neighbours' addresses. -/
def Segment (address : Node → Nat) (holds : Node → Nat → Nat → Prop) :
    Nat → List Node → Nat → Prop
  | _, [], _ => True
  | prev, node :: rest, next =>
      holds node prev (headAddress address next rest) ∧
        Segment address holds (address node) rest next

/-- Consecutive nodes cover an interval without a gap. -/
def Tiling (address length : Node → Nat) : Nat → List Node → Nat → Prop
  | start, [], stop => start = stop
  | start, node :: rest, stop =>
      address node = start ∧ Tiling address length (start + length node) rest stop

section Segments

variable {address length : Node → Nat} {holds after : Node → Nat → Nat → Prop}

@[simp] theorem headAddress_cons (next : Nat) (node : Node) (rest : List Node) :
    headAddress address next (node :: rest) = address node := rfl

@[simp] theorem headAddress_nil (next : Nat) : headAddress address next [] = next := rfl

/-- The head of two lists is the head of the first, whose end is the head of the second. -/
theorem headAddress_append (next : Nat) (first second : List Node) :
    headAddress address next (first ++ second) =
      headAddress address (headAddress address next second) first := by
  cases first <;> rfl

@[simp] theorem lastAddress_append_singleton (prev : Nat) (first : List Node) (node : Node) :
    lastAddress address prev (first ++ [node]) = address node := by
  induction first generalizing prev with
  | nil => rfl
  | cons _ _ ih => exact ih _

/-- Two lists are linked exactly when each is and they meet. -/
theorem segment_append (prev next : Nat) (first second : List Node) :
    Segment address holds prev (first ++ second) next ↔
      Segment address holds prev first (headAddress address next second) ∧
        Segment address holds (lastAddress address prev first) second next := by
  induction first generalizing prev with
  | nil => simp [Segment, lastAddress]
  | cons node rest ih =>
      simp only [List.cons_append, Segment, lastAddress, headAddress_append, ih, and_assoc]

/-- A segment splits around one of its nodes. -/
theorem segment_split (prev next : Nat) (before rest : List Node) (node : Node) :
    Segment address holds prev (before ++ node :: rest) next ↔
      Segment address holds prev before (address node) ∧
        holds node (lastAddress address prev before) (headAddress address next rest) ∧
        Segment address holds (address node) rest next := by
  rw [segment_append]
  rfl

/-- A change that keeps the header of every node keeps the segment. -/
theorem segment_frame {prev next : Nat} {nodes : List Node}
    (segment : Segment address holds prev nodes next)
    (keeps : ∀ node ∈ nodes, ∀ left right, holds node left right → after node left right) :
    Segment address after prev nodes next := by
  induction nodes generalizing prev with
  | nil => trivial
  | cons node rest ih =>
      exact ⟨keeps node (by simp) _ _ segment.1,
        ih segment.2 fun other member => keeps other (by simp [member])⟩

/-- Two lists tile a range exactly when each tiles a part of it. -/
theorem tiling_append (start stop : Nat) (first second : List Node) :
    Tiling address length start (first ++ second) stop ↔
      ∃ middle, Tiling address length start first middle ∧
        Tiling address length middle second stop := by
  induction first generalizing start with
  | nil => simp [Tiling]
  | cons node rest ih =>
      simp only [List.cons_append, Tiling, ih]
      constructor
      · intro both
        obtain ⟨here, middle, left, right⟩ := both
        exact ⟨middle, ⟨here, left⟩, right⟩
      · intro both
        obtain ⟨middle, ⟨here, left⟩, right⟩ := both
        exact ⟨here, middle, left, right⟩

/-- A node of a tiling lies between two tilings. -/
theorem tiling_split (start stop : Nat) (before rest : List Node) (node : Node) :
    Tiling address length start (before ++ node :: rest) stop ↔
      Tiling address length start before (address node) ∧
        Tiling address length (address node + length node) rest stop := by
  rw [tiling_append]
  constructor
  · intro both
    obtain ⟨middle, left, here, right⟩ := both
    subst here
    exact ⟨left, right⟩
  · intro both
    exact ⟨address node, both.1, rfl, both.2⟩

/-- Every tile lies inside the interval. -/
theorem tiling_bounds {start stop : Nat} {nodes : List Node}
    (tiling : Tiling address length start nodes stop) :
    start ≤ stop ∧ ∀ node ∈ nodes, start ≤ address node ∧ address node + length node ≤ stop := by
  induction nodes generalizing start with
  | nil =>
      have same : start = stop := tiling
      simp [same]
  | cons node rest ih =>
      obtain ⟨here, later⟩ := tiling
      obtain ⟨ordered, inside⟩ := ih later
      refine ⟨by omega, ?_⟩
      intro other member
      rcases List.mem_cons.mp member with same | old
      · subst same
        omega
      · have bounds := inside other old
        omega

/-- Tiles of positive size are no more numerous than the bytes that they cover. -/
theorem tiling_length_le {start stop : Nat} {nodes : List Node}
    (tiling : Tiling address length start nodes stop) (positive : ∀ node ∈ nodes, 0 < length node) :
    start + nodes.length ≤ stop := by
  induction nodes generalizing start with
  | nil =>
      have same : start = stop := tiling
      simp [same]
  | cons node rest ih =>
      have later := ih tiling.2 fun other member => positive other (by simp [member])
      have here := positive node (by simp)
      simp only [List.length_cons]
      omega

end Segments

end ArchaOS.Library
