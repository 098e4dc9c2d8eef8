import Mathlib.Data.List.Basic
import Mathlib.Data.List.Induction
import Mathlib.Logic.Function.Basic
import Mathlib.Tactic

namespace ArchaOS.Library.RadixTree

variable {Frame Index Entry : Type}

/-- A walk follows one index in each table and ends at the frame that the last entry names. -/
def walk (decode : Entry → Option Frame) (memory : Frame → Index → Entry) (root : Frame)
    (path : List Index) : Option Frame :=
  path.foldlM (fun frame index => decode (memory frame index)) root

/-- A frame holds a table of the tree when a path shorter than the depth reaches it. -/
def Holds (decode : Entry → Option Frame) (memory : Frame → Index → Entry) (root : Frame)
    (depth : Nat) (frame : Frame) : Prop :=
  ∃ path, path.length < depth ∧ walk decode memory root path = some frame

/-- An entry of a table above the last level points to a frame. -/
def Points (decode : Entry → Option Frame) (memory : Frame → Index → Entry) (root : Frame)
    (depth : Nat) (frame : Frame) (index : Index) (target : Frame) : Prop :=
  Holds decode memory root (depth - 1) frame ∧ decode (memory frame index) = some target

/-- The entry that a walk through the tables ends at, when it is present. -/
def entryAt (decode : Entry → Option Frame) (memory : Frame → Index → Entry) (root : Frame)
    (path : List Index) (index : Index) : Option Entry :=
  (walk decode memory root path).bind fun frame =>
    if (decode (memory frame index)).isNone then none else some (memory frame index)

/-- The entry that ends a translation and the number of levels below it: the entry of a table of the
last level, or an entry above it that is a leaf of its own. -/
def leafAt (decode : Entry → Option Frame) (leaf : Entry → Bool) (memory : Frame → Index → Entry) :
    Frame → List Index → Option (Nat × Entry)
  | _, [] => none
  | frame, index :: rest =>
      match decode (memory frame index) with
      | some next =>
          if rest.isEmpty then some (0, memory frame index) else leafAt decode leaf memory next rest
      | none => if leaf (memory frame index) then some (rest.length, memory frame index) else none

/-- The tables form a tree: different paths reach different tables. -/
def Tree (decode : Entry → Option Frame) (memory : Frame → Index → Entry) (root : Frame)
    (depth : Nat) : Prop :=
  ∀ first second frame, first.length < depth → second.length < depth →
    walk decode memory root first = some frame → walk decode memory root second = some frame →
    first = second

/-- Every entry of every table above a level has a property. -/
def Every (decode : Entry → Option Frame) (good : Entry → Prop) (memory : Frame → Index → Entry)
    (root : Frame) (level : Nat) : Prop :=
  ∀ frame index, Holds decode memory root level frame → good (memory frame index)

/-- A table of the upper levels is a table. -/
theorem Holds.mono {decode : Entry → Option Frame} {memory : Frame → Index → Entry} {root : Frame}
    {level depth : Nat} (below : level ≤ depth) {frame : Frame}
    (holds : Holds decode memory root level frame) : Holds decode memory root depth frame := by
  obtain ⟨path, short, reached⟩ := holds
  exact ⟨path, by omega, reached⟩

section Walks

variable (decode : Entry → Option Frame) (memory : Frame → Index → Entry) (root : Frame)

@[simp] theorem walk_nil : walk decode memory root [] = some root := rfl

/-- A walk along two paths walks the second from the end of the first. -/
theorem walk_append (first second : List Index) :
    walk decode memory root (first ++ second) =
      (walk decode memory root first).bind fun frame => walk decode memory frame second := by
  unfold walk
  rw [List.foldlM_append]
  rfl

@[simp] theorem walk_snoc (path : List Index) (index : Index) :
    walk decode memory root (path ++ [index]) =
      (walk decode memory root path).bind fun frame => decode (memory frame index) := by
  unfold walk
  rw [List.foldlM_append]
  simp [bind]

/-- Every part of a walk that arrives arrives. -/
theorem walk_prefix {first second : List Index} {frame : Frame}
    (reached : walk decode memory root (first ++ second) = some frame) :
    walk decode memory root first ≠ none := by
  intro missing
  rw [walk_append, missing] at reached
  cases reached

/-- A walk that is one longer decodes the entry at the end of the shorter one. -/
theorem walk_entryAt (path : List Index) (index : Index) :
    walk decode memory root (path ++ [index]) =
      (entryAt decode memory root path index).bind decode := by
  rw [walk_snoc, entryAt]
  cases walk decode memory root path with
  | none => rfl
  | some frame =>
      simp only [Option.bind_some]
      split
      · rename_i missing
        simpa using missing
      · rfl

variable (leaf : Entry → Bool)

/-- A translation starts at the table that the first indices reach. -/
theorem leafAt_append {path : List Index} {frame : Frame}
    (reached : walk decode memory root path = some frame) (rest : List Index)
    (more : rest ≠ []) :
    leafAt decode leaf memory root (path ++ rest) = leafAt decode leaf memory frame rest := by
  induction path generalizing root with
  | nil =>
      obtain rfl := Option.some.inj reached
      rfl
  | cons index path ih =>
      rw [walk, List.foldlM_cons, Option.bind_eq_bind, Option.bind_eq_some_iff] at reached
      obtain ⟨next, named, reached⟩ := reached
      have longer : (path ++ rest).isEmpty = false := by
        cases path with
        | nil => simpa using more
        | cons _ _ => rfl
      rw [List.cons_append, leafAt, named]
      simp only [longer, Bool.false_eq_true, if_false]
      exact ih next reached

/-- A table without entries translates nothing. -/
theorem leafAt_bare (rest : List Index)
    (bare : ∀ position, decode (memory root position) = none ∧ leaf (memory root position) = false) :
    leafAt decode leaf memory root rest = none := by
  cases rest with
  | nil => rfl
  | cons index rest => simp [leafAt, (bare index).1, (bare index).2]

end Walks

variable {decode : Entry → Option Frame} {memory other : Frame → Index → Entry}
  {root : Frame} {depth : Nat}

/-- Memories that agree on every table of the tree have the same walks. -/
theorem walk_agree
    (agree : ∀ frame, Holds decode memory root depth frame → other frame = memory frame)
    (path : List Index) (short : path.length ≤ depth) :
    walk decode other root path = walk decode memory root path := by
  induction path using List.reverseRecOn with
  | nil => rfl
  | append_singleton path index ih =>
      rw [List.length_append, List.length_singleton] at short
      rw [walk_snoc, walk_snoc, ih (by omega)]
      cases reached : walk decode memory root path with
      | none => rfl
      | some frame => simp [agree frame ⟨path, by omega, reached⟩]

/-- Memories that agree on every table of the tree have the same translations. -/
theorem leafAt_agree {leaf : Entry → Bool}
    (agree : ∀ table, Holds decode memory root depth table → other table = memory table)
    (path rest : List Index) {table : Frame} (reached : walk decode memory root path = some table)
    (bounded : path.length + rest.length ≤ depth) :
    leafAt decode leaf other table rest = leafAt decode leaf memory table rest := by
  induction rest generalizing path table with
  | nil => rfl
  | cons position rest ih =>
      rw [List.length_cons] at bounded
      rw [leafAt, leafAt, agree table ⟨path, by omega, reached⟩]
      cases named : decode (memory table position) with
      | none => rfl
      | some next =>
          have arrived : walk decode memory root (path ++ [position]) = some next := by
            rw [walk_snoc, reached, Option.bind_some, named]
          have length : (path ++ [position]).length + rest.length ≤ depth := by
            rw [List.length_append, List.length_singleton]
            omega
          simp only [ih (path ++ [position]) arrived length]

/-- Memories that agree on the tables have the same tables. -/
theorem holds_agree
    (agree : ∀ frame, Holds decode memory root depth frame → other frame = memory frame)
    {level : Nat} (below : level ≤ depth) (frame : Frame) :
    Holds decode other root level frame ↔ Holds decode memory root level frame := by
  unfold Holds
  refine exists_congr fun path => and_congr_right fun short => ?_
  rw [walk_agree agree path (by omega)]

/-- A memory that agrees on the tables of a tree holds the same tree. -/
theorem Tree.agree (tree : Tree decode memory root depth)
    (agree : ∀ frame, Holds decode memory root depth frame → other frame = memory frame) :
    Tree decode other root depth := by
  intro first second frame low high left right
  rw [walk_agree agree _ (by omega)] at left right
  exact tree first second frame low high left right

/-- A property of the entries holds in a memory that agrees on the tables. -/
theorem Every.agree {good : Entry → Prop} {level : Nat} (every : Every decode good memory root level)
    (agree : ∀ frame, Holds decode memory root depth frame → other frame = memory frame)
    (below : level ≤ depth) : Every decode good other root level := by
  intro frame index held
  have before := (holds_agree agree below frame).mp held
  rw [agree frame (before.mono below)]
  exact every frame index before

/-- A table that an entry points to is a table. -/
theorem Points.holds (positive : 0 < depth) {frame target : Frame} {index : Index}
    (points : Points decode memory root depth frame index target) :
    Holds decode memory root depth target := by
  obtain ⟨⟨path, short, reached⟩, named⟩ := points
  refine ⟨path ++ [index], ?_, ?_⟩
  · rw [List.length_append, List.length_singleton]
    omega
  · rw [walk_snoc, reached, Option.bind_some, named]

/-- The last step of a path to a table leaves a table above the last level. -/
theorem points_of_walk {path : List Index} {index : Index} {target : Frame}
    (short : (path ++ [index]).length < depth)
    (reached : walk decode memory root (path ++ [index]) = some target) :
    ∃ frame, walk decode memory root path = some frame ∧
      Points decode memory root depth frame index target := by
  rw [List.length_append, List.length_singleton] at short
  rw [walk_snoc, Option.bind_eq_some_iff] at reached
  obtain ⟨frame, arrived, named⟩ := reached
  exact ⟨frame, arrived, ⟨path, by omega, arrived⟩, named⟩

/-- The tables form a tree exactly when no entry points to the root and no two entries point to the
same table. -/
theorem tree_iff_points (positive : 0 < depth) :
    Tree decode memory root depth ↔
      (∀ frame index, ¬ Points decode memory root depth frame index root) ∧
      ∀ frame index frame' index' target, Points decode memory root depth frame index target →
        Points decode memory root depth frame' index' target → frame = frame' ∧ index = index' := by
  constructor
  · intro tree
    constructor
    · rintro frame index ⟨⟨path, short, reached⟩, named⟩
      have loop : walk decode memory root (path ++ [index]) = some root := by
        rw [walk_snoc, reached, Option.bind_some, named]
      have same := tree (path ++ [index]) [] root
        (by rw [List.length_append, List.length_singleton]; omega) positive loop rfl
      simp at same
    · rintro frame index frame' index' target ⟨⟨path, short, reached⟩, named⟩
        ⟨⟨path', short', reached'⟩, named'⟩
      have left : walk decode memory root (path ++ [index]) = some target := by
        rw [walk_snoc, reached, Option.bind_some, named]
      have right : walk decode memory root (path' ++ [index']) = some target := by
        rw [walk_snoc, reached', Option.bind_some, named']
      have same := tree _ _ target (by rw [List.length_append, List.length_singleton]; omega)
        (by rw [List.length_append, List.length_singleton]; omega) left right
      obtain ⟨rfl, rfl⟩ := List.append_singleton_inj.mp same
      exact ⟨Option.some.inj (reached.symm.trans reached'), rfl⟩
  · rintro ⟨top, parents⟩ first
    induction first using List.reverseRecOn with
    | nil =>
        intro second frame _ high left right
        obtain rfl := Option.some.inj left
        cases second using List.reverseRecOn with
        | nil => rfl
        | append_singleton second index =>
            obtain ⟨parent, _, points⟩ := points_of_walk high right
            exact absurd points (top parent index)
    | append_singleton first index ih =>
        intro second frame low high left right
        obtain ⟨parent, arrived, points⟩ := points_of_walk low left
        cases second using List.reverseRecOn with
        | nil =>
            obtain rfl := Option.some.inj right
            exact absurd points (top parent index)
        | append_singleton second index' =>
            obtain ⟨parent', arrived', points'⟩ := points_of_walk high right
            obtain ⟨rfl, rfl⟩ := parents parent index parent' index' frame points points'
            rw [List.length_append, List.length_singleton] at low high
            rw [ih second parent (by omega) (by omega) arrived arrived']

/-- A root without entries is a tree. -/
theorem Tree.single (bare : ∀ index, decode (memory root index) = none) :
    Tree decode memory root depth ∧
      ∀ path, walk decode memory root path = if path = [] then some root else none := by
  have walks (path : List Index) :
      walk decode memory root path = if path = [] then some root else none := by
    cases path with
    | nil => rfl
    | cons index rest => simp [walk, bare]
  refine ⟨?_, walks⟩
  intro first second frame _ _ left right
  rw [walks] at left right
  split at left
  · split at right
    · simp_all
    · cases right
  · cases left

section Updates

variable [DecidableEq Frame] [DecidableEq Index]

/-- One entry of one table changes. -/
def write (memory : Frame → Index → Entry) (frame : Frame) (index : Index) (entry : Entry) :
    Frame → Index → Entry :=
  Function.update memory frame (Function.update (memory frame) index entry)

@[simp] theorem write_self (memory : Frame → Index → Entry) (frame : Frame) (index : Index)
    (entry : Entry) : write memory frame index entry frame index = entry := by
  simp [write]

theorem write_of_ne_frame (memory : Frame → Index → Entry) {frame target : Frame}
    (different : target ≠ frame) (index : Index) (entry : Entry) :
    write memory frame index entry target = memory target :=
  Function.update_of_ne different _ _

theorem write_of_ne_index (memory : Frame → Index → Entry) (frame : Frame) {index target : Index}
    (different : target ≠ index) (entry : Entry) :
    write memory frame index entry frame target = memory frame target := by
  simp [write, different]

theorem write_unchanged (memory : Frame → Index → Entry) (frame : Frame) (index : Index) :
    write memory frame index (memory frame index) = memory := by
  simp [write]

variable {path : List Index} {frame : Frame} {index : Index} {entry : Entry}

/-- A write is invisible to every walk that does not pass through the written entry. -/
theorem walk_write_outside (tree : Tree decode memory root depth)
    (reached : walk decode memory root path = some frame) (short : path.length < depth)
    (target : List Index) (bounded : target.length ≤ depth)
    (outside : ¬ (path ++ [index]) <+: target) :
    walk decode (write memory frame index entry) root target = walk decode memory root target := by
  induction target using List.reverseRecOn with
  | nil => rfl
  | append_singleton target last ih =>
      rw [List.length_append, List.length_singleton] at bounded
      rw [walk_snoc, walk_snoc, ih (by omega)
        (fun inside => outside (inside.trans (List.prefix_append _ _)))]
      cases arrived : walk decode memory root target with
      | none => rfl
      | some current =>
          by_cases same : current = frame
          · subst same
            have samePath := tree target path current (by omega) short arrived reached
            have different : last ≠ index := by
              rintro rfl
              exact outside (samePath ▸ List.prefix_refl _)
            simp [write_of_ne_index memory current different]
          · simp [write_of_ne_frame memory same]

/-- An entry that is written is found at the end of its path. -/
theorem walk_write_self (tree : Tree decode memory root depth)
    (reached : walk decode memory root path = some frame) (short : path.length < depth) :
    walk decode (write memory frame index entry) root (path ++ [index]) = decode entry := by
  have shorter : ¬ (path ++ [index]) <+: path := by
    intro inside
    have length := inside.length_le
    rw [List.length_append, List.length_singleton] at length
    omega
  rw [walk_snoc, walk_write_outside tree reached short path (by omega) shorter, reached]
  simp

/-- A write to a table of the last level changes the walk to its entry and no other. -/
theorem walk_put (tree : Tree decode memory root depth)
    (reached : walk decode memory root path = some frame) (last : path.length + 1 = depth)
    (target : List Index) (bounded : target.length ≤ depth) :
    walk decode (write memory frame index entry) root target =
      if target = path ++ [index] then decode entry else walk decode memory root target := by
  split
  · rename_i same
    rw [same]
    exact walk_write_self tree reached (by omega)
  · rename_i different
    apply walk_write_outside tree reached (by omega) target bounded
    intro inside
    apply different
    refine (inside.eq_of_length ?_).symm
    have length := inside.length_le
    rw [List.length_append, List.length_singleton] at length ⊢
    omega

/-- Writing an entry of the last level changes no walk to a table. -/
theorem walk_put_short (tree : Tree decode memory root depth)
    (reached : walk decode memory root path = some frame) (last : path.length + 1 = depth)
    (target : List Index) (bounded : target.length < depth) :
    walk decode (write memory frame index entry) root target = walk decode memory root target := by
  rw [walk_put tree reached last target (by omega), if_neg]
  rintro rfl
  rw [List.length_append, List.length_singleton] at bounded
  omega

/-- Writing an entry of the last level changes no table. -/
theorem holds_put (tree : Tree decode memory root depth)
    (reached : walk decode memory root path = some frame) (last : path.length + 1 = depth)
    {level : Nat} (below : level ≤ depth) (target : Frame) :
    Holds decode (write memory frame index entry) root level target ↔
      Holds decode memory root level target := by
  unfold Holds
  refine exists_congr fun path => and_congr_right fun short => ?_
  rw [walk_put_short tree reached last path (by omega)]

/-- Writing an entry of the last level keeps the tree. -/
theorem Tree.put (tree : Tree decode memory root depth)
    (reached : walk decode memory root path = some frame) (last : path.length + 1 = depth) :
    Tree decode (write memory frame index entry) root depth := by
  intro first second target low high left right
  rw [walk_put_short tree reached last _ low] at left
  rw [walk_put_short tree reached last _ high] at right
  exact tree first second target low high left right

/-- A write to a table of the last level changes one entry. -/
theorem entryAt_put (tree : Tree decode memory root depth)
    (reached : walk decode memory root path = some frame) (last : path.length + 1 = depth)
    (target : List Index) (bounded : target.length + 1 = depth) (position : Index) :
    entryAt decode (write memory frame index entry) root target position =
      if target = path ∧ position = index then
        if (decode entry).isNone then none else some entry
      else entryAt decode memory root target position := by
  unfold entryAt
  rw [walk_put_short tree reached last target (by omega)]
  by_cases same : target = path
  · subst same
    simp only [reached, Option.bind_some, true_and]
    by_cases here : position = index
    · simp [here]
    · simp [write_of_ne_index memory frame here, here]
  · simp only [same, false_and, if_false]
    cases arrived : walk decode memory root target with
    | none => rfl
    | some table =>
        have different : table ≠ frame := by
          rintro rfl
          exact same (tree target path table (by omega) (by omega) arrived reached)
        simp [write_of_ne_frame memory different]

/-- Writing an entry with the property keeps the property. -/
theorem Every.put {good : Entry → Prop} {level : Nat} (every : Every decode good memory root level)
    (tree : Tree decode memory root depth)
    (reached : walk decode memory root path = some frame) (last : path.length + 1 = depth)
    (below : level ≤ depth) (clean : level = depth → good entry) :
    Every decode good (write memory frame index entry) root level := by
  intro target position held
  have before := (holds_put tree reached last below target).mp held
  by_cases same : target = frame
  · subst same
    obtain ⟨walked, short, arrived⟩ := before
    have samePath := tree walked path target (by omega) (by omega) arrived reached
    have deepest : level = depth := by
      rw [samePath] at short
      omega
    by_cases here : position = index
    · subst here
      rw [write_self]
      exact clean deepest
    · rw [write_of_ne_index memory target here]
      exact every target position ⟨walked, short, arrived⟩
  · rw [write_of_ne_frame memory same]
    exact every target position before

/-- A frame outside the tree is emptied without a change to the tables, and an entry that named
nothing is about to name it. -/
structure Linking (decode : Entry → Option Frame) (memory blanked : Frame → Index → Entry)
    (root : Frame) (depth : Nat) (path : List Index) (index : Index) (frame fresh : Frame)
    (entry : Entry) : Prop where
  tree : Tree decode memory root depth
  reached : walk decode memory root path = some frame
  short : path.length + 1 < depth
  missing : decode (memory frame index) = none
  named : decode entry = some fresh
  unheld : ¬ Holds decode memory root depth fresh
  agree : ∀ table, Holds decode memory root depth table → blanked table = memory table
  bare : ∀ position, decode (blanked fresh position) = none

section Link

variable {blanked : Frame → Index → Entry} {fresh : Frame}
  (linking : Linking decode memory blanked root depth path index frame fresh entry)
include linking

omit [DecidableEq Frame] [DecidableEq Index] in
/-- The new table is not the table that points to it. -/
theorem Linking.apart : fresh ≠ frame := by
  have short := linking.short
  rintro rfl
  exact linking.unheld ⟨path, by omega, linking.reached⟩

omit [DecidableEq Frame] [DecidableEq Index] in
/-- Clearing a frame outside the tree keeps the tree. -/
theorem Linking.cleared : Tree decode blanked root depth :=
  linking.tree.agree linking.agree

omit [DecidableEq Frame] [DecidableEq Index] in
/-- The table that gets the link is still reached. -/
theorem Linking.arrived : walk decode blanked root path = some frame := by
  have short := linking.short
  rw [walk_agree linking.agree path (by omega), linking.reached]

/-- The link adds one path to the tree. -/
theorem Linking.walk_eq (target : List Index) (bounded : target.length ≤ depth) :
    walk decode (write blanked frame index entry) root target =
      if target = path ++ [index] then some fresh else walk decode memory root target := by
  have short := linking.short
  by_cases inside : (path ++ [index]) <+: target
  · obtain ⟨rest, rfl⟩ := inside
    rw [walk_append, walk_write_self linking.cleared linking.arrived (by omega), linking.named,
      Option.bind_some]
    cases rest with
    | nil => simp
    | cons next rest =>
        have longer : path ++ [index] ++ next :: rest ≠ path ++ [index] := by simp
        rw [if_neg longer, walk_append, walk_snoc, linking.reached, Option.bind_some, linking.missing]
        simp [walk, write_of_ne_frame blanked linking.apart, linking.bare]
  · rw [walk_write_outside linking.cleared linking.arrived (by omega) target bounded inside,
      walk_agree linking.agree target bounded, if_neg]
    rintro rfl
    exact inside (List.prefix_refl _)

/-- The new table is reached through the link. -/
theorem Linking.walk_fresh :
    walk decode (write blanked frame index entry) root (path ++ [index]) = some fresh := by
  have short := linking.short
  have bounded : (path ++ [index]).length ≤ depth := by
    rw [List.length_append, List.length_singleton]
    omega
  rw [linking.walk_eq _ bounded, if_pos rfl]

/-- The tables are the old ones and the new one below its level. -/
theorem Linking.holds_iff {level : Nat} (below : level ≤ depth) (target : Frame) :
    Holds decode (write blanked frame index entry) root level target ↔
      (path.length + 1 < level ∧ target = fresh) ∨ Holds decode memory root level target := by
  constructor
  · rintro ⟨walked, bounded, arrived⟩
    rw [linking.walk_eq walked (by omega)] at arrived
    split at arrived
    · rename_i same
      rw [same, List.length_append, List.length_singleton] at bounded
      exact Or.inl ⟨bounded, (Option.some.inj arrived).symm⟩
    · exact Or.inr ⟨walked, bounded, arrived⟩
  · rintro (⟨bounded, rfl⟩ | ⟨walked, bounded, arrived⟩)
    · exact ⟨path ++ [index], by simpa using bounded, linking.walk_fresh⟩
    · refine ⟨walked, bounded, ?_⟩
      rw [linking.walk_eq walked (by omega), if_neg, arrived]
      rintro rfl
      simp [linking.reached, linking.missing] at arrived

/-- An entry of the tree is one of the empty frame, the written one or one from before. -/
theorem Linking.entry_cases {walked : List Index} {table : Frame} (bounded : walked.length < depth)
    (arrived : walk decode (write blanked frame index entry) root walked = some table)
    (position : Index) :
    write blanked frame index entry table position = blanked fresh position ∨
    write blanked frame index entry table position = entry ∨
    (walk decode memory root walked = some table ∧
      write blanked frame index entry table position = memory table position) := by
  rw [linking.walk_eq walked bounded.le] at arrived
  split at arrived
  · obtain rfl := Option.some.inj arrived
    rw [write_of_ne_frame blanked linking.apart]
    exact Or.inl rfl
  · apply Or.inr
    rw [← linking.agree table ⟨walked, bounded, arrived⟩]
    by_cases same : table = frame
    · subst same
      by_cases here : position = index
      · rw [here, write_self]
        exact Or.inl rfl
      · rw [write_of_ne_index blanked table here]
        exact Or.inr ⟨arrived, rfl⟩
    · rw [write_of_ne_frame blanked same]
      exact Or.inr ⟨arrived, rfl⟩

/-- Linking an empty table changes no entry of the last level. -/
theorem Linking.entryAt_eq (target : List Index) (bounded : target.length + 1 = depth)
    (position : Index) :
    entryAt decode (write blanked frame index entry) root target position =
      entryAt decode memory root target position := by
  unfold entryAt
  rw [linking.walk_eq target (by omega)]
  split
  · rename_i same
    simp [same, linking.reached, linking.missing, write_of_ne_frame blanked linking.apart, linking.bare]
  · cases arrived : walk decode memory root target with
    | none => rfl
    | some table =>
        have different : table ≠ frame := by
          rintro rfl
          have short := linking.short
          have same := linking.tree target path table (by omega) (by omega) arrived linking.reached
          rw [same] at bounded
          omega
        simp [write_of_ne_frame blanked different, linking.agree table ⟨target, by omega, arrived⟩]

/-- Linking an empty table keeps the tree. -/
theorem Linking.linked : Tree decode (write blanked frame index entry) root depth := by
  intro first second target low high left right
  rw [linking.walk_eq _ (by omega)] at left right
  split at left <;> rename_i firstNew
  · split at right <;> rename_i secondNew
    · rw [firstNew, secondNew]
    · exact absurd ⟨second, high, right.trans left.symm⟩ linking.unheld
  · split at right
    · exact absurd ⟨first, low, left.trans right.symm⟩ linking.unheld
    · exact linking.tree first second target low high left right

/-- Linking an empty table keeps a property of the entries. -/
theorem Linking.every {good : Entry → Prop} {level : Nat} (every : Every decode good memory root level)
    (below : level ≤ depth) (clean : good entry) (empty : ∀ position, good (blanked fresh position)) :
    Every decode good (write blanked frame index entry) root level := by
  rintro target position ⟨walked, bounded, arrived⟩
  rcases linking.entry_cases (by omega) arrived position with same | same | ⟨before, same⟩
  · rw [same]
    exact empty position
  · rw [same]
    exact clean
  · rw [same]
    exact every target position ⟨walked, bounded, before⟩

end Link

variable {leaf : Entry → Bool}

/-- A write is invisible to every translation that does not pass through the written entry. -/
theorem leafAt_write_outside (tree : Tree decode memory root depth)
    (reached : walk decode memory root path = some frame) (short : path.length < depth)
    (walked rest : List Index) {table : Frame}
    (arrived : walk decode memory root walked = some table)
    (bounded : walked.length + rest.length ≤ depth)
    (outside : ¬ (path ++ [index]) <+: (walked ++ rest)) :
    leafAt decode leaf (write memory frame index entry) table rest =
      leafAt decode leaf memory table rest := by
  induction rest generalizing walked table with
  | nil => rfl
  | cons position rest ih =>
      rw [List.length_cons] at bounded
      have same : write memory frame index entry table position = memory table position := by
        by_cases here : table = frame
        · subst here
          have samePath := tree walked path table (by omega) short arrived reached
          have different : position ≠ index := by
            rintro rfl
            apply outside
            rw [samePath]
            exact ⟨rest, by simp⟩
          exact write_of_ne_index memory table different _
        · exact congrFun (write_of_ne_frame memory here _ _) position
      rw [leafAt, leafAt, same]
      cases named : decode (memory table position) with
      | none => rfl
      | some next =>
          have further : walk decode memory root (walked ++ [position]) = some next := by
            rw [walk_snoc, arrived, Option.bind_some, named]
          have length : (walked ++ [position]).length + rest.length ≤ depth := by
            rw [List.length_append, List.length_singleton]
            omega
          have beyond : ¬ (path ++ [index]) <+: (walked ++ [position] ++ rest) := by
            simpa using outside
          simp only [ih (walked ++ [position]) further length beyond]

/-- Linking an empty table changes no leaf. -/
theorem Linking.leafAt_eq {blanked : Frame → Index → Entry} {fresh : Frame}
    (linking : Linking decode memory blanked root depth path index frame fresh entry)
    (empty : ∀ position, leaf (blanked fresh position) = false)
    (small : leaf (memory frame index) = false) (target : List Index) (full : target.length = depth) :
    leafAt decode leaf (write blanked frame index entry) root target =
      leafAt decode leaf memory root target := by
  have short := linking.short
  by_cases inside : (path ++ [index]) <+: target
  · obtain ⟨rest, rfl⟩ := inside
    have kept : walk decode (write blanked frame index entry) root path = some frame := by
      rw [linking.walk_eq path (by omega), if_neg (by simp), linking.reached]
    have more : rest.isEmpty = false := by
      cases rest with
      | nil =>
          rw [List.append_nil, List.length_append, List.length_singleton] at full
          omega
      | cons _ _ => rfl
    rw [List.append_assoc, leafAt_append _ _ _ _ kept _ (by simp),
      leafAt_append _ _ _ _ linking.reached _ (by simp), List.singleton_append, leafAt, leafAt,
      write_self, linking.named, linking.missing]
    simp only [more, Bool.false_eq_true, if_false, small]
    apply leafAt_bare
    intro position
    rw [write_of_ne_frame blanked linking.apart]
    exact ⟨linking.bare position, empty position⟩
  · rw [leafAt_write_outside linking.cleared linking.arrived (by omega) [] target rfl (by simp [full])
      inside]
    exact leafAt_agree linking.agree [] target rfl (by simp [full])

/-- Writing an entry of the last level changes the leaf of its path only. -/
theorem leafAt_put (tree : Tree decode memory root depth)
    (reached : walk decode memory root path = some frame) (last : path.length + 1 = depth)
    {page : Frame} (named : decode entry = some page) (target : List Index)
    (full : target.length = depth) :
    leafAt decode leaf (write memory frame index entry) root target =
      if target = path ++ [index] then some (0, entry) else leafAt decode leaf memory root target := by
  split
  · rename_i same
    have kept : walk decode (write memory frame index entry) root path = some frame := by
      rw [walk_put_short tree reached last path (by omega), reached]
    rw [same, leafAt_append _ _ _ _ kept _ (by simp), leafAt, write_self, named]
    rfl
  · rename_i different
    apply leafAt_write_outside tree reached (by omega) [] target rfl (by simp [full])
    intro inside
    rw [List.nil_append] at inside
    apply different
    refine (inside.eq_of_length ?_).symm
    rw [List.length_append, List.length_singleton]
    omega

end Updates

end ArchaOS.Library.RadixTree
