import ArchaOS.Proof.FileSystem.Operations
import Mathlib.Data.List.TakeWhile

namespace ArchaOS.FileSystem

/-- The path with these components. -/
def joinPath : List CString → CString
  | [] => []
  | [component] => component
  | component :: next :: rest => component ++ slash :: joinPath (next :: rest)

/-- A path starts with its first component. -/
theorem joinPath_cons (component : CString) {rest : List CString} (more : rest ≠ []) :
    joinPath (component :: rest) = component ++ slash :: joinPath rest := by
  cases rest with
  | nil => exact absurd rfl more
  | cons next others => rfl

/-- A path ends with its last component. -/
theorem joinPath_snoc {front : List CString} (name : CString) (more : front ≠ []) :
    joinPath (front ++ [name]) = joinPath front ++ slash :: name := by
  induction front with
  | nil => exact absurd rfl more
  | cons component rest ih =>
      cases rest with
      | nil => rfl
      | cons next others =>
          have longer : joinPath (component :: (next :: others ++ [name])) =
              component ++ slash :: joinPath (next :: others ++ [name]) := joinPath_cons _ (by simp)
          rw [List.cons_append, longer, ih (by simp), joinPath_cons component (by simp),
            List.append_assoc]
          rfl

/-- The first component of a path ends at the first slash. -/
theorem takeWhile_component {component rest : CString} (plain : slash ∉ component) :
    (component ++ slash :: rest).takeWhile (· ≠ slash) = component ∧
      (component ++ slash :: rest).dropWhile (· ≠ slash) = slash :: rest := by
  induction component with
  | nil => simp
  | cons byte tail ih =>
      simp only [List.mem_cons, not_or] at plain
      have parts := ih plain.2
      rw [List.cons_append, List.takeWhile_cons_of_pos (by simp [Ne.symm plain.1]),
        List.dropWhile_cons_of_pos (by simp [Ne.symm plain.1]), parts.1]
      exact ⟨rfl, parts.2⟩

/-- A component without slashes is taken whole. -/
theorem takeWhile_whole {component : CString} (plain : slash ∉ component) :
    component.takeWhile (· ≠ slash) = component ∧ component.dropWhile (· ≠ slash) = [] := by
  have all : ∀ byte ∈ component, decide (byte ≠ slash) = true := by
    intro byte member
    simp only [decide_eq_true_eq]
    exact fun same => plain (same ▸ member)
  exact ⟨List.takeWhile_eq_self_iff.mpr all, List.dropWhile_eq_nil_iff.mpr all⟩

/-- A path of legal components starts with no slash. -/
theorem skipSlashes_slashes {path : List CString} (legal : ∀ component ∈ path, LegalName component)
    (more : path ≠ []) (count : Nat) :
    skipSlashes (joinPath path ++ List.replicate count slash) =
      joinPath path ++ List.replicate count slash := by
  cases path with
  | nil => exact absurd rfl more
  | cons component rest =>
      obtain ⟨nonempty, plain, _⟩ := legal component (by simp)
      cases component with
      | nil => exact absurd rfl nonempty
      | cons byte tail =>
          have first : byte ≠ slash := fun same => plain (by simp [same])
          cases rest with
          | nil => simp [joinPath, skipSlashes, first]
          | cons next others => simp [joinPath, skipSlashes, first]

/-- A joined path does not start with a slash. -/
theorem skipSlashes_join {path : List CString} (legal : ∀ component ∈ path, LegalName component) :
    skipSlashes (joinPath path) = joinPath path := by
  by_cases top : path = []
  · subst top
    rfl
  · have whole := skipSlashes_slashes legal top 0
    rwa [List.replicate_zero, List.append_nil] at whole

/-- The walk of `parse_path` along components. -/
def walk (nodes : Nodes) (current : Nat) : List CString → Outcome (Except FsReturn Nat)
  | [] => .ok (.ok current)
  | component :: rest => do
      let file ← load nodes current
      if ¬ file.isDirectory then
        return .error .notADir
      let child ← searchChildren nodes component (walkBound nodes) file.children
      if child = 0 then
        return .error .notFound
      walk nodes child rest

/-- A text of slashes is skipped. -/
theorem skipSlashes_replicate (count : Nat) : skipSlashes (List.replicate count slash) = [] := by
  rw [skipSlashes, List.dropWhile_eq_nil_iff]
  intro byte member
  simp [List.eq_of_mem_replicate member]

/-- The first component of a path and what is left behind it, in front of trailing slashes. -/
theorem component_slashes {component : CString} {rest : List CString}
    (legal : ∀ other ∈ component :: rest, LegalName other) (count : Nat) :
    (joinPath (component :: rest) ++ List.replicate count slash).takeWhile (· ≠ slash) = component ∧
      skipSlashes ((joinPath (component :: rest) ++ List.replicate count slash).dropWhile (· ≠ slash)) =
        if rest = [] then [] else joinPath rest ++ List.replicate count slash := by
  obtain ⟨_, plain, _⟩ := legal component (by simp)
  have legalRest : ∀ other ∈ rest, LegalName other := fun other member => legal other (by simp [member])
  cases rest with
  | nil =>
      cases count with
      | zero =>
          have whole : joinPath [component] ++ List.replicate 0 slash = component := by simp [joinPath]
          rw [whole, (takeWhile_whole plain).1, (takeWhile_whole plain).2]
          exact ⟨rfl, rfl⟩
      | succ count =>
          have whole : joinPath [component] ++ List.replicate (count + 1) slash =
              component ++ slash :: List.replicate count slash := by
            simp [joinPath, List.replicate_succ]
          rw [whole, (takeWhile_component plain).1, (takeWhile_component plain).2, if_pos rfl,
            ← List.replicate_succ]
          exact ⟨rfl, skipSlashes_replicate (count + 1)⟩
  | cons next others =>
      have whole : joinPath (component :: next :: others) ++ List.replicate count slash =
          component ++ slash :: (joinPath (next :: others) ++ List.replicate count slash) := by
        rw [joinPath, List.append_assoc, List.cons_append]
      rw [whole, (takeWhile_component plain).1, (takeWhile_component plain).2, if_neg (by simp)]
      refine ⟨rfl, ?_⟩
      have drop : skipSlashes (slash :: (joinPath (next :: others) ++ List.replicate count slash)) =
          skipSlashes (joinPath (next :: others) ++ List.replicate count slash) := by
        simp [skipSlashes]
      rw [drop]
      exact skipSlashes_slashes legalRest (by simp) count

/-- `parse_path` on a path of legal components walks along them; trailing slashes do not matter. -/
theorem parseSteps_slashes {nodes : Nodes} {bound current : Nat} {path : List CString}
    (legal : ∀ component ∈ path, LegalName component) (more : path ≠ []) (count : Nat)
    (enough : (joinPath path ++ List.replicate count slash).length < bound) :
    parseSteps nodes bound current (joinPath path ++ List.replicate count slash) =
      walk nodes current path := by
  induction path generalizing bound current with
  | nil => exact absurd rfl more
  | cons component rest ih =>
      obtain ⟨nonempty, plain, notDot, notDots⟩ := legal component (by simp)
      have legalRest : ∀ other ∈ rest, LegalName other := fun other member => legal other (by simp [member])
      have parts := component_slashes legal count
      cases bound with
      | zero => simp at enough
      | succ bound =>
          cases whole : joinPath (component :: rest) ++ List.replicate count slash with
          | nil =>
              rw [whole] at parts
              exact absurd parts.1.symm nonempty
          | cons byte tail =>
              have shorter := round_length byte tail
              rw [whole] at parts enough
              rw [parts.2] at shorter
              have next (child : Nat) : parseSteps nodes bound child
                  (if rest = [] then [] else joinPath rest ++ List.replicate count slash) =
                    walk nodes child rest := by
                by_cases last : rest = []
                · rw [if_pos last, last]
                  cases bound with
                  | zero => simp at enough
                  | succ bound => rfl
                · rw [if_neg last] at shorter ⊢
                  exact ih legalRest last (by simp only [List.length_cons] at enough; omega)
              rw [parseSteps, walk, parts.1, parts.2]
              simp only [notDot, if_false, notDots, next]

/-- Slashes at the end of a path do not matter. -/
theorem parsePath_slashes {nodes : Nodes} {path : List CString}
    (legal : ∀ component ∈ path, LegalName component) (more : path ≠ []) (count : Nat) :
    parsePath nodes (some (joinPath path ++ List.replicate count slash)) = walk nodes root path := by
  rw [parsePath, skipSlashes_slashes legal more]
  exact parseSteps_slashes legal more count (Nat.lt_succ_self _)

/-- `parse_path` walks along the components. -/
theorem parsePath_join {nodes : Nodes} {path : List CString}
    (legal : ∀ component ∈ path, LegalName component) :
    parsePath nodes (some (joinPath path)) = walk nodes root path := by
  by_cases top : path = []
  · subst top
    rfl
  · have whole := @parsePath_slashes nodes path legal top 0
    rwa [List.replicate_zero, List.append_nil] at whole

/-- The path of a node, last component first, along the parent fields. -/
def Above (nodes : Nodes) : List CString → Nat → Prop
  | [], address => address = root
  | name :: rest, address => address ≠ root ∧
      ∃ file, nodes.lookup address = some file ∧ file.name = name ∧ Above nodes rest file.parent

/-- A node stands at a path. -/
def At (nodes : Nodes) (path : List CString) (address : Nat) : Prop := Above nodes path.reverse address

theorem at_nil (nodes : Nodes) (address : Nat) : At nodes [] address ↔ address = root := Iff.rfl

/-- A node is at a path when its parent is at the front of the path. -/
theorem at_snoc (nodes : Nodes) (path : List CString) (name : CString) (address : Nat) :
    At nodes (path ++ [name]) address ↔ address ≠ root ∧
      ∃ file, nodes.lookup address = some file ∧ file.name = name ∧ At nodes path file.parent := by
  rw [At, List.reverse_append, List.reverse_singleton, List.singleton_append]
  rfl

section Walking

variable {nodes : Nodes} {kids : Nat → List Nat} {depth : Nat → Nat}

/-- A node stands at one path only. -/
theorem at_path_unique {left right : List CString} {address : Nat} (one : At nodes left address)
    (two : At nodes right address) : left = right := by
  induction left using List.reverseRecOn generalizing right address with
  | nil =>
      rcases right.eq_nil_or_concat with nil | ⟨front, name, same⟩
      · exact nil.symm
      · rw [List.concat_eq_append] at same
        subst same
        exact absurd one ((at_snoc _ _ _ _).mp two).1
  | append_singleton front name ih =>
      obtain ⟨below, file, found, named, up⟩ := (at_snoc _ _ _ _).mp one
      rcases right.eq_nil_or_concat with nil | ⟨other, last, same⟩
      · subst nil
        exact absurd two below
      · rw [List.concat_eq_append] at same
        subst same
        obtain ⟨_, file', found', named', up'⟩ := (at_snoc _ _ _ _).mp two
        rw [found] at found'
        rw [← Option.some.inj found'] at named' up'
        rw [ih up up', ← named, ← named']

/-- Two nodes of one directory have different names. -/
theorem Tree.sibling_unique (tree : Tree nodes kids depth) {parent left right : Nat}
    (live : parent ∈ nodes) (leftKid : left ∈ kids parent) (rightKid : right ∈ kids parent)
    (same : (nodes.lookup left).map File.name = (nodes.lookup right).map File.name) : left = right := by
  by_contra different
  have : Std.Symm fun one two : Nat =>
      (nodes.lookup one).map File.name ≠ (nodes.lookup two).map File.name := ⟨fun _ _ apart => apart.symm⟩
  exact (tree.distinct parent live).forall leftKid rightKid different same

/-- A path leads to one node only. -/
theorem Tree.at_unique (tree : Tree nodes kids depth) {path : List CString} {left right : Nat}
    (one : At nodes path left) (two : At nodes path right) : left = right := by
  induction path using List.reverseRecOn generalizing left right with
  | nil => exact one.trans two.symm
  | append_singleton front name ih =>
      obtain ⟨belowLeft, leftFile, leftFound, leftName, leftUp⟩ := (at_snoc _ _ _ _).mp one
      obtain ⟨belowRight, rightFile, rightFound, rightName, rightUp⟩ := (at_snoc _ _ _ _).mp two
      have parents := ih leftUp rightUp
      obtain ⟨live, leftKid⟩ := tree.listed left leftFile leftFound belowLeft
      obtain ⟨_, rightKid⟩ := tree.listed right rightFile rightFound belowRight
      rw [← parents] at rightKid
      apply tree.sibling_unique live leftKid rightKid
      rw [leftFound, rightFound, Option.map_some, Option.map_some, leftName, rightName]

/-- Every node of a tree stands at a path. -/
theorem Tree.at_exists (tree : Tree nodes kids depth) {address : Nat} (live : address ∈ nodes) :
    ∃ path, At nodes path address := by
  induction rank : depth address using Nat.strong_induction_on generalizing address with
  | _ rank ih =>
      by_cases top : address = root
      · exact ⟨[], top⟩
      · obtain ⟨file, found⟩ := lookup_of_mem live
        obtain ⟨parentLive, member⟩ := tree.listed address file found top
        have rises := tree.rises file.parent parentLive address member
        obtain ⟨path, up⟩ := ih (depth file.parent) (by omega) parentLive rfl
        exact ⟨path ++ [file.name], (at_snoc _ _ _ _).mpr ⟨top, file, found, rfl, up⟩⟩

/-- What is at a path is a node. -/
theorem Tree.at_live (tree : Tree nodes kids depth) {path : List CString} {address : Nat}
    (here : At nodes path address) : address ∈ nodes := by
  rcases path.eq_nil_or_concat with nil | ⟨front, name, same⟩
  · subst nil
    have top : address = root := here
    rw [top]
    exact tree.rootLive
  · rw [List.concat_eq_append] at same
    subst same
    obtain ⟨_, file, found, _⟩ := (at_snoc _ _ _ _).mp here
    exact mem_of_lookup found

/-- A child of a directory stands at the longer path. -/
theorem Tree.at_child (tree : Tree nodes kids depth) {path : List CString} {parent child : Nat}
    {file : File} (here : At nodes path parent) (live : parent ∈ nodes) (member : child ∈ kids parent)
    (found : nodes.lookup child = some file) : At nodes (path ++ [file.name]) child := by
  obtain ⟨top, file', found', up⟩ := tree.parents parent live child member
  rw [found] at found'
  rw [← Option.some.inj found'] at up
  exact (at_snoc _ _ _ _).mpr ⟨top, file, found, rfl, by rw [up]; exact here⟩

/-- No node stands at the longer path when the directory has no child of the name. -/
theorem Tree.at_absent (tree : Tree nodes kids depth) {path : List CString} {name : CString}
    {parent : Nat} (here : At nodes path parent)
    (unused : ∀ child ∈ kids parent, ∀ file, nodes.lookup child = some file → file.name ≠ name)
    (child : Nat) : ¬ At nodes (path ++ [name]) child := by
  intro there
  obtain ⟨top, file, found, named, up⟩ := (at_snoc _ _ _ _).mp there
  have member := (tree.listed child file found top).2
  rw [tree.at_unique up here] at member
  exact unused child member file found named

/-- The search of a directory finds the node at the longer path. -/
theorem Tree.search_at (tree : Tree nodes kids depth) {path : List CString} {parent : Nat} {dir : File}
    (name : CString) (here : At nodes path parent) (found : nodes.lookup parent = some dir) :
    (∃ child, searchChildren nodes name (walkBound nodes) dir.children = .ok child ∧ child ≠ 0 ∧
      At nodes (path ++ [name]) child) ∨
    (searchChildren nodes name (walkBound nodes) dir.children = .ok 0 ∧
      ∀ child, ¬ At nodes (path ++ [name]) child) := by
  rcases tree.search name found with ⟨child, member, result, file, foundChild, rfl⟩ | ⟨result, absent⟩
  · exact Or.inl ⟨child, result, ((tree.lists parent dir found).member member).1,
      tree.at_child here (mem_of_lookup found) member foundChild⟩
  · exact Or.inr ⟨result, tree.at_absent here absent⟩

/-- A node with a node below it is a directory. -/
theorem Tree.at_directory (tree : Tree nodes kids depth) {path : List CString} {name : CString}
    {parent child : Nat} {dir : File} (here : At nodes path parent)
    (below : At nodes (path ++ [name]) child) (found : nodes.lookup parent = some dir) :
    dir.isDirectory := by
  obtain ⟨top, file, foundChild, _, up⟩ := (at_snoc _ _ _ _).mp below
  have same := tree.at_unique up here
  have member := (tree.listed child file foundChild top).2
  rw [same] at member
  exact tree.directories parent dir found (List.ne_nil_of_mem member)

/-- The node above a node at a longer path. -/
theorem at_prefix {front back : List CString} {address : Nat} (here : At nodes (front ++ back) address) :
    ∃ ancestor, At nodes front ancestor := by
  induction back using List.reverseRecOn generalizing address with
  | nil => exact ⟨address, by simpa using here⟩
  | append_singleton middle name ih =>
      rw [← List.append_assoc] at here
      obtain ⟨_, file, _, _, up⟩ := (at_snoc _ _ _ _).mp here
      exact ih up

/-- The walk along components reaches the node at the longer path. -/
theorem Tree.walk_at (tree : Tree nodes kids depth) {path rest : List CString} {current target : Nat}
    (here : At nodes path current) (there : At nodes (path ++ rest) target) :
    walk nodes current rest = .ok (.ok target) := by
  induction rest generalizing path current with
  | nil =>
      rw [List.append_nil] at there
      rw [tree.at_unique here there]
      rfl
  | cons name rest ih =>
      have shifted : At nodes ((path ++ [name]) ++ rest) target := by simpa using there
      obtain ⟨child, childAt⟩ := at_prefix shifted
      obtain ⟨dir, found⟩ := lookup_of_mem (tree.at_live here)
      have directory := tree.at_directory here childAt found
      rcases tree.search_at name here found with ⟨other, result, nonzero, otherAt⟩ | ⟨_, absent⟩
      · have next := ih otherAt shifted
        simp only [walk, load_ok found, bind, Except.bind, directory, not_true_eq_false, if_false, result,
          nonzero]
        exact next
      · exact absurd childAt (absent child)

/-- `parse_path` finds the node at a path. -/
theorem Tree.parsePath_at (tree : Tree nodes kids depth) {path : List CString} {target : Nat}
    (legal : ∀ component ∈ path, LegalName component) (there : At nodes path target) :
    parsePath nodes (some (joinPath path)) = .ok (.ok target) := by
  rw [parsePath_join legal]
  have top : At nodes [] root := (at_nil _ _).mpr rfl
  exact tree.walk_at top there

end Walking

end ArchaOS.FileSystem
