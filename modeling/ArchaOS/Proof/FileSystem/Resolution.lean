import ArchaOS.Library.Outcome
import ArchaOS.Proof.FileSystem.Paths

namespace ArchaOS.FileSystem

open Library

/-- The maximal substrings of a path that are not empty and have no slash. -/
def pathNames (path : CString) : List CString := (path.splitOn slash).filter (· ≠ [])

/-- One component leads from a node to another one. -/
def enter (nodes : Nodes) (kids : Nat → List Nat) (current : Nat) (component : CString) :
    Except FsReturn Nat :=
  if component = [dot] then .ok current
  else
    match nodes.lookup current with
    | none => .error .invalidFs
    | some file =>
        if component = [dot, dot] then .ok file.parent
        else if ¬ file.isDirectory then .error .notADir
        else
          match (kids current).find? fun child =>
            decide ((nodes.lookup child).map File.name = some component) with
          | some child => .ok child
          | none => .error .notFound

/-- The components of a path lead from a node to another one. -/
def resolve (nodes : Nodes) (kids : Nat → List Nat) (current : Nat) (path : CString) :
    Except FsReturn Nat :=
  (pathNames path).foldlM (enter nodes kids) current

@[simp] theorem pathNames_nil : pathNames [] = [] := rfl

/-- A slash separates the components before it from those after it. -/
theorem pathNames_append (first second : CString) :
    pathNames (first ++ slash :: second) = pathNames first ++ pathNames second := by
  rw [pathNames, List.splitOn_append_cons_self, List.filter_append]
  rfl

@[simp] theorem pathNames_slash (path : CString) : pathNames (slash :: path) = pathNames path :=
  pathNames_append [] path

/-- A component without slashes is one name. -/
theorem pathNames_plain {component : CString} (plain : slash ∉ component) (some : component ≠ []) :
    pathNames component = [component] := by
  rw [pathNames, List.splitOn_eq_singleton plain]
  simp [some]

@[simp] theorem pathNames_skipSlashes (path : CString) : pathNames (skipSlashes path) = pathNames path := by
  induction path with
  | nil => rfl
  | cons byte rest ih =>
      by_cases same : byte = slash
      · have skip : skipSlashes (byte :: rest) = skipSlashes rest := by simp [skipSlashes, same]
        rw [skip, ih, same, pathNames_slash]
      · have stay : skipSlashes (byte :: rest) = byte :: rest := by simp [skipSlashes, same]
        rw [stay]

@[simp] theorem pathNames_leading (count : Nat) (path : CString) :
    pathNames (List.replicate count slash ++ path) = pathNames path := by
  induction count with
  | zero => rfl
  | succ count ih => rw [List.replicate_succ, List.cons_append, pathNames_slash, ih]

@[simp] theorem pathNames_trailing (path : CString) (count : Nat) :
    pathNames (path ++ List.replicate count slash) = pathNames path := by
  cases count with
  | zero => rw [List.replicate_zero, List.append_nil]
  | succ count =>
      have none : pathNames (List.replicate count slash) = [] := by
        have bare := pathNames_leading count []
        rwa [List.append_nil] at bare
      rw [List.replicate_succ, pathNames_append, none, List.append_nil]

/-- Repeated slashes count as one. -/
theorem pathNames_repeated (first second : CString) (count : Nat) :
    pathNames (first ++ List.replicate (count + 1) slash ++ second) =
      pathNames (first ++ slash :: second) := by
  rw [List.replicate_succ, List.append_assoc, List.cons_append, pathNames_append, pathNames_leading,
    pathNames_append]

/-- The round of `parse_path` takes the first component of the path. -/
theorem pathNames_round {byte : UInt8} {rest : CString} (first : byte ≠ slash) :
    pathNames (byte :: rest) = (byte :: rest).takeWhile (· ≠ slash) ::
      pathNames (skipSlashes ((byte :: rest).dropWhile (· ≠ slash))) := by
  have plain : slash ∉ (byte :: rest).takeWhile (· ≠ slash) := by
    intro member
    simpa using List.mem_takeWhile_imp member
  have some : (byte :: rest).takeWhile (· ≠ slash) ≠ [] := by simp [first]
  have split := List.takeWhile_append_dropWhile (p := (· ≠ slash)) (l := byte :: rest)
  rw [pathNames_skipSlashes]
  cases tail : (byte :: rest).dropWhile (· ≠ slash) with
  | nil =>
      rw [tail, List.append_nil] at split
      rw [pathNames_nil, ← pathNames_plain plain some, split]
  | cons other others =>
      have separator : other = slash := by
        have head := List.head?_dropWhile_not (fun byte => decide (byte ≠ slash)) (byte :: rest)
        rw [tail] at head
        simpa using head
      rw [tail, separator] at split
      rw [separator, pathNames_slash]
      have whole := pathNames_append ((byte :: rest).takeWhile (· ≠ slash)) others
      rw [split, pathNames_plain plain some] at whole
      exact whole

/-- What is left of a path does not start with a slash. -/
theorem skipSlashes_first (path : CString) : (skipSlashes path).head? ≠ some slash := by
  intro first
  have head := List.head?_dropWhile_not (fun byte => decide (byte = slash)) path
  rw [skipSlashes] at first
  rw [first] at head
  simp at head

section Folding

variable {nodes : Nodes} {kids : Nat → List Nat} {depth : Nat → Nat}

/-- A component leads to the parent or to the child of its name. -/
theorem enter_live {current : Nat} {file : File} {component : CString}
    (found : nodes.lookup current = some file) (ordinary : component ≠ [dot]) :
    enter nodes kids current component =
      if component = [dot, dot] then .ok file.parent
      else if ¬ file.isDirectory then .error .notADir
      else
        match (kids current).find? fun child =>
          decide ((nodes.lookup child).map File.name = some component) with
        | some child => .ok child
        | none => .error .notFound := by
  rw [enter, if_neg ordinary, found]

/-- A legal name leads from a directory to its child of the name. -/
theorem enter_named {current : Nat} {file : File} {component : CString}
    (found : nodes.lookup current = some file) (directory : file.isDirectory)
    (legal : LegalName component) :
    enter nodes kids current component =
      match (kids current).find? fun child =>
        decide ((nodes.lookup child).map File.name = some component) with
      | some child => .ok child
      | none => .error .notFound := by
  rw [enter_live found legal.2.2.1, if_neg legal.2.2.2, if_neg (fun other => other directory)]

/-- A legal name that no child has is not found. -/
theorem enter_missing {current : Nat} {file : File} {component : CString}
    (found : nodes.lookup current = some file) (directory : file.isDirectory)
    (legal : LegalName component)
    (absent : ∀ child ∈ kids current, (nodes.lookup child).map File.name ≠ some component) :
    enter nodes kids current component = .error .notFound := by
  have search : (kids current).find? (fun child =>
      decide ((nodes.lookup child).map File.name = some component)) = none := by
    apply List.find?_eq_none.mpr
    intro child member
    simpa using absent child member
  rw [enter_named found directory legal, search]

/-- A directory has one child of a name. -/
theorem Tree.find_child (tree : Tree nodes kids depth) {current child : Nat} {name : CString}
    (live : current ∈ nodes) (member : child ∈ kids current)
    (named : (nodes.lookup child).map File.name = some name) :
    (kids current).find? (fun child => decide ((nodes.lookup child).map File.name = some name)) =
      some child := by
  cases search : (kids current).find? (fun child =>
      decide ((nodes.lookup child).map File.name = some name)) with
  | none =>
      have missed := List.find?_eq_none.mp search child member
      simp [named] at missed
  | some first =>
      have firstNamed := List.find?_some search
      simp only [decide_eq_true_eq] at firstNamed
      exact congrArg some (tree.sibling_unique live (List.mem_of_find?_eq_some search) member
        (firstNamed.trans named.symm))

/-- The node that a component leads to. -/
theorem Tree.enter_iff (tree : Tree nodes kids depth) {current next : Nat} {file : File}
    {component : CString} (found : nodes.lookup current = some file) :
    enter nodes kids current component = .ok next ↔
      (component = [dot] ∧ next = current) ∨ (component = [dot, dot] ∧ next = file.parent) ∨
        (next ∈ kids current ∧ (nodes.lookup next).map File.name = some component) := by
  constructor
  · intro entered
    by_cases stay : component = [dot]
    · rw [enter, if_pos stay] at entered
      exact Or.inl ⟨stay, (Except.ok.inj entered).symm⟩
    · rw [enter_live found stay] at entered
      by_cases up : component = [dot, dot]
      · rw [if_pos up] at entered
        exact Or.inr (Or.inl ⟨up, (Except.ok.inj entered).symm⟩)
      · rw [if_neg up] at entered
        by_cases directory : file.isDirectory
        · rw [if_neg (fun other => other directory)] at entered
          cases search : (kids current).find? (fun child =>
              decide ((nodes.lookup child).map File.name = some component)) with
          | none =>
              rw [search] at entered
              cases entered
          | some child =>
              rw [search] at entered
              obtain rfl := Except.ok.inj entered
              have named := List.find?_some search
              rw [decide_eq_true_eq] at named
              exact Or.inr (Or.inr ⟨List.mem_of_find?_eq_some search, named⟩)
        · rw [if_pos directory] at entered
          cases entered
  · intro leads
    rcases leads with ⟨stay, rfl⟩ | ⟨up, rfl⟩ | ⟨member, named⟩
    · rw [enter, if_pos stay]
    · rw [enter_live found (by rw [up]; decide), if_pos up]
    · obtain ⟨below, entry, look, _⟩ := tree.parents current (mem_of_lookup found) next member
      have legal : LegalName component := by
        rw [look] at named
        exact Option.some.inj named ▸ tree.names next entry look below
      have directory := tree.directories current file found (List.ne_nil_of_mem member)
      rw [enter_named found directory legal, tree.find_child (mem_of_lookup found) member named]

/-- One component leads from a node of the tree to a node of it. -/
theorem Tree.enter_live (tree : Tree nodes kids depth) {current next : Nat} {component : CString}
    (live : current ∈ nodes) (entered : enter nodes kids current component = .ok next) :
    next ∈ nodes := by
  obtain ⟨file, found⟩ := lookup_of_mem live
  rcases (tree.enter_iff found).mp entered with ⟨_, rfl⟩ | ⟨_, rfl⟩ | ⟨member, _⟩
  · exact live
  · exact tree.parentLive found
  · obtain ⟨_, entry, look, _⟩ := tree.parents current live next member
    exact mem_of_lookup look

/-- The search of a directory finds the child of exactly the name. -/
theorem Tree.search_find (tree : Tree nodes kids depth) {current : Nat} {file : File}
    (name : CString) (found : nodes.lookup current = some file) :
    (∃ child, searchChildren nodes name (walkBound nodes) file.children = .ok child ∧ child ≠ 0 ∧
      child ∈ nodes ∧ (kids current).find? (fun child =>
        decide ((nodes.lookup child).map File.name = some name)) = some child) ∨
    (searchChildren nodes name (walkBound nodes) file.children = .ok 0 ∧
      (kids current).find? (fun child =>
        decide ((nodes.lookup child).map File.name = some name)) = none) := by
  have live := mem_of_lookup found
  rcases tree.search name found with ⟨child, member, result, entry, look, named⟩ | ⟨result, absent⟩
  · have listed := (tree.lists current file found).member member
    refine Or.inl ⟨child, result, listed.1, listed.2, tree.find_child live member ?_⟩
    rw [look, Option.map_some, named]
  · refine Or.inr ⟨result, List.find?_eq_none.mpr ?_⟩
    intro child member
    obtain ⟨_, entry, look, _⟩ := tree.parents current live child member
    rw [look]
    simpa using absent child member entry look

/-- The main loop of `parse_path` folds the components. -/
theorem Tree.parseSteps_resolve (tree : Tree nodes kids depth) {bound current : Nat} {path : CString}
    (live : current ∈ nodes) (first : path.head? ≠ some slash) (enough : path.length < bound) :
    parseSteps nodes bound current path = .ok (resolve nodes kids current path) := by
  induction bound generalizing current path with
  | zero => simp at enough
  | succ bound ih =>
      cases path with
      | nil => rfl
      | cons byte rest =>
          obtain ⟨file, found⟩ := lookup_of_mem live
          have ordinary : byte ≠ slash := fun same => first (by rw [same]; rfl)
          have shorter : (skipSlashes ((byte :: rest).dropWhile (· ≠ slash))).length < bound := by
            have consumed := round_length byte rest
            simp only [List.length_cons] at enough
            omega
          have later (child : Nat) (childLive : child ∈ nodes) :
              parseSteps nodes bound child (skipSlashes ((byte :: rest).dropWhile (· ≠ slash))) =
                .ok ((pathNames (skipSlashes ((byte :: rest).dropWhile (· ≠ slash)))).foldlM
                  (enter nodes kids) child) := ih childLive (skipSlashes_first _) shorter
          rw [resolve, pathNames_round ordinary, parseSteps, List.foldlM_cons]
          generalize pathNames (skipSlashes ((byte :: rest).dropWhile (· ≠ slash))) = names at later ⊢
          generalize skipSlashes ((byte :: rest).dropWhile (· ≠ slash)) = left at later ⊢
          generalize (byte :: rest).takeWhile (· ≠ slash) = component
          by_cases stay : component = [dot]
          · rw [if_pos stay, enter, if_pos stay]
            exact later current live
          · rw [if_neg stay, FileSystem.enter_live found stay, load_ok found]
            by_cases up : component = [dot, dot]
            · rw [if_pos up, if_pos up]
              exact later file.parent (tree.parentLive found)
            · rw [if_neg up, if_neg up]
              by_cases directory : file.isDirectory
              · rcases tree.search_find component found with
                  ⟨child, result, present, childLive, search⟩ | ⟨result, search⟩
                · simp only [bind, Except.bind, directory, not_true_eq_false, if_false, result, present,
                    search]
                  exact later child childLive
                · simp only [bind, Except.bind, directory, not_true_eq_false, if_false, result, search,
                    if_true]
                  rfl
              · simp only [bind, Except.bind, directory, not_false_eq_true, if_true]
                rfl

/-- `parse_path` is resolution from the root, component by component. -/
theorem Tree.parsePath_resolve (tree : Tree nodes kids depth) (path : CString) :
    parsePath nodes (some path) = .ok (resolve nodes kids root path) := by
  have shorter := skipSlashes_length path
  rw [parsePath, tree.parseSteps_resolve tree.rootLive (skipSlashes_first path) (by omega), resolve,
    pathNames_skipSlashes]
  rfl

/-- A path behind another one resolves from the node that the first one resolves to. -/
theorem resolve_append (current : Nat) (first second : CString) :
    resolve nodes kids current (first ++ slash :: second) =
      resolve nodes kids current first >>= fun middle => resolve nodes kids middle second := by
  rw [resolve, pathNames_append, List.foldlM_append]
  rfl

end Folding

end ArchaOS.FileSystem
