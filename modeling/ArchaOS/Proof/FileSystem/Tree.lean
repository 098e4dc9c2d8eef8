import ArchaOS.Construction.FileSystem
import Mathlib.Data.List.Perm.Subperm
import Mathlib.Tactic

namespace ArchaOS.FileSystem

/-- The `next` links lead from a pointer through these nodes to the null pointer. -/
def Listed (nodes : Nodes) : Nat → List Nat → Prop
  | first, [] => first = 0
  | first, child :: rest => first = child ∧ child ≠ 0 ∧
      ∃ file, nodes.lookup child = some file ∧ Listed nodes file.next rest

/-- A name that a node below the root can have. -/
def LegalName (name : CString) : Prop :=
  name ≠ [] ∧ slash ∉ name ∧ name ≠ [dot] ∧ name ≠ [dot, dot]

/-- The nodes form a finite tree below the root: `kids` names the nodes of each directory, every
node stands once in the directory that its parent field names, and the depth rises by one from a
directory to its nodes. -/
structure Tree (nodes : Nodes) (kids : Nat → List Nat) (depth : Nat → Nat) : Prop where
  rootNode : ∃ file, nodes.lookup root = some file ∧ file.parent = root ∧ file.isDirectory
  lists : ∀ address file, nodes.lookup address = some file → Listed nodes file.children (kids address)
  once : ∀ address, address ∈ nodes → (kids address).Nodup
  parents : ∀ address, address ∈ nodes → ∀ child ∈ kids address, child ≠ root ∧
    ∃ file, nodes.lookup child = some file ∧ file.parent = address
  listed : ∀ child file, nodes.lookup child = some file → child ≠ root →
    file.parent ∈ nodes ∧ child ∈ kids file.parent
  rises : ∀ address, address ∈ nodes → ∀ child ∈ kids address, depth child = depth address + 1
  directories : ∀ address file, nodes.lookup address = some file → kids address ≠ [] → file.isDirectory
  distinct : ∀ address, address ∈ nodes → (kids address).Pairwise fun left right =>
    (nodes.lookup left).map File.name ≠ (nodes.lookup right).map File.name
  names : ∀ child file, nodes.lookup child = some file → child ≠ root → LegalName file.name

/-- A node is loaded. -/
theorem load_ok {nodes : Nodes} {address : Nat} {file : File}
    (found : nodes.lookup address = some file) : load nodes address = .ok file := by
  rw [load, found]

theorem lookup_of_mem {nodes : Nodes} {address : Nat} (live : address ∈ nodes) :
    ∃ file, nodes.lookup address = some file :=
  Option.isSome_iff_exists.mp (AList.lookup_isSome.mpr live)

theorem mem_of_lookup {nodes : Nodes} {address : Nat} {file : File}
    (found : nodes.lookup address = some file) : address ∈ nodes :=
  AList.lookup_isSome.mp (by rw [found]; rfl)

/-- Every node of a list is in use and has an address. -/
theorem Listed.member {nodes : Nodes} {first : Nat} {list : List Nat} (listed : Listed nodes first list)
    {child : Nat} (member : child ∈ list) : child ≠ 0 ∧ child ∈ nodes := by
  induction list generalizing first with
  | nil => simp at member
  | cons here rest ih =>
      obtain ⟨_, present, file, found, later⟩ := listed
      rcases List.mem_cons.mp member with same | old
      · rw [same]
        exact ⟨present, mem_of_lookup found⟩
      · exact ih later old

/-- A list depends on the `next` links of its nodes alone. -/
theorem Listed.frame {nodes nodes' : Nodes} {first : Nat} {list : List Nat}
    (listed : Listed nodes first list)
    (same : ∀ child ∈ list, ∀ file, nodes.lookup child = some file →
      ∃ file', nodes'.lookup child = some file' ∧ file'.next = file.next) :
    Listed nodes' first list := by
  induction list generalizing first with
  | nil => exact listed
  | cons here rest ih =>
      obtain ⟨address, present, file, found, later⟩ := listed
      obtain ⟨file', found', next⟩ := same here (by simp) file found
      refine ⟨address, present, file', found', ?_⟩
      rw [next]
      exact ih later fun child member => same child (by simp [member])

/-- Siblings that occur once fit into the bound of a walk. -/
theorem Listed.bounded {nodes : Nodes} {first : Nat} {list : List Nat}
    (listed : Listed nodes first list) (once : list.Nodup) : list.length < walkBound nodes := by
  have inside : list ⊆ nodes.keys := fun child member =>
    AList.mem_keys.mp (listed.member member).2
  have few := (once.subperm inside).length_le
  unfold walkBound
  omega

/-- The links determine the list. -/
theorem Listed.unique {nodes : Nodes} {first : Nat} {left right : List Nat}
    (one : Listed nodes first left) (two : Listed nodes first right) : left = right := by
  induction left generalizing first right with
  | nil =>
      cases right with
      | nil => rfl
      | cons child rest =>
          have null : first = 0 := one
          exact absurd (two.1.symm.trans null) two.2.1
  | cons here later ih =>
      obtain ⟨same, present, file, found, one⟩ := one
      cases right with
      | nil =>
          have null : first = 0 := two
          exact absurd (same.symm.trans null) present
      | cons child rest =>
          obtain ⟨same', _, file', found', two⟩ := two
          obtain rfl : here = child := same.symm.trans same'
          rw [found] at found'
          obtain rfl := Option.some.inj found'
          rw [ih one two]

/-- The links from a node of a list lead through a list that is no longer. -/
theorem Listed.later {nodes : Nodes} {first : Nat} {list : List Nat} (listed : Listed nodes first list)
    {child : Nat} (member : child ∈ list) :
    ∃ rest, Listed nodes child rest ∧ rest.length ≤ list.length := by
  induction list generalizing first with
  | nil => simp at member
  | cons here rest ih =>
      rcases List.mem_cons.mp member with same | old
      · rw [same, ← listed.1]
        exact ⟨here :: rest, listed, le_rfl⟩
      · obtain ⟨_, _, file, _, later⟩ := listed
        obtain ⟨behind, tail, short⟩ := ih later old
        exact ⟨behind, tail, by rw [List.length_cons]; omega⟩

/-- A list that ends holds no node twice. -/
theorem Listed.nodup {nodes : Nodes} {first : Nat} {list : List Nat} (listed : Listed nodes first list) :
    list.Nodup := by
  induction list generalizing first with
  | nil => exact List.nodup_nil
  | cons here rest ih =>
      have whole : Listed nodes here (here :: rest) := listed.1 ▸ listed
      obtain ⟨_, _, file, _, later⟩ := listed
      refine List.nodup_cons.mpr ⟨?_, ih later⟩
      intro again
      obtain ⟨behind, tail, short⟩ := later.later again
      rw [tail.unique whole, List.length_cons] at short
      omega

/-- The search returns a listed node of the name, or the null pointer if there is none. -/
theorem searchChildren_spec {nodes : Nodes} {name : CString} {first bound : Nat} {list : List Nat}
    (listed : Listed nodes first list) (enough : list.length < bound) :
    (∃ child ∈ list, searchChildren nodes name bound first = .ok child ∧
      ∃ file, nodes.lookup child = some file ∧ file.name = name) ∨
    (searchChildren nodes name bound first = .ok 0 ∧
      ∀ child ∈ list, ∀ file, nodes.lookup child = some file → file.name ≠ name) := by
  induction list generalizing first bound with
  | nil =>
      cases bound with
      | zero => simp at enough
      | succ bound =>
          have null : first = 0 := listed
          exact Or.inr ⟨by rw [searchChildren, if_pos null], by simp⟩
  | cons here rest ih =>
      cases bound with
      | zero => simp at enough
      | succ bound =>
          obtain ⟨address, present, file, found, later⟩ := listed
          have step : searchChildren nodes name (bound + 1) first =
              if file.name = name then .ok here else searchChildren nodes name bound file.next := by
            rw [address, searchChildren, if_neg present, load_ok found]
            rfl
          by_cases same : file.name = name
          · exact Or.inl ⟨here, by simp, by rw [step, if_pos same], file, found, same⟩
          · rw [step, if_neg same]
            rcases ih later (by simpa using enough) with ⟨child, member, result, match_⟩ | ⟨result, absent⟩
            · exact Or.inl ⟨child, by simp [member], result, match_⟩
            · refine Or.inr ⟨result, ?_⟩
              intro child member file' found'
              rcases List.mem_cons.mp member with old | new
              · rw [old, found] at found'
                rw [← Option.some.inj found']
                exact same
              · exact absent child new file' found'

/-- Skipping slashes makes no path longer. -/
theorem skipSlashes_length (path : CString) : (skipSlashes path).length ≤ path.length :=
  (List.dropWhile_suffix _).length_le

/-- Each round of `parse_path` consumes at least one byte. -/
theorem round_length (byte : UInt8) (rest : CString) :
    (skipSlashes ((byte :: rest).dropWhile (· ≠ slash))).length ≤ rest.length := by
  by_cases same : byte = slash
  · have stay : (byte :: rest).dropWhile (· ≠ slash) = byte :: rest := by simp [same]
    have drop : skipSlashes (byte :: rest) = skipSlashes rest := by simp [skipSlashes, same]
    rw [stay, drop]
    exact skipSlashes_length rest
  · have drop : (byte :: rest).dropWhile (· ≠ slash) = rest.dropWhile (· ≠ slash) := by simp [same]
    rw [drop]
    exact (skipSlashes_length _).trans (List.dropWhile_suffix _).length_le

section Trees

variable {nodes : Nodes} {kids : Nat → List Nat} {depth : Nat → Nat}

/-- The root is a node. -/
theorem Tree.rootLive (tree : Tree nodes kids depth) : root ∈ nodes := by
  obtain ⟨file, found, _⟩ := tree.rootNode
  exact mem_of_lookup found

/-- The parent of a node is a node. -/
theorem Tree.parentLive (tree : Tree nodes kids depth) {address : Nat} {file : File}
    (found : nodes.lookup address = some file) : file.parent ∈ nodes := by
  by_cases top : address = root
  · obtain ⟨rootFile, rootFound, parent, _⟩ := tree.rootNode
    rw [top, rootFound] at found
    rw [← Option.some.inj found, parent]
    exact mem_of_lookup rootFound
  · exact (tree.listed address file found top).1

/-- No node lies at address zero. -/
theorem Tree.nonzero (tree : Tree nodes kids depth) {address : Nat} (live : address ∈ nodes) :
    address ≠ 0 := by
  by_cases top : address = root
  · rw [top]
    decide
  · obtain ⟨file, found⟩ := lookup_of_mem live
    obtain ⟨parentLive, member⟩ := tree.listed address file found top
    obtain ⟨dir, foundDir⟩ := lookup_of_mem parentLive
    exact ((tree.lists file.parent dir foundDir).member member).1

/-- The search of one directory of a tree. -/
theorem Tree.search (tree : Tree nodes kids depth) {address : Nat} {file : File} (name : CString)
    (found : nodes.lookup address = some file) :
    (∃ child ∈ kids address, searchChildren nodes name (walkBound nodes) file.children = .ok child ∧
      ∃ file, nodes.lookup child = some file ∧ file.name = name) ∨
    (searchChildren nodes name (walkBound nodes) file.children = .ok 0 ∧
      ∀ child ∈ kids address, ∀ file, nodes.lookup child = some file → file.name ≠ name) := by
  have listed := tree.lists address file found
  exact searchChildren_spec listed (listed.bounded (tree.once address (mem_of_lookup found)))

/-- The answers that `parse_path` gives on a tree. -/
def Resolved (nodes : Nodes) : Except FsReturn Nat → Prop
  | .ok address => address ∈ nodes
  | .error status => status = .invalidPath ∨ status = .notADir ∨ status = .notFound

/-- `parse_path` ends on a tree, and a successful result is a node of it. -/
theorem Tree.parseSteps_total (tree : Tree nodes kids depth) {bound current : Nat} {path : CString}
    (live : current ∈ nodes) (enough : path.length < bound) :
    ∃ result, parseSteps nodes bound current path = .ok result ∧ Resolved nodes result := by
  induction bound generalizing current path with
  | zero => simp at enough
  | succ bound ih =>
      cases path with
      | nil =>
          exact ⟨.ok current, rfl, live⟩
      | cons byte rest =>
          obtain ⟨file, found⟩ := lookup_of_mem live
          have shorter : (skipSlashes ((byte :: rest).dropWhile (· ≠ slash))).length < bound := by
            have consumed := round_length byte rest
            simp only [List.length_cons] at enough
            omega
          rw [parseSteps]
          split
          · exact ih live shorter
          · split
            · rw [load_ok found]
              exact ih (tree.parentLive found) shorter
            · rw [load_ok found]
              by_cases directory : file.isDirectory
              · rcases tree.search ((byte :: rest).takeWhile (· ≠ slash)) found with
                  ⟨child, member, result, _⟩ | ⟨result, _⟩
                · have childLive := ((tree.lists current file found).member member)
                  obtain ⟨answer, parsed, inside⟩ := ih childLive.2 shorter
                  refine ⟨answer, ?_, inside⟩
                  simp only [bind, Except.bind, directory, not_true_eq_false, if_false, result,
                    childLive.1, parsed]
                · refine ⟨.error .notFound, ?_, Or.inr (Or.inr rfl)⟩
                  simp only [bind, Except.bind, directory, not_true_eq_false, if_false, result, if_true]
                  rfl
              · refine ⟨.error .notADir, ?_, Or.inr (Or.inl rfl)⟩
                simp only [bind, Except.bind, directory, not_false_eq_true, if_true]
                rfl

/-- On a tree `parse_path` returns. -/
theorem Tree.parsePath_total (tree : Tree nodes kids depth) (path : Option CString) :
    ∃ result, parsePath nodes path = .ok result ∧ Resolved nodes result := by
  cases path with
  | none => exact ⟨.error .invalidPath, rfl, Or.inl rfl⟩
  | some path =>
      have shorter := skipSlashes_length path
      exact tree.parseSteps_total tree.rootLive (by omega)

end Trees

end ArchaOS.FileSystem
