import ArchaOS.Proof.FileSystem.Tree

namespace ArchaOS.FileSystem

/-- The nodes after a new node has been linked into a directory. -/
structure Placed (nodes nodes' : Nodes) (parent child : Nat) (file : File) : Prop where
  fresh : child ∉ nodes
  nonzero : child ≠ 0
  directory : ∃ dir, nodes.lookup parent = some dir ∧
    nodes'.lookup parent = some { dir with children := child } ∧
    nodes'.lookup child = some { file with parent := parent, next := dir.children }
  others : ∀ address, address ≠ child → address ≠ parent → nodes'.lookup address = nodes.lookup address

/-- A new child that is linked is placed below its parent. -/
theorem linkChild_placed {nodes : Nodes} {parent child : Nat} (file : File) (live : parent ∈ nodes)
    (fresh : child ∉ nodes) (nonzero : child ≠ 0) :
    ∃ nodes', linkChild (nodes.insert child file) parent child = .ok nodes' ∧
      Placed nodes nodes' parent child file := by
  obtain ⟨dir, found⟩ := lookup_of_mem live
  have different : parent ≠ child := fun same => fresh (same ▸ live)
  have here : (nodes.insert child file).lookup child = some file := AList.lookup_insert _
  have there : (nodes.insert child file).lookup parent = some dir := by
    rw [AList.lookup_insert_ne different, found]
  let linked : File := { file with parent := parent, next := dir.children }
  have after : ((nodes.insert child file).insert child linked).lookup parent = some dir := by
    rw [AList.lookup_insert_ne different, there]
  refine ⟨((nodes.insert child file).insert child linked).insert parent { dir with children := child },
    ?_, ⟨fresh, nonzero, ⟨dir, found, AList.lookup_insert _, ?_⟩, ?_⟩⟩
  · simp only [linkChild, load_ok here, load_ok there, bind, Except.bind, pure, Except.pure]
    rw [load_ok after]
  · rw [AList.lookup_insert_ne different.symm, AList.lookup_insert]
  · intro address notChild notParent
    rw [AList.lookup_insert_ne notParent, AList.lookup_insert_ne notChild,
      AList.lookup_insert_ne notChild]

section Placing

variable {nodes nodes' : Nodes} {kids : Nat → List Nat} {depth : Nat → Nat} {parent child : Nat}
  {file : File}

/-- Linking a node changes no field of the old nodes but the children of its directory. -/
theorem Placed.old (placed : Placed nodes nodes' parent child file) {address : Nat} {other : File}
    (found : nodes.lookup address = some other) :
    nodes'.lookup address = some (if address = parent then { other with children := child } else other) := by
  have different : address ≠ child := fun same => placed.fresh (same ▸ mem_of_lookup found)
  by_cases here : address = parent
  · obtain ⟨dir, foundDir, foundDir', _⟩ := placed.directory
    rw [if_pos here]
    rw [here, foundDir] at found
    rw [here, foundDir', Option.some.inj found]
  · rw [if_neg here, placed.others address different here, found]

/-- The nodes are the old ones and the new child. -/
theorem Placed.mem (placed : Placed nodes nodes' parent child file) (address : Nat) :
    address ∈ nodes' ↔ address = child ∨ address ∈ nodes := by
  constructor
  · intro live
    by_cases same : address = child
    · exact Or.inl same
    · right
      by_cases here : address = parent
      · obtain ⟨dir, foundDir, _⟩ := placed.directory
        rw [here]
        exact mem_of_lookup foundDir
      · obtain ⟨other, found⟩ := lookup_of_mem live
        rw [placed.others address same here] at found
        exact mem_of_lookup found
  · intro live
    rcases live with same | old
    · obtain ⟨_, _, _, found⟩ := placed.directory
      rw [same]
      exact mem_of_lookup found
    · obtain ⟨other, found⟩ := lookup_of_mem old
      exact mem_of_lookup (placed.old found)

/-- A node of the new tree is the new node or an old one. -/
theorem Placed.cases (placed : Placed nodes nodes' parent child file) {address : Nat} {found : File}
    (look : nodes'.lookup address = some found) :
    (address = child ∧ ∃ dir, nodes.lookup parent = some dir ∧
      found = { file with parent := parent, next := dir.children }) ∨
    (address ≠ child ∧ ∃ other, nodes.lookup address = some other ∧
      found = if address = parent then { other with children := child } else other) := by
  by_cases same : address = child
  · obtain ⟨dir, foundDir, _, foundChild⟩ := placed.directory
    rw [same, foundChild] at look
    exact Or.inl ⟨same, dir, foundDir, (Option.some.inj look).symm⟩
  · rcases (placed.mem address).mp (mem_of_lookup look) with new | old
    · exact absurd new same
    · obtain ⟨other, foundOther⟩ := lookup_of_mem old
      rw [placed.old foundOther] at look
      exact Or.inr ⟨same, other, foundOther, (Option.some.inj look).symm⟩

/-- A node of the new tree holds what the new file or an old node holds. -/
theorem Placed.contents (placed : Placed nodes nodes' parent child file) {address : Nat} {found : File}
    (look : nodes'.lookup address = some found) : ∃ held,
      (held = file ∨ nodes.lookup address = some held) ∧ found.flags = held.flags ∧
        found.size = held.size ∧ found.data = held.data := by
  rcases placed.cases look with ⟨_, dir, _, shape⟩ | ⟨_, other, foundOther, shape⟩
  · exact ⟨file, Or.inl rfl, by rw [shape], by rw [shape], by rw [shape]⟩
  · refine ⟨other, Or.inr foundOther, ?_⟩
    rw [shape]
    split <;> exact ⟨rfl, rfl, rfl⟩

/-- The children of each directory after a node has been placed. -/
def placedKids (kids : Nat → List Nat) (parent child : Nat) : Nat → List Nat :=
  Function.update (Function.update kids child []) parent (child :: kids parent)

/-- The new child is the first one of its parent. -/
theorem placedKids_parent : placedKids kids parent child parent = child :: kids parent := by
  simp [placedKids]

/-- The new child has no children. -/
theorem placedKids_child (different : child ≠ parent) : placedKids kids parent child child = [] := by
  simp [placedKids, different]

/-- The other nodes keep their children. -/
theorem placedKids_other {address : Nat} (notParent : address ≠ parent) (notChild : address ≠ child) :
    placedKids kids parent child address = kids address := by
  simp [placedKids, notParent, notChild]

/-- The parent is a node. -/
theorem Placed.parentLive (placed : Placed nodes nodes' parent child file) : parent ∈ nodes := by
  obtain ⟨_, found, _⟩ := placed.directory
  exact mem_of_lookup found

/-- The child is not its own parent. -/
theorem Placed.different (placed : Placed nodes nodes' parent child file) : child ≠ parent :=
  fun same => placed.fresh (same ▸ placed.parentLive)

/-- The old nodes keep their names. -/
theorem Placed.name_kept (placed : Placed nodes nodes' parent child file) {address : Nat}
    (notChild : address ≠ child) :
    (nodes'.lookup address).map File.name = (nodes.lookup address).map File.name := by
  by_cases here : address = parent
  · obtain ⟨dir, foundDir, foundDir', _⟩ := placed.directory
    rw [here, foundDir', foundDir]
    rfl
  · rw [placed.others address notChild here]

/-- A list of siblings below another parent stays linked. -/
theorem Placed.listed (placed : Placed nodes nodes' parent child file) {first : Nat} {list : List Nat}
    (listed : Listed nodes first list) : Listed nodes' first list := by
  apply listed.frame
  intro other member found look
  refine ⟨_, placed.old look, ?_⟩
  split <;> rfl

/-- The directory has one more child, the new node has none, and the others have theirs. -/
theorem Placed.kids_cases (placed : Placed nodes nodes' parent child file) (kids : Nat → List Nat)
    {address : Nat} (live : address ∈ nodes') :
    (address = parent ∧ placedKids kids parent child address = child :: kids parent) ∨
      placedKids kids parent child address = [] ∨
      (address ∈ nodes ∧ address ≠ child ∧ placedKids kids parent child address = kids address) := by
  by_cases here : address = parent
  · rw [here]
    exact Or.inl ⟨rfl, placedKids_parent⟩
  · right
    rcases (placed.mem address).mp live with same | old
    · rw [same]
      exact Or.inl (placedKids_child placed.different)
    · have notChild : address ≠ child := fun same => placed.fresh (same ▸ old)
      exact Or.inr ⟨old, notChild, placedKids_other here notChild⟩

/-- The new node stands in no directory of the old tree. -/
theorem Tree.kid_old (tree : Tree nodes kids depth) (placed : Placed nodes nodes' parent child file)
    {address other : Nat} (live : address ∈ nodes) (member : other ∈ kids address) : other ≠ child := by
  intro same
  obtain ⟨_, found, look, _⟩ := tree.parents address live other member
  exact placed.fresh (same ▸ mem_of_lookup look)

/-- The old children of a directory still have it as their parent. -/
theorem Tree.placed_parents (tree : Tree nodes kids depth)
    (placed : Placed nodes nodes' parent child file) {address other : Nat} (live : address ∈ nodes)
    (member : other ∈ kids address) :
    other ≠ root ∧ ∃ found, nodes'.lookup other = some found ∧ found.parent = address := by
  obtain ⟨top, found, look, up⟩ := tree.parents address live other member
  refine ⟨top, _, placed.old look, ?_⟩
  rw [← up]
  split <;> rfl

/-- The old children of a directory still have different names. -/
theorem Tree.placed_distinct (tree : Tree nodes kids depth)
    (placed : Placed nodes nodes' parent child file) {address : Nat} (live : address ∈ nodes) :
    (kids address).Pairwise fun left right =>
      (nodes'.lookup left).map File.name ≠ (nodes'.lookup right).map File.name := by
  apply (tree.distinct address live).imp_of_mem
  intro left right leftMember rightMember apart
  rw [placed.name_kept (tree.kid_old placed live leftMember),
    placed.name_kept (tree.kid_old placed live rightMember)]
  exact apart

/-- A new empty node of a new name extends the tree. -/
theorem Tree.placed (tree : Tree nodes kids depth) (placed : Placed nodes nodes' parent child file)
    (empty : file.children = 0) (legal : LegalName file.name)
    (unused : ∀ other ∈ kids parent, ∀ found, nodes.lookup other = some found → found.name ≠ file.name)
    (directory : ∀ dir, nodes.lookup parent = some dir → dir.isDirectory) :
    Tree nodes' (placedKids kids parent child)
      (Function.update depth child (depth parent + 1)) where
  rootNode := by
    obtain ⟨rootFile, found, top, isDir⟩ := tree.rootNode
    refine ⟨_, placed.old found, ?_, ?_⟩
    · split
      · exact top
      · exact top
    · split
      · exact isDir
      · exact isDir
  lists := by
    obtain ⟨dir, foundDir, _, foundChild⟩ := placed.directory
    intro address found look
    rcases placed.cases look with ⟨same, dir', _, shape⟩ | ⟨notChild, other, foundOther, shape⟩
    · rw [same, placedKids_child placed.different, shape]
      exact empty
    · by_cases here : address = parent
      · rw [here, placedKids_parent, shape, if_pos here]
        exact ⟨rfl, placed.nonzero, _, foundChild, placed.listed (tree.lists parent dir foundDir)⟩
      · rw [placedKids_other here notChild, shape, if_neg here]
        exact placed.listed (tree.lists address other foundOther)
  once := by
    intro address live
    rcases placed.kids_cases kids live with ⟨_, same⟩ | same | ⟨old, _, same⟩
    · rw [same]
      exact List.nodup_cons.mpr ⟨fun member => tree.kid_old placed placed.parentLive member rfl,
        tree.once parent placed.parentLive⟩
    · rw [same]
      exact List.nodup_nil
    · rw [same]
      exact tree.once address old
  parents := by
    obtain ⟨_, _, _, foundChild⟩ := placed.directory
    intro address live other member
    rcases placed.kids_cases kids live with ⟨here, same⟩ | same | ⟨old, _, same⟩
    · rw [same] at member
      rw [here]
      rcases List.mem_cons.mp member with new | old
      · rw [new]
        exact ⟨fun top => placed.fresh (top ▸ tree.rootLive), _, foundChild, rfl⟩
      · exact tree.placed_parents placed placed.parentLive old
    · rw [same] at member
      simp at member
    · rw [same] at member
      exact tree.placed_parents placed old member
  listed := by
    intro address found look top
    rcases placed.cases look with ⟨same, dir', _, shape⟩ | ⟨notChild, other, foundOther, shape⟩
    · rw [shape]
      dsimp only
      rw [placedKids_parent, same]
      exact ⟨(placed.mem parent).mpr (Or.inr placed.parentLive), by simp⟩
    · have up : found.parent = other.parent := by
        rw [shape]
        split <;> rfl
      obtain ⟨live, member⟩ := tree.listed address other foundOther top
      rw [up]
      refine ⟨(placed.mem _).mpr (Or.inr live), ?_⟩
      by_cases here : other.parent = parent
      · rw [here] at member ⊢
        rw [placedKids_parent]
        exact List.mem_cons_of_mem _ member
      · have notNew : other.parent ≠ child := fun same => placed.fresh (same ▸ live)
        rw [placedKids_other here notNew]
        exact member
  rises := by
    intro address live other member
    rcases placed.kids_cases kids live with ⟨here, same⟩ | same | ⟨old, notChild, same⟩
    · rw [same] at member
      rw [here, Function.update_of_ne placed.different.symm]
      rcases List.mem_cons.mp member with new | old
      · rw [new, Function.update_self]
      · rw [Function.update_of_ne (tree.kid_old placed placed.parentLive old)]
        exact tree.rises parent placed.parentLive other old
    · rw [same] at member
      simp at member
    · rw [same] at member
      rw [Function.update_of_ne notChild, Function.update_of_ne (tree.kid_old placed old member)]
      exact tree.rises address old other member
  directories := by
    intro address found look some
    rcases placed.cases look with ⟨same, dir', _, shape⟩ | ⟨notChild, other, foundOther, shape⟩
    · rw [same, placedKids_child placed.different] at some
      exact absurd rfl some
    · have sameFlags : found.isDirectory ↔ other.isDirectory := by
        rw [shape]
        split <;> rfl
      rw [sameFlags]
      by_cases here : address = parent
      · rw [here] at foundOther
        exact directory other foundOther
      · rw [placedKids_other here notChild] at some
        exact tree.directories address other foundOther some
  distinct := by
    obtain ⟨_, _, _, foundChild⟩ := placed.directory
    intro address live
    rcases placed.kids_cases kids live with ⟨_, same⟩ | same | ⟨old, _, same⟩
    · rw [same]
      refine List.pairwise_cons.mpr ⟨?_, tree.placed_distinct placed placed.parentLive⟩
      intro other member
      obtain ⟨_, found, look, _⟩ := tree.parents parent placed.parentLive other member
      rw [placed.name_kept (tree.kid_old placed placed.parentLive member), foundChild, look]
      intro clash
      exact unused other member found look (Option.some.inj clash).symm
    · rw [same]
      exact List.Pairwise.nil
    · rw [same]
      exact tree.placed_distinct placed old
  names := by
    intro address found look top
    rcases placed.cases look with ⟨same, dir', _, shape⟩ | ⟨notChild, other, foundOther, shape⟩
    · rw [shape]
      exact legal
    · have sameName : found.name = other.name := by
        rw [shape]
        split <;> rfl
      rw [sameName]
      exact tree.names address other foundOther top

end Placing

end ArchaOS.FileSystem
