import ArchaOS.Library.Outcome
import ArchaOS.Proof.FileSystem.Resolution
import ArchaOS.Proof.FileSystem.TreeRun

namespace ArchaOS.FileSystem

open Library

section Folding

variable {nodes : Nodes} {kids : Nat → List Nat}

/-- A path leads first to the parent path that `create_file` cuts out of it and then to the name. -/
theorem resolve_parent (current : Nat) {path : CString} (nonempty : path ≠ [])
    (unclosed : path.getLast? ≠ some slash) :
    resolve nodes kids current path =
      resolve nodes kids current (parentPath path) >>= fun parent =>
        enter nodes kids parent (baseName path) := by
  obtain ⟨some, plain⟩ := baseName_component nonempty unclosed
  have single (middle : Nat) : resolve nodes kids middle (baseName path) =
      enter nodes kids middle (baseName path) := by
    rw [resolve, pathNames_plain plain some, List.foldlM_cons]
    exact bind_pure _
  cases cut : strrchr slash path with
  | none =>
      have name : baseName path = path := by rw [baseName, cut]
      have here : parentPath path = [dot] := by rw [parentPath, cut]
      have stay : resolve nodes kids current [dot] = .ok current := by
        rw [resolve, pathNames_plain (by decide) (by decide), List.foldlM_cons, enter, if_pos rfl]
        rfl
      rw [here, stay]
      change _ = enter nodes kids current (baseName path)
      rw [← single, name]
  | some index =>
      obtain ⟨before, after, split, length, absent⟩ := strrchr_some cut
      have name : baseName path = after := by
        rw [baseName, cut]
        dsimp only
        rw [split, ← length, List.drop_append]
        simp
      have front : pathNames (parentPath path) = pathNames before := by
        rw [parentPath, cut]
        cases index with
        | zero =>
            rw [List.length_eq_zero_iff.mp length]
            exact pathNames_slash []
        | succ index =>
            change pathNames (path.take (index + 1)) = _
            rw [split, ← length, List.take_append_of_le_length (Nat.le_refl _), List.take_length]
      have whole : resolve nodes kids current path =
          resolve nodes kids current (before ++ slash :: after) := by rw [← split]
      have leading : resolve nodes kids current (parentPath path) = resolve nodes kids current before := by
        rw [resolve, front]
        rfl
      rw [whole, resolve_append, leading, ← name]
      simp only [single]

end Folding

section Placing

variable {nodes nodes' : Nodes} {kids : Nat → List Nat} {depth : Nat → Nat} {parent child : Nat}
  {file : File} {depth' : Nat → Nat} (tree : Tree nodes kids depth)
  (placed : Placed nodes nodes' parent child file)
  (tree' : Tree nodes' (placedKids kids parent child) depth')
include tree placed tree'

/-- What a component led to before it leads to afterwards. -/
theorem Placed.enter_old {current next : Nat} {component : CString} (live : current ∈ nodes)
    (entered : enter nodes kids current component = .ok next) :
    enter nodes' (placedKids kids parent child) current component = .ok next := by
  obtain ⟨entry, found⟩ := lookup_of_mem live
  have up : (if current = parent then { entry with children := child } else entry).parent =
      entry.parent := by split <;> rfl
  rw [tree'.enter_iff (placed.old found), up]
  rcases (tree.enter_iff found).mp entered with stay | above | ⟨member, named⟩
  · exact Or.inl stay
  · exact Or.inr (Or.inl above)
  · refine Or.inr (Or.inr ⟨?_, by rw [placed.name_kept (tree.kid_old placed live member), named]⟩)
    by_cases here : current = parent
    · rw [here, placedKids_parent]
      exact List.mem_cons_of_mem child (here ▸ member)
    · have notNew : current ≠ child := fun same => placed.fresh (same ▸ live)
      rw [placedKids_other here notNew]
      exact member

/-- Every path that resolved resolves to the same node. -/
theorem Placed.resolve_old {current target : Nat} {path : CString} (live : current ∈ nodes)
    (resolved : resolve nodes kids current path = .ok target) :
    resolve nodes' (placedKids kids parent child) current path = .ok target :=
  have step : ∀ state item next, state ∈ nodes → enter nodes kids state item = .ok next →
      enter nodes' (placedKids kids parent child) state item = .ok next ∧ next ∈ nodes :=
    fun _ _ _ inside entered =>
      ⟨placed.enter_old tree tree' inside entered, tree.enter_live inside entered⟩
  (foldlM_transfer step live resolved).1

end Placing

section Creating

variable {fs fs' : Fs} {kids : Nat → List Nat} {depth : Nat → Nat} {path : CString} {data : Buffer}
  {size flags parent child : Nat} (tree : Tree fs.nodes kids depth)
  (creates : Creates fs fs' kids path data size flags parent child)
include tree creates

/-- The path of the parent leads to the parent. -/
theorem Creates.leads : resolve fs.nodes kids root (parentPath path) = .ok parent :=
  Except.ok.inj ((tree.parsePath_resolve (parentPath path)).symm.trans creates.parsed)

/-- The path led to no node before. -/
theorem Creates.absent : parsePath fs.nodes (some path) = .ok (.error .notFound) := by
  obtain ⟨dir, found, _⟩ := creates.placed.directory
  have missing : ∀ other ∈ kids parent,
      (fs.nodes.lookup other).map File.name ≠ some (baseName path) := by
    intro other member
    obtain ⟨_, entry, look, _⟩ := tree.parents parent creates.placed.parentLive other member
    rw [look]
    simpa using creates.unused other member entry look
  rw [tree.parsePath_resolve, resolve_parent root creates.nonempty creates.unclosed,
    creates.leads tree]
  change Except.ok (enter fs.nodes kids parent (baseName path)) = _
  rw [enter_missing found (creates.directory dir found) creates.legal missing]

/-- The path leads to the new node afterwards. -/
theorem Creates.present : parsePath fs'.nodes (some path) = .ok (.ok child) := by
  obtain ⟨dir, found, foundDir, foundChild⟩ := creates.placed.directory
  have enters : enter fs'.nodes (placedKids kids parent child) parent (baseName path) = .ok child := by
    refine ((creates.tree tree).enter_iff foundDir).mpr (Or.inr (Or.inr ⟨?_, ?_⟩))
    · rw [placedKids_parent]
      exact List.mem_cons_self
    · rw [foundChild]
      rfl
  have leads := creates.placed.resolve_old tree (creates.tree tree) tree.rootLive (creates.leads tree)
  rw [(creates.tree tree).parsePath_resolve, resolve_parent root creates.nonempty creates.unclosed,
    leads]
  exact congrArg Except.ok enters

/-- A path that led to a node leads to the same one. -/
theorem Creates.parsed_old {other : Option CString} {target : Nat}
    (parsed : parsePath fs.nodes other = .ok (.ok target)) :
    parsePath fs'.nodes other = .ok (.ok target) := by
  cases other with
  | none => cases parsed
  | some other =>
      rw [tree.parsePath_resolve] at parsed
      rw [(creates.tree tree).parsePath_resolve]
      exact congrArg Except.ok (creates.placed.resolve_old tree (creates.tree tree) tree.rootLive
        (Except.ok.inj parsed))

omit tree

/-- The new node holds the data. -/
theorem Creates.stored (narrow : flags < 2 ^ 16) : ∃ file, fs'.nodes.lookup child = some file ∧
    file.size = size ∧ file.flags = flags ∧ file.children = 0 ∧
    file.data = if size = 0 then none else some (data.copy size) := by
  obtain ⟨dir, _, _, foundChild⟩ := creates.placed.directory
  exact ⟨_, foundChild, rfl, Nat.mod_eq_of_lt narrow, rfl, rfl⟩

/-- The directory lists the new node first, and the others list what they did. -/
theorem Creates.listed {address : Nat} {old : File} (found : fs.nodes.lookup address = some old)
    {list : List Nat} (listed : Listed fs.nodes old.children list) :
    Listed fs'.nodes (if address = parent then { old with children := child } else old).children
      (if address = parent then child :: list else list) := by
  obtain ⟨dir, foundDir, _, foundChild⟩ := creates.placed.directory
  by_cases here : address = parent
  · rw [here, foundDir] at found
    rw [if_pos here, if_pos here]
    refine ⟨rfl, creates.placed.nonzero, _, foundChild, ?_⟩
    rw [Option.some.inj found]
    exact creates.placed.listed listed
  · rw [if_neg here, if_neg here]
    exact creates.placed.listed listed

end Creating

/-- One node with these contents has been added to the nodes, and a path leads to it. -/
structure Adds (fs fs' : Fs) (path : Option CString) (data : Buffer) (size flags child : Nat)
    (file : File) : Prop where
  absent : parsePath fs.nodes path = .ok (.error .notFound)
  present : parsePath fs'.nodes path = .ok (.ok child)
  stored : fs'.nodes.lookup child = some file
  sized : file.size = size
  flagged : file.flags = flags
  empty : file.children = 0
  contents : file.data.getD [] = data.copy size
  fresh : child ∉ fs.nodes
  only : ∀ address, address ∈ fs'.nodes ↔ address = child ∨ address ∈ fs.nodes
  kept : ∀ address old, fs.nodes.lookup address = some old → ∃ new,
    fs'.nodes.lookup address = some new ∧ SameContent new old ∧
    ∀ list, Listed fs.nodes old.children list →
      Listed fs'.nodes new.children (if address = file.parent then child :: list else list)
  paths : ∀ other target, parsePath fs.nodes other = .ok (.ok target) →
    parsePath fs'.nodes other = .ok (.ok target)

section Added

variable {fs fs' : Fs} {kids : Nat → List Nat} {depth : Nat → Nat} {path : CString} {data : Buffer}
  {size flags parent child : Nat} (tree : Tree fs.nodes kids depth)
  (creates : Creates fs fs' kids path data size flags parent child)
include tree creates

/-- The created node is added to the others. -/
theorem Creates.adds {file : File} (narrow : flags < 2 ^ 16)
    (found : fs'.nodes.lookup child = some file) :
    Adds fs fs' (some path) data size flags child file := by
  obtain ⟨other, stored, sized, flagged, empty, block⟩ := creates.stored narrow
  obtain rfl : other = file := Option.some.inj (stored.symm.trans found)
  obtain ⟨_, _, _, foundChild⟩ := creates.placed.directory
  have above : other.parent = parent := congrArg File.parent (Option.some.inj (found.symm.trans foundChild))
  exact {
    absent := creates.absent tree
    present := creates.present tree
    stored := found
    sized := sized
    flagged := flagged
    empty := empty
    contents := by
      rw [block]
      split
      · rename_i none
        simp [none, Buffer.copy]
      · rfl
    fresh := creates.placed.fresh
    only := creates.placed.mem
    kept := fun address old look => ⟨_, creates.placed.old look,
      by split <;> exact ⟨rfl, rfl, rfl, rfl, rfl⟩,
      fun list listed => above ▸ creates.listed look listed⟩
    paths := fun _ _ => creates.parsed_old tree }

/-- A created regular file reads back. -/
theorem Creates.reads_new (narrow : flags < 2 ^ 16) (regular : flags &&& fsIsDirectory = 0)
    (buffer : Buffer) {bufSize : Nat} (fits : size ≤ bufSize) (pointed : size ≠ 0 → buffer.null = false) :
    readFileContent (some path) buffer bufSize fs' = .ok (.success, data.copy size) := by
  obtain ⟨file, found, sized, flagged, _, block⟩ := creates.stored narrow
  have contents := (creates.adds tree narrow found).contents
  have plain : ¬ file.isDirectory := by
    rw [File.isDirectory, flagged]
    exact fun other => other regular
  have somewhere : file.size ≠ 0 → file.data ≠ none := by
    rw [sized, block]
    intro filled
    simp [filled]
  rw [readFileContent_answer (creates.present tree) found,
    readAnswer_whole plain somewhere (sized ▸ fits) (sized ▸ pointed), contents, sized,
    List.take_of_length_le (Nat.le_of_eq (data.copy_length size))]

/-- Every other file reads as it did. -/
theorem Creates.reads_old {other : Option CString} {target : Nat}
    (parsed : parsePath fs.nodes other = .ok (.ok target)) (buffer : Buffer) (bufSize : Nat) :
    readFileContent other buffer bufSize fs' = readFileContent other buffer bufSize fs := by
  obtain ⟨answer, parsed', inside⟩ := tree.parsePath_total other
  rw [parsed] at parsed'
  rw [← Except.ok.inj parsed'] at inside
  obtain ⟨old, look⟩ := lookup_of_mem inside
  rw [readFileContent_answer (creates.parsed_old tree parsed) (creates.placed.old look),
    readFileContent_answer parsed look]
  split <;> rfl

end Added

/-- `create_file` adds exactly one node: the path leads to it and not before, every other node and
path is as it was, and the new file reads back while all others read as they did. -/
theorem createFile_adds_one (allocator : Allocator) {fs fs' : Fs} (tree : IsTree fs.nodes)
    (path : Option CString) (data : Buffer) {size flags : Nat} (narrow : flags < 2 ^ 16)
    (created : createFile allocator path data size flags fs = .ok (.success, fs')) :
    ∃ child file, Adds fs fs' path data size flags child file ∧
      (flags &&& fsIsDirectory = 0 → ∀ buffer bufSize, size ≤ bufSize →
        (size ≠ 0 → buffer.null = false) →
        readFileContent path buffer bufSize fs' = .ok (.success, data.copy size)) ∧
      ∀ other target, parsePath fs.nodes other = .ok (.ok target) → ∀ buffer bufSize,
        readFileContent other buffer bufSize fs' = readFileContent other buffer bufSize fs := by
  obtain ⟨kids, depth, tree⟩ := tree
  obtain ⟨name, parent, child, rfl, creates⟩ := createFile_success tree created
  obtain ⟨file, found, _⟩ := creates.stored narrow
  refine ⟨child, file, creates.adds tree narrow found, ?_, ?_⟩
  · intro regular buffer bufSize fits pointed
    exact creates.reads_new tree narrow regular buffer fits pointed
  · intro other target parsed buffer bufSize
    exact creates.reads_old tree parsed buffer bufSize

/-- The file `d/x` of two bytes joins the folder and the file in `d`, and reads back. -/
theorem createFile_adds_one_sample : ∃ fs' child file,
    Adds sampleFs fs' (some [100, slash, 120]) ⟨false, fun index => (5 + index).toUInt8⟩ 2 0 child file ∧
      readFileContent (some [100, slash, 120]) ⟨false, fun _ => 0⟩ 4 fs' = .ok (.success, [5, 6]) ∧
      readFileContent (some [97]) ⟨false, fun _ => 0⟩ 4 fs' = .ok (.success, [1, 2, 3]) := by
  obtain ⟨fs', created⟩ : ∃ fs', createFile bumpAllocator (some [100, slash, 120])
      ⟨false, fun index => (5 + index).toUInt8⟩ 2 0 sampleFs = .ok (.success, fs') := ⟨_, rfl⟩
  obtain ⟨child, file, adds, read, others⟩ := createFile_adds_one bumpAllocator sampleFs_tree
    (some [100, slash, 120]) ⟨false, fun index => (5 + index).toUInt8⟩ (by decide) created
  obtain ⟨target, present⟩ : ∃ target, parsePath sampleFs.nodes (some [97]) = .ok (.ok target) := ⟨_, rfl⟩
  refine ⟨fs', child, file, adds, read (by decide) _ 4 (by decide) fun _ => rfl, ?_⟩
  exact (others (some [97]) target present ⟨false, fun _ => 0⟩ 4).trans rfl

end ArchaOS.FileSystem
