import ArchaOS.Proof.FileSystem.Growth
import ArchaOS.Proof.FileSystem.Traversal

namespace ArchaOS.FileSystem

open Library

/-- The calls of `create_file_force` that should create the whole path: a new path of ordinary names
that passes no file, its data and a heap with room. -/
structure Forcible (allocator : Allocator) (fs : Fs) (kids : Nat → List Nat) (path : CString)
    (data : Buffer) (size : Nat) : Prop where
  named : pathNames path ≠ []
  ordinary : ∀ name ∈ pathNames path, name ≠ [dot] ∧ name ≠ [dot, dot]
  clear : ¬ PassesFile fs.nodes kids path
  absent : ∀ target, parsePath fs.nodes (some path) ≠ .ok (.ok target)
  given : size ≠ 0 → data.null = false
  roomy : NeverFails allocator

/-- The whole path has been created: its proper prefixes are directories, it leads to a regular file
with the data, and no other node has been made or changed. -/
structure Forced (fs fs' : Fs) (path : CString) (data : Buffer) (size : Nat) (status : FsReturn) :
    Prop where
  done : status = .success
  folders : ∀ front next back, pathNames path = front ++ next :: back → ∃ address folder,
    parsePath fs'.nodes (some (joinPath front)) = .ok (.ok address) ∧
      fs'.nodes.lookup address = some folder ∧ folder.isDirectory
  stored : ∃ target file, parsePath fs'.nodes (some path) = .ok (.ok target) ∧
    fs'.nodes.lookup target = some file ∧ ¬ file.isDirectory ∧ file.size = size ∧
      file.data.getD [] = data.copy size
  kept : ∀ address old, fs.nodes.lookup address = some old →
    ∃ new, fs'.nodes.lookup address = some new ∧ SameContent new old
  only : ∀ address, address ∈ fs'.nodes → address ∈ fs.nodes ∨ ∃ front back,
    pathNames path = front ++ back ∧ parsePath fs'.nodes (some (joinPath front)) = .ok (.ok address)

/-- The nodes have got new directories, and the old ones stand where they did. -/
structure Grows (nodes nodes' : Nodes) : Prop where
  kept : ∀ address old, nodes.lookup address = some old →
    ∃ new, nodes'.lookup address = some new ∧ SameContent new old
  folders : ∀ address new, nodes'.lookup address = some new → address ∈ nodes ∨ new.isDirectory

/-- Every filesystem grows from itself. -/
theorem Grows.refl (nodes : Nodes) : Grows nodes nodes where
  kept := fun _ old found => ⟨old, found, SameContent.refl old⟩
  folders := fun _ _ found => Or.inl (mem_of_lookup found)

/-- A new folder grows the nodes further. -/
theorem Grows.placed {nodes middle nodes' : Nodes} {parent child : Nat} {file : File}
    (grows : Grows nodes middle) (placed : Placed middle nodes' parent child file)
    (folder : file.isDirectory) : Grows nodes nodes' where
  kept := by
    intro address old found
    obtain ⟨new, look, content⟩ := grows.kept address old found
    refine ⟨_, placed.old look, ?_⟩
    split
    · exact ⟨content.parent, content.name, content.flags, content.data, content.size⟩
    · exact content
  folders := by
    intro address new look
    rcases placed.cases look with ⟨_, dir, _, shape⟩ | ⟨_, other, found, shape⟩
    · right
      rw [shape]
      exact folder
    · rcases grows.folders address other found with old | directory
      · exact Or.inl old
      · right
        rw [shape]
        split <;> exact directory

section Growing

variable {nodes nodes' : Nodes} {kids kids' : Nat → List Nat} {depth depth' : Nat → Nat}
  (tree : Tree nodes kids depth) (tree' : Tree nodes' kids' depth') (grows : Grows nodes nodes')
include tree tree' grows

/-- An old node is entered from where it was entered before. -/
theorem Grows.enter_old {current next : Nat} {component : CString} (live : current ∈ nodes')
    (ordinary : component ≠ [dot] ∧ component ≠ [dot, dot])
    (entered : enter nodes' kids' current component = .ok next) (old : next ∈ nodes) :
    current ∈ nodes ∧ enter nodes kids current component = .ok next := by
  obtain ⟨file', found'⟩ := lookup_of_mem live
  obtain ⟨entry, look⟩ := lookup_of_mem old
  obtain ⟨entry', look', content⟩ := grows.kept next entry look
  rcases (tree'.enter_iff found').mp entered with ⟨stay, _⟩ | ⟨up, _⟩ | ⟨member, named⟩
  · exact absurd stay ordinary.1
  · exact absurd up ordinary.2
  · obtain ⟨below, other, otherLook, above⟩ := tree'.parents current live next member
    obtain rfl : entry' = other := Option.some.inj (look'.symm.trans otherLook)
    obtain ⟨parentLive, listed⟩ := tree.listed next entry look below
    have parent : entry.parent = current := content.parent.symm.trans above
    rw [parent] at parentLive listed
    obtain ⟨file, found⟩ := lookup_of_mem parentLive
    refine ⟨parentLive, (tree.enter_iff found).mpr (Or.inr (Or.inr ⟨listed, ?_⟩))⟩
    rw [look, Option.map_some, ← content.name, ← named, look', Option.map_some]

/-- Ordinary names that lead to an old node led to it before. -/
theorem Grows.fold_old {names : List CString} {current target : Nat} (live : current ∈ nodes')
    (ordinary : ∀ name ∈ names, name ≠ [dot] ∧ name ≠ [dot, dot])
    (walked : names.foldlM (enter nodes' kids') current = .ok target) (old : target ∈ nodes) :
    current ∈ nodes ∧ names.foldlM (enter nodes kids) current = .ok target := by
  induction names generalizing current with
  | nil =>
      obtain rfl : current = target := Except.ok.inj walked
      exact ⟨old, rfl⟩
  | cons component rest ih =>
      rw [List.foldlM_cons, bind_eq_ok] at walked
      obtain ⟨next, entered, walked⟩ := walked
      have later : ∀ name ∈ rest, name ≠ [dot] ∧ name ≠ [dot, dot] :=
        fun name member => ordinary name (List.mem_cons_of_mem component member)
      obtain ⟨nextOld, rewalked⟩ := ih (tree'.enter_live live entered) later walked
      obtain ⟨currentOld, reentered⟩ := grows.enter_old tree tree' live
        (ordinary component List.mem_cons_self) entered nextOld
      refine ⟨currentOld, ?_⟩
      rw [List.foldlM_cons, reentered]
      exact rewalked

/-- A new path of ordinary names leads to a folder. -/
theorem Grows.leads_folder {path : CString} {target : Nat} {file : File}
    (ordinary : ∀ name ∈ pathNames path, name ≠ [dot] ∧ name ≠ [dot, dot])
    (absent : ∀ target, parsePath nodes (some path) ≠ .ok (.ok target))
    (parsed : parsePath nodes' (some path) = .ok (.ok target))
    (found : nodes'.lookup target = some file) : file.isDirectory := by
  rcases grows.folders target file found with old | folder
  · rw [tree'.parsePath_resolve, Except.ok.injEq] at parsed
    have walked := (grows.fold_old tree tree' tree'.rootLive ordinary parsed old).2
    exact absurd ((tree.parsePath_resolve path).trans (congrArg Except.ok walked)) (absent target)
  · exact folder

end Growing

/-- A folder that `create_folder` makes, or not, grows the nodes. -/
theorem createFolder_grows (allocator : Allocator) {nodes : Nodes} {fs : Fs} (tree : IsTree fs.nodes)
    (grows : Grows nodes fs.nodes) (path : Option CString) :
    ∃ status fs', createFolder allocator path fs = .ok (status, fs') ∧ IsTree fs'.nodes ∧
      Grows nodes fs'.nodes := by
  obtain ⟨kids, depth, tree⟩ := tree
  obtain ⟨status, fs', result, effect⟩ :=
    createFile_cases allocator tree path ⟨true, fun _ => 0⟩ 0 fsIsDirectory
  refine ⟨status, fs', (createFolder_eq allocator path fs).trans result, ?_⟩
  rcases effect with ⟨_, same⟩ | ⟨_, name, parent, child, _, creates⟩
  · rw [same]
    exact ⟨⟨kids, depth, tree⟩, grows⟩
  · have folder : (newFile (baseName name) ⟨true, fun _ => 0⟩ 0 fsIsDirectory).isDirectory := by
      change fsIsDirectory % 2 ^ 16 &&& fsIsDirectory ≠ 0
      decide
    exact ⟨⟨_, _, creates.tree tree⟩, grows.placed creates.placed folder⟩

/-- The loop of `create_file_force` makes folders only: it never reaches its call of `create_file`,
since the empty rest of the path always leads to the root. -/
theorem forceSteps_grows (allocator : Allocator) (data : Buffer) (size flags : Nat) {nodes : Nodes}
    {bound : Nat} {path : CString} {fs : Fs} (tree : IsTree fs.nodes) (grows : Grows nodes fs.nodes)
    (enough : path.length < bound) :
    ∃ status fs', forceSteps allocator data size flags bound path fs = .ok (status, fs') ∧
      IsTree fs'.nodes ∧ Grows nodes fs'.nodes := by
  induction bound generalizing path fs with
  | zero => exact absurd enough (Nat.not_lt_zero _)
  | succ bound ih =>
      cases path with
      | nil => exact ⟨.success, fs, rfl, tree, grows⟩
      | cons byte rest =>
          have consumed := round_length byte rest
          have shorter : (skipSlashes ((byte :: rest).dropWhile (· ≠ slash))).length < bound := by
            simp only [List.length_cons] at enough
            omega
          rw [forceSteps]
          generalize skipSlashes ((byte :: rest).dropWhile (· ≠ slash)) = left at shorter
          obtain ⟨kids, depth, shape⟩ := tree
          obtain ⟨result, parsed, _⟩ := shape.parsePath_total (some left)
          simp only [bind, Except.bind, parsed]
          cases result with
          | ok target => exact ih ⟨kids, depth, shape⟩ grows shorter
          | error status =>
              have filled : left ≠ [] := by
                intro empty
                have top : parsePath fs.nodes (some []) = .ok (.ok root) := rfl
                rw [empty, top] at parsed
                cases Except.ok.inj parsed
              obtain ⟨made, fs', created, tree', grows'⟩ :=
                createFolder_grows allocator ⟨kids, depth, shape⟩ grows (some left)
              simp only [filled, if_false, created]
              by_cases done : made = .success
              · simp only [done, ne_eq, not_true_eq_false, if_false]
                exact ih tree' grows' shorter
              · simp only [ne_eq, done, not_false_eq_true, if_true]
                exact ⟨.fail, fs', rfl, tree', grows'⟩

/-- `create_file_force` never creates the whole path: no file is made at all. -/
theorem createFileForce_never {allocator : Allocator} {fs : Fs} {kids : Nat → List Nat}
    {depth : Nat → Nat} (tree : Tree fs.nodes kids depth) {path : CString} {data : Buffer} {size : Nat}
    (forcible : Forcible allocator fs kids path data size) :
    ∃ status fs', createFileForce allocator (some path) data size 0 fs = .ok (status, fs') ∧
      ¬ Forced fs fs' path data size status := by
  have shorter := skipSlashes_length path
  have given : ¬ (data.null ∧ size ≠ 0) := fun both => by simp [forcible.given both.2] at both
  obtain ⟨status, fs', result, ⟨kids', depth', tree'⟩, grows⟩ := forceSteps_grows allocator data size 0
    ⟨kids, depth, tree⟩ (Grows.refl fs.nodes) (Nat.lt_succ_of_le shorter)
  refine ⟨status, fs', ?_, ?_⟩
  · rw [createFileForce]
    exact (if_neg given).trans result
  · intro forced
    obtain ⟨target, file, parsed, found, regular, _⟩ := forced.stored
    exact regular (grows.leads_folder tree tree' forcible.ordinary forcible.absent parsed found)

/-- An allocator that counts upwards never fails. -/
theorem bumpAllocator_neverFails : NeverFails bumpAllocator := fun _ _ => ⟨_, rfl⟩

/-- Below a root alone every path of one or two ordinary names can be forced. -/
theorem initFs_forcible (kids : Nat → List Nat) {path : CString} {data : Buffer} {size : Nat}
    (named : pathNames path ≠ [])
    (ordinary : ∀ name ∈ pathNames path, name ≠ [dot] ∧ name ≠ [dot, dot])
    (absent : parsePath initFs.nodes (some path) = .ok (.error .notFound))
    (given : size ≠ 0 → data.null = false) : Forcible bumpAllocator initFs kids path data size where
  named := named
  ordinary := ordinary
  clear := by
    rintro ⟨front, next, back, _, address, file, _, found, plain⟩
    obtain ⟨_, rfl⟩ := initFs_node found
    exact plain (by decide)
  absent := by
    intro target impossible
    cases Except.ok.inj (impossible.symm.trans absent)
  given := given
  roomy := bumpAllocator_neverFails

/-- Forcing the file `a/b` below the root alone leaves the path without a node. -/
theorem createFileForce_fails : ∃ kids depth, Tree initFs.nodes kids depth ∧
    Forcible bumpAllocator initFs kids [97, slash, 98] ⟨false, fun _ => 7⟩ 1 ∧
    ∃ fs', createFileForce bumpAllocator (some [97, slash, 98]) ⟨false, fun _ => 7⟩ 1 0 initFs =
        .ok (.success, fs') ∧
      ¬ Forced initFs fs' [97, slash, 98] ⟨false, fun _ => 7⟩ 1 .success := by
  obtain ⟨kids, depth, tree⟩ := initFs_tree
  refine ⟨kids, depth, tree, initFs_forcible kids (by decide) (by decide) rfl (fun _ => rfl), ?_⟩
  obtain ⟨fs', created, missing⟩ : ∃ fs',
      createFileForce bumpAllocator (some [97, slash, 98]) ⟨false, fun _ => 7⟩ 1 0 initFs =
        .ok (.success, fs') ∧
      parsePath fs'.nodes (some [97, slash, 98]) = .ok (.error .notFound) := ⟨_, rfl, rfl⟩
  refine ⟨fs', created, ?_⟩
  intro forced
  obtain ⟨target, file, parsed, _⟩ := forced.stored
  cases Except.ok.inj (parsed.symm.trans missing)

/-- The path `d/x/y` passes the folder `d`, and nothing stands behind it. -/
theorem sampleFs_forcible {kids : Nat → List Nat} {depth : Nat → Nat}
    (tree : Tree sampleFs.nodes kids depth) :
    Forcible bumpAllocator sampleFs kids [100, slash, 120, slash, 121] ⟨false, fun _ => 7⟩ 2 where
  named := by decide
  ordinary := by decide
  clear := by
    rintro ⟨front, next, back, split, address, file, walked, found, plain⟩
    have folders : ∀ path address file, pathNames path = front →
        parsePath sampleFs.nodes (some path) = .ok (.ok address) →
        sampleFs.nodes.lookup address = some file → file.isDirectory → False := by
      intro path other directory named leads look folder
      rw [tree.parsePath_resolve, Except.ok.injEq, resolve, named, walked] at leads
      obtain rfl := Except.ok.inj leads
      obtain rfl := Option.some.inj (found.symm.trans look)
      exact plain folder
    have names : pathNames [100, slash, 120, slash, 121] = [[100], [120], [121]] := by decide
    rw [names] at split
    cases front with
    | nil => exact folders [] root _ rfl rfl rfl (by decide)
    | cons first front =>
        obtain ⟨rfl, below⟩ := List.cons.inj split
        cases front with
        | nil => exact folders [100] 2 _ (by decide) rfl rfl (by decide)
        | cons second front =>
            obtain ⟨rfl, deeper⟩ := List.cons.inj below
            cases front with
            | nil =>
                have missing : parsePath sampleFs.nodes (some [100, slash, 120]) =
                    .ok (.error .notFound) := rfl
                rw [tree.parsePath_resolve, Except.ok.injEq] at missing
                cases missing.symm.trans walked
            | cons third front => simp at deeper
  absent := by
    intro target impossible
    have missing : parsePath sampleFs.nodes (some [100, slash, 120, slash, 121]) =
        .ok (.error .notFound) := rfl
    cases Except.ok.inj (impossible.symm.trans missing)
  given := fun _ => rfl
  roomy := bumpAllocator_neverFails

/-- A file in two missing folders is forced into the sample. -/
theorem createFileForce_never_sample : ∃ status fs',
    createFileForce bumpAllocator (some [100, slash, 120, slash, 121]) ⟨false, fun _ => 7⟩ 2 0 sampleFs =
        .ok (status, fs') ∧
      ¬ Forced sampleFs fs' [100, slash, 120, slash, 121] ⟨false, fun _ => 7⟩ 2 status := by
  obtain ⟨kids, depth, tree⟩ := sampleFs_tree
  exact createFileForce_never tree (sampleFs_forcible tree)

end ArchaOS.FileSystem
