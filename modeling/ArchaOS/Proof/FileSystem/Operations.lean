import ArchaOS.Proof.FileSystem.Edits
import ArchaOS.Proof.FileSystem.Removal

namespace ArchaOS.FileSystem

def IsTree (nodes : Nodes) : Prop := ∃ kids depth, Tree nodes kids depth

/-- A byte that is not found does not occur. -/
theorem strrchr_none {target : UInt8} {text : CString} (result : strrchr target text = none) :
    target ∉ text := by
  induction text with
  | nil => simp
  | cons byte rest ih =>
      rw [strrchr] at result
      cases later : strrchr target rest with
      | some index => simp [later] at result
      | none =>
          rw [later] at result
          by_cases same : byte = target
          · simp [same] at result
          · simp [ih later, Ne.symm same]

/-- The last occurrence splits the string. -/
theorem strrchr_some {target : UInt8} {text : CString} {index : Nat}
    (result : strrchr target text = some index) :
    ∃ before after, text = before ++ target :: after ∧ before.length = index ∧ target ∉ after := by
  induction text generalizing index with
  | nil => simp [strrchr] at result
  | cons byte rest ih =>
      rw [strrchr] at result
      cases later : strrchr target rest with
      | some last =>
          obtain ⟨before, after, split, length, absent⟩ := ih later
          rw [later] at result
          refine ⟨byte :: before, after, by simp [split], ?_, absent⟩
          rw [← Option.some.inj result, List.length_cons, length]
      | none =>
          rw [later] at result
          by_cases same : byte = target
          · simp only [same, if_true, Option.some.injEq] at result
            exact ⟨[], rest, by simp [same], by simp [result], strrchr_none later⟩
          · simp [same] at result

/-- The base name of a path without a final slash is a nonempty component. -/
theorem baseName_component {path : CString} (nonempty : path ≠ []) (last : path.getLast? ≠ some slash) :
    baseName path ≠ [] ∧ slash ∉ baseName path := by
  unfold baseName
  cases result : strrchr slash path with
  | none => exact ⟨nonempty, strrchr_none result⟩
  | some index =>
      obtain ⟨before, after, split, length, absent⟩ := strrchr_some result
      have drop : path.drop (index + 1) = after := by
        rw [split, ← length, List.drop_append]
        simp
      dsimp only
      rw [drop]
      refine ⟨?_, absent⟩
      intro empty
      apply last
      rw [split, empty]
      simp

/-- The node that `create_file` makes. -/
def newFile (name : CString) (data : Buffer) (size flags : Nat) : File where
  id := 0
  name := name
  parent := 0
  children := 0
  next := 0
  data := if size = 0 then none else some (data.copy size)
  size := size
  flags := flags % 2 ^ 16

/-- `create_file` allocates and links one node, or it fails and changes no node. -/
theorem placeFile_cases (allocator : Allocator) {parent : Nat} {fs : Fs} (live : parent ∈ fs.nodes)
    (name : CString) (data : Buffer) (size flags : Nat) :
    ∃ status fs', placeFile allocator parent name data size flags fs = .ok (status, fs') ∧
      ((status = .fail ∧ fs'.nodes = fs.nodes ∧ ∃ nodes call, allocator.pick nodes call = none) ∨
        (status = .success ∧ ∃ child, Placed fs.nodes fs'.nodes parent child (newFile name data size flags))) := by
  unfold placeFile
  rw [Fs.allocate]
  cases answer : allocator.pick fs.nodes fs.calls with
  | none => exact ⟨.fail, _, rfl, Or.inl ⟨rfl, rfl, _, _, answer⟩⟩
  | some child =>
      obtain ⟨nonzero, fresh⟩ := allocator.fresh _ _ _ answer
      obtain ⟨nodes', linked, placed⟩ := linkChild_placed (newFile name data size flags) live
        fresh nonzero
      have finish (calls : Nat) : (do
          let block := if size = 0 then none else some (data.copy size)
          let nodes ← linkChild (fs.nodes.insert child
            { id := 0, name := name, parent := 0, children := 0, next := 0, data := block,
              size := size, flags := flags % 2 ^ 16 }) parent child
          return (FsReturn.success, ({ nodes := nodes, calls := calls } : Fs)) :
            Outcome (FsReturn × Fs)) = .ok (.success, ⟨nodes', calls⟩) := by
        have same : linkChild (fs.nodes.insert child
            { id := 0, name := name, parent := 0, children := 0, next := 0,
              data := if size = 0 then none else some (data.copy size),
              size := size, flags := flags % 2 ^ 16 }) parent child = .ok nodes' := linked
        simp only [same, bind, Except.bind, pure, Except.pure]
      dsimp only
      by_cases empty : size = 0
      · rw [if_pos empty]
        exact ⟨.success, ⟨nodes', fs.calls + 1⟩, finish _, Or.inr ⟨rfl, child, placed⟩⟩
      · rw [if_neg empty, Fs.allocate]
        dsimp only
        cases second : allocator.pick fs.nodes (fs.calls + 1) with
        | none => exact ⟨.fail, _, rfl, Or.inl ⟨rfl, rfl, _, _, second⟩⟩
        | some block => exact ⟨.success, ⟨nodes', fs.calls + 1 + 1⟩, finish _, Or.inr ⟨rfl, child, placed⟩⟩

/-- A failed resolution is neither a success nor an existing file. -/
theorem Resolved.failed {nodes : Nodes} {status : FsReturn} (resolved : Resolved nodes (.error status)) :
    status ≠ .success ∧ status ≠ .alrExist := by
  rcases resolved with same | same | same <;> simp [same]

/-- The parent path of a well-formed path leads to a directory, and its last component is a legal
name. -/
structure LeadsTo (nodes : Nodes) (path : CString) (parent : Nat) (dir : File) : Prop where
  nonempty : path ≠ []
  unclosed : path.getLast? ≠ some slash
  legal : LegalName (baseName path)
  parsed : parsePath nodes (some (parentPath path)) = .ok (.ok parent)
  found : nodes.lookup parent = some dir
  directory : dir.isDirectory

/-- `create_file` stops early without effect, or it finds its name taken, or it makes its node. -/
theorem createFile_stages (allocator : Allocator) {fs : Fs} {kids : Nat → List Nat} {depth : Nat → Nat}
    (tree : Tree fs.nodes kids depth) (path : CString) (data : Buffer) (size flags : Nat) :
    (∃ status calls, createFile allocator (some path) data size flags fs =
        .ok (status, ⟨fs.nodes, calls⟩) ∧ status ≠ .success ∧ status ≠ .alrExist) ∨
    ∃ parent dir, LeadsTo fs.nodes path parent dir ∧
      ((∃ calls, createFile allocator (some path) data size flags fs =
          .ok (.alrExist, ⟨fs.nodes, calls⟩) ∧
          ∃ child ∈ kids parent, ∃ file, fs.nodes.lookup child = some file ∧
            file.name = baseName path) ∨
        (createFile allocator (some path) data size flags fs =
            placeFile allocator parent (baseName path) data size flags ⟨fs.nodes, fs.calls + 1 + 1⟩ ∧
          ∀ child ∈ kids parent, ∀ file, fs.nodes.lookup child = some file →
            file.name ≠ baseName path)) := by
  unfold createFile
  dsimp only
  split
  · exact Or.inl ⟨.invArg, fs.calls, rfl, by decide, by decide⟩
  · split
    · exact Or.inl ⟨.invPath, fs.calls, rfl, by decide, by decide⟩
    · rename_i wellFormed
      have nonempty : path ≠ [] := fun empty => wellFormed (Or.inl empty)
      have unclosed : path.getLast? ≠ some slash := fun last => wellFormed (Or.inr last)
      obtain ⟨named, component⟩ := baseName_component nonempty unclosed
      simp only [Fs.allocate]
      cases allocator.pick fs.nodes fs.calls with
      | none => exact Or.inl ⟨.fail, _, rfl, by decide, by decide⟩
      | some _ =>
          dsimp only
          cases allocator.pick fs.nodes (fs.calls + 1) with
          | none => exact Or.inl ⟨.fail, _, rfl, by decide, by decide⟩
          | some _ =>
              dsimp only
              split
              · exact Or.inl ⟨.fail, _, rfl, by decide, by decide⟩
              · rename_i special
                have legal : LegalName (baseName path) := ⟨named, component,
                  fun one => special (Or.inl one), fun two => special (Or.inr two)⟩
                obtain ⟨result, parsed, inside⟩ := tree.parsePath_total (some (parentPath path))
                rw [parsed]
                cases result with
                | error status => exact Or.inl ⟨status, _, rfl, inside.failed⟩
                | ok parent =>
                    obtain ⟨dir, found⟩ := lookup_of_mem inside
                    simp only [bind, Except.bind, load_ok found, findChild]
                    by_cases directory : dir.isDirectory
                    · refine Or.inr ⟨parent, dir,
                        ⟨nonempty, unclosed, legal, parsed, found, directory⟩, ?_⟩
                      rcases tree.search (baseName path) found with
                        ⟨child, member, search, taken⟩ | ⟨search, unused⟩
                      · have nonzero := ((tree.lists parent dir found).member member).1
                        refine Or.inl ⟨fs.calls + 1 + 1, ?_, child, member, taken⟩
                        simp only [directory, not_true_eq_false, if_false, search, ne_eq, nonzero,
                          not_false_eq_true, if_true]
                        rfl
                      · refine Or.inr ⟨?_, unused⟩
                        simp only [directory, not_true_eq_false, if_false, search, ne_eq]
                    · refine Or.inl ⟨.notADir, fs.calls + 1 + 1, ?_, by decide, by decide⟩
                      simp only [directory, not_false_eq_true, if_true]
                      rfl

/-- `create_file` has put one node of a new legal name into the directory that the parent path leads
to. -/
structure Creates (fs fs' : Fs) (kids : Nat → List Nat) (path : CString) (data : Buffer)
    (size flags parent child : Nat) : Prop where
  nonempty : path ≠ []
  unclosed : path.getLast? ≠ some slash
  parsed : parsePath fs.nodes (some (parentPath path)) = .ok (.ok parent)
  placed : Placed fs.nodes fs'.nodes parent child (newFile (baseName path) data size flags)
  legal : LegalName (baseName path)
  unused : ∀ other ∈ kids parent, ∀ found, fs.nodes.lookup other = some found →
    found.name ≠ baseName path
  directory : ∀ dir, fs.nodes.lookup parent = some dir → dir.isDirectory

/-- `create_file` returns; it fails and changes no node, or it succeeds and adds one node. -/
theorem createFile_cases (allocator : Allocator) {fs : Fs} {kids : Nat → List Nat} {depth : Nat → Nat}
    (tree : Tree fs.nodes kids depth) (path : Option CString) (data : Buffer) (size flags : Nat) :
    ∃ status fs', createFile allocator path data size flags fs = .ok (status, fs') ∧
      ((status ≠ .success ∧ fs'.nodes = fs.nodes) ∨
        status = .success ∧ ∃ name parent child, path = some name ∧
          Creates fs fs' kids name data size flags parent child) := by
  cases path with
  | none => exact ⟨.invArg, fs, rfl, Or.inl ⟨by decide, rfl⟩⟩
  | some path =>
      rcases createFile_stages allocator tree path data size flags with
        ⟨status, calls, stopped, failed, _⟩ | ⟨parent, dir, leads, ⟨calls, taken, _⟩ | ⟨places, unused⟩⟩
      · exact ⟨status, _, stopped, Or.inl ⟨failed, rfl⟩⟩
      · exact ⟨.alrExist, _, taken, Or.inl ⟨by decide, rfl⟩⟩
      · have live : parent ∈ (⟨fs.nodes, fs.calls + 1 + 1⟩ : Fs).nodes := mem_of_lookup leads.found
        obtain ⟨status, fs', result, effect⟩ :=
          placeFile_cases allocator live (baseName path) data size flags
        refine ⟨status, fs', places.trans result, ?_⟩
        rcases effect with ⟨failure, same, _⟩ | ⟨success, child, placed⟩
        · exact Or.inl ⟨by simp [failure], same⟩
        · refine Or.inr ⟨success, path, parent, child, rfl, leads.nonempty, leads.unclosed, leads.parsed,
            placed, leads.legal, unused, ?_⟩
          intro dir' found'
          rw [leads.found] at found'
          rw [← Option.some.inj found']
          exact leads.directory

/-- A successful `create_file` creates one file. -/
theorem createFile_success {allocator : Allocator} {fs fs' : Fs} {kids : Nat → List Nat}
    {depth : Nat → Nat} (tree : Tree fs.nodes kids depth) {path : Option CString} {data : Buffer}
    {size flags : Nat} (created : createFile allocator path data size flags fs = .ok (.success, fs')) :
    ∃ name parent child, path = some name ∧ Creates fs fs' kids name data size flags parent child := by
  obtain ⟨status, after, result, effect⟩ := createFile_cases allocator tree path data size flags
  obtain ⟨rfl, rfl⟩ := Prod.mk.inj (Except.ok.inj (result.symm.trans created))
  rcases effect with ⟨failed, _⟩ | ⟨_, creates⟩
  · exact absurd rfl failed
  · exact creates

/-- A created node extends the tree. -/
theorem Creates.tree {fs fs' : Fs} {kids : Nat → List Nat} {depth : Nat → Nat} {path : CString}
    {data : Buffer} {size flags parent child : Nat}
    (creates : Creates fs fs' kids path data size flags parent child)
    (tree : Tree fs.nodes kids depth) :
    Tree fs'.nodes (placedKids kids parent child) (Function.update depth child (depth parent + 1)) :=
  tree.placed creates.placed rfl creates.legal creates.unused creates.directory

/-- `create_file` returns and keeps the tree. -/
theorem createFile_tree (allocator : Allocator) {fs : Fs} (tree : IsTree fs.nodes)
    (path : Option CString) (data : Buffer) (size flags : Nat) :
    ∃ status fs', createFile allocator path data size flags fs = .ok (status, fs') ∧
      IsTree fs'.nodes := by
  obtain ⟨kids, depth, tree⟩ := tree
  obtain ⟨status, fs', result, effect⟩ := createFile_cases allocator tree path data size flags
  refine ⟨status, fs', result, ?_⟩
  rcases effect with ⟨_, same⟩ | ⟨_, name, parent, child, _, creates⟩
  · rw [same]
    exact ⟨kids, depth, tree⟩
  · exact ⟨_, _, creates.tree tree⟩

/-- A call whose status is passed on. -/
theorem relay_eq {State : Type} (call : Outcome (FsReturn × State)) :
    (do
      let (status, state) ← call
      if status ≠ .success then
        return (status, state)
      return (.success, state)) = call := by
  cases call with
  | error fault => rfl
  | ok result =>
      obtain ⟨status, after⟩ := result
      simp only [bind, Except.bind]
      by_cases done : status = .success
      · simp [done, pure, Except.pure]
      · simp [done, pure, Except.pure]

/-- `create_folder` is `create_file` with the flag of a folder. -/
theorem createFolder_eq (allocator : Allocator) (path : Option CString) (fs : Fs) :
    createFolder allocator path fs =
      createFile allocator path ⟨true, fun _ => 0⟩ 0 fsIsDirectory fs := relay_eq _

/-- `delete_folder` is `delete_file`. -/
theorem deleteFolder_eq (path : Option CString) (fs : Fs) :
    deleteFolder path fs = deleteFile path fs := relay_eq _

/-- A node that is no directory with children has no nodes below it. -/
theorem Tree.childless {nodes : Nodes} {kids : Nat → List Nat} {depth : Nat → Nat} {target : Nat}
    {file : File} (tree : Tree nodes kids depth) (found : nodes.lookup target = some file)
    (filled : ¬ (file.isDirectory ∧ file.children ≠ 0)) : kids target = [] := by
  by_contra some
  have isDir := tree.directories target file found some
  have listed := tree.lists target file found
  cases list : kids target with
  | nil => exact some list
  | cons child rest =>
      rw [list] at listed
      apply filled
      refine ⟨isDir, ?_⟩
      rw [listed.1]
      exact listed.2.1

section Unresolved

variable {fs : Fs} {path : Option CString} {status : FsReturn}
  (parsed : parsePath fs.nodes path = .ok (.error status))
include parsed

/-- `delete_file` reports a path that does not resolve. -/
theorem deleteFile_error : deleteFile path fs = .ok (status, fs) := by
  rw [deleteFile, parsed]
  rfl

/-- `read_file_content` reports a path that does not resolve. -/
theorem readFileContent_error (buffer : Buffer) (bufSize : Nat) :
    readFileContent path buffer bufSize fs = .ok (status, []) := by
  rw [readFileContent, parsed]
  rfl

/-- `write_file_content` reports a path that does not resolve. -/
theorem writeFileContent_error (buffer : Buffer) (bufSize : Nat) :
    writeFileContent path buffer bufSize fs = .ok (status, fs) := by
  rw [writeFileContent, parsed]
  rfl

end Unresolved

/-- The end of `delete_file` releases the node that has been unlinked. -/
theorem deleteFile_unlinked {fs : Fs} {path : Option CString} {target : Nat} {file : File}
    {nodes' : Nodes} (parsed : parsePath fs.nodes path = .ok (.ok target)) (top : target ≠ root)
    (found : fs.nodes.lookup target = some file) (filled : ¬ (file.isDirectory ∧ file.children ≠ 0))
    (below : file.parent ≠ 0) (unlinked : unlinkChild fs.nodes file.parent target = .ok (some nodes')) :
    deleteFile path fs = .ok (.success, { fs with nodes := nodes'.erase target }) := by
  simp only [deleteFile, parsed, bind, Except.bind, top, if_false, load_ok found, filled, below, unlinked]
  rfl

/-- `delete_file` has taken out the node without children that the path leads to. -/
structure Erases (fs fs' : Fs) (kids : Nat → List Nat) (path : Option CString) (target : Nat)
    (file : File) : Prop where
  parsed : parsePath fs.nodes path = .ok (.ok target)
  found : fs.nodes.lookup target = some file
  top : target ≠ root
  childless : kids target = []
  removed : Removed fs.nodes fs'.nodes kids file.parent target

/-- `delete_file` returns; it fails and changes nothing, or it succeeds and takes out one node. -/
theorem deleteFile_cases {fs : Fs} {kids : Nat → List Nat} {depth : Nat → Nat}
    (tree : Tree fs.nodes kids depth) (path : Option CString) :
    ∃ status fs', deleteFile path fs = .ok (status, fs') ∧ status ≠ .invalidFs ∧
      ((status ≠ .success ∧ fs' = fs) ∨
        status = .success ∧ ∃ target file, Erases fs fs' kids path target file) := by
  obtain ⟨result, parsed, inside⟩ := tree.parsePath_total path
  cases result with
  | error status =>
      refine ⟨status, fs, deleteFile_error parsed, ?_, Or.inl ⟨inside.failed.1, rfl⟩⟩
      rcases inside with other | other | other <;> simp [other]
  | ok target =>
      obtain ⟨file, found⟩ := lookup_of_mem inside
      by_cases top : target = root
      · refine ⟨.permissionDenied, fs, ?_, by decide, Or.inl ⟨by decide, rfl⟩⟩
        simp only [deleteFile, parsed, bind, Except.bind, top, if_true]
        rfl
      · by_cases filled : file.isDirectory ∧ file.children ≠ 0
        · refine ⟨.dirNotEmpty, fs, ?_, by decide, Or.inl ⟨by decide, rfl⟩⟩
          simp only [deleteFile, parsed, bind, Except.bind, top, if_false, load_ok found]
          exact if_pos filled
        · have below := tree.nonzero (tree.parentLive found)
          obtain ⟨nodes', unlinked, removed⟩ := tree.unlinkChild_removed found top
          exact ⟨.success, _, deleteFile_unlinked parsed top found filled below unlinked, by decide,
            Or.inr ⟨rfl, target, file, parsed, found, top, tree.childless found filled, removed⟩⟩

/-- A successful `delete_file` erases one file. -/
theorem deleteFile_success {fs fs' : Fs} {kids : Nat → List Nat} {depth : Nat → Nat}
    (tree : Tree fs.nodes kids depth) {path : Option CString}
    (deleted : deleteFile path fs = .ok (.success, fs')) :
    ∃ target file, Erases fs fs' kids path target file := by
  obtain ⟨status, after, result, _, effect⟩ := deleteFile_cases tree path
  obtain ⟨rfl, rfl⟩ := Prod.mk.inj (Except.ok.inj (result.symm.trans deleted))
  rcases effect with ⟨failed, _⟩ | ⟨_, erases⟩
  · exact absurd rfl failed
  · exact erases

/-- A removed node leaves a tree. -/
theorem Erases.tree {fs fs' : Fs} {kids : Nat → List Nat} {depth : Nat → Nat} {path : Option CString}
    {target : Nat} {file : File} (erases : Erases fs fs' kids path target file)
    (tree : Tree fs.nodes kids depth) : Tree fs'.nodes (removedKids kids file.parent target) depth :=
  tree.removed erases.found erases.top erases.childless erases.removed

/-- `delete_file` returns, never with `FS_INVALID_FS`, and keeps the tree. -/
theorem deleteFile_tree {fs : Fs} (tree : IsTree fs.nodes) (path : Option CString) :
    ∃ status fs', deleteFile path fs = .ok (status, fs') ∧ status ≠ .invalidFs ∧ IsTree fs'.nodes := by
  obtain ⟨kids, depth, tree⟩ := tree
  obtain ⟨status, fs', result, valid, effect⟩ := deleteFile_cases tree path
  refine ⟨status, fs', result, valid, ?_⟩
  rcases effect with ⟨_, rfl⟩ | ⟨_, target, file, erases⟩
  · exact ⟨kids, depth, tree⟩
  · exact ⟨_, _, erases.tree tree⟩

/-- The nodes are the same up to their data. -/
structure SameLinks (nodes nodes' : Nodes) : Prop where
  live : ∀ address, address ∈ nodes' ↔ address ∈ nodes
  kept : ∀ address before, nodes.lookup address = some before →
    ∃ after, nodes'.lookup address = some after ∧
      after.parent = before.parent ∧ after.next = before.next ∧ after.flags = before.flags ∧
      after.name = before.name ∧ after.children = before.children

section Links

variable {nodes nodes' : Nodes} (same : SameLinks nodes nodes')
include same

/-- A node of the new state has the links of a node of the old one. -/
theorem SameLinks.origin {address : Nat} {after : File} (look : nodes'.lookup address = some after) :
    ∃ before, nodes.lookup address = some before ∧
      after.parent = before.parent ∧ after.flags = before.flags ∧
      after.name = before.name ∧ after.children = before.children := by
  obtain ⟨before, lookBefore⟩ := lookup_of_mem ((same.live address).mp (mem_of_lookup look))
  obtain ⟨after', look', parent, _, flags, name, children⟩ := same.kept address before lookBefore
  rw [look] at look'
  rw [← Option.some.inj look'] at parent flags name children
  exact ⟨before, lookBefore, parent, flags, name, children⟩

/-- Every node keeps its name. -/
theorem SameLinks.name (address : Nat) :
    (nodes'.lookup address).map File.name = (nodes.lookup address).map File.name := by
  cases look : nodes.lookup address with
  | none =>
      have absent : address ∉ nodes' := by
        rw [same.live, ← AList.lookup_eq_none]
        exact look
      rw [AList.lookup_eq_none.mpr absent]
  | some before =>
      obtain ⟨after, look', _, _, _, name, _⟩ := same.kept address before look
      rw [look', Option.map_some, Option.map_some, name]

/-- The tree does not depend on the data. -/
theorem Tree.sameLinks {kids : Nat → List Nat} {depth : Nat → Nat} (tree : Tree nodes kids depth) :
    Tree nodes' kids depth where
  rootNode := by
    obtain ⟨rootFile, look, up, isDir⟩ := tree.rootNode
    obtain ⟨after, look', parent, _, flags, _⟩ := same.kept root rootFile look
    refine ⟨after, look', parent.trans up, ?_⟩
    rw [File.isDirectory, flags]
    exact isDir
  lists := by
    intro address after look
    obtain ⟨before, lookBefore, _, _, _, children⟩ := same.origin look
    rw [children]
    apply (tree.lists address before lookBefore).frame
    intro child member childFile childLook
    obtain ⟨childAfter, childLook', _, next, _⟩ := same.kept child childFile childLook
    exact ⟨childAfter, childLook', next⟩
  once := fun address member => tree.once address ((same.live address).mp member)
  parents := by
    intro address member child inside
    obtain ⟨top, childFile, childLook, up⟩ :=
      tree.parents address ((same.live address).mp member) child inside
    obtain ⟨childAfter, childLook', parent, _⟩ := same.kept child childFile childLook
    exact ⟨top, childAfter, childLook', parent.trans up⟩
  listed := by
    intro child after look top
    obtain ⟨before, lookBefore, parent, _⟩ := same.origin look
    obtain ⟨parentLive, member⟩ := tree.listed child before lookBefore top
    rw [parent]
    exact ⟨(same.live _).mpr parentLive, member⟩
  rises := fun address member => tree.rises address ((same.live address).mp member)
  directories := by
    intro address after look some
    obtain ⟨before, lookBefore, _, flags, _⟩ := same.origin look
    rw [File.isDirectory, flags]
    exact tree.directories address before lookBefore some
  distinct := by
    intro address member
    apply (tree.distinct address ((same.live address).mp member)).imp
    intro left right apart
    rw [same.name left, same.name right]
    exact apart
  names := by
    intro child after look top
    obtain ⟨before, lookBefore, _, _, name, _⟩ := same.origin look
    rw [name]
    exact tree.names child before lookBefore top

end Links

/-- New contents of one node change no link. -/
theorem rewrite_links {nodes : Nodes} {target : Nat} {file : File}
    (found : nodes.lookup target = some file) (data : Option (List UInt8)) :
    SameLinks nodes (nodes.insert target { file with data := data }) where
  live := by
    intro address
    rw [AList.mem_insert]
    constructor
    · intro member
      rcases member with same | old
      · exact same ▸ mem_of_lookup found
      · exact old
    · exact Or.inr
  kept := by
    intro address before look
    by_cases here : address = target
    · rw [here, found] at look
      rw [here, ← Option.some.inj look]
      exact ⟨_, AList.lookup_insert _, rfl, rfl, rfl, rfl, rfl⟩
    · exact ⟨before, by rw [AList.lookup_insert_ne here, look], rfl, rfl, rfl, rfl, rfl⟩

/-- A copy has the length that was asked for. -/
theorem Buffer.copy_length (buffer : Buffer) (size : Nat) : (buffer.copy size).length = size := by
  simp [Buffer.copy]

/-- The answer of `read_file_content` when the path has led to a node. -/
def readAnswer (file : File) (buffer : Buffer) (bufSize : Nat) : FsReturn × List UInt8 :=
  if file.isDirectory then (.isADir, [])
  else if bufSize < file.size then (.bufTooSmall, [])
  else if file.size ≠ 0 ∧ file.data = none then (.invalidFile, [])
  else if file.size ≠ 0 ∧ buffer.null then (.invArg, [])
  else (.success, (file.data.getD []).take file.size)

/-- On a path that resolves `read_file_content` gives its answer. -/
theorem readFileContent_answer {fs : Fs} {path : Option CString} {target : Nat} {file : File}
    (parsed : parsePath fs.nodes path = .ok (.ok target)) (found : fs.nodes.lookup target = some file)
    (buffer : Buffer) (bufSize : Nat) :
    readFileContent path buffer bufSize fs = .ok (readAnswer file buffer bufSize) := by
  simp only [readFileContent, parsed, bind, Except.bind, load_ok found, readAnswer]
  split <;> [rfl; split <;> [rfl; split <;> [rfl; split <;> rfl]]]

/-- A failed read gives no bytes. -/
theorem readAnswer_failed {file : File} {buffer : Buffer} {bufSize : Nat} :
    (readAnswer file buffer bufSize).1 ≠ .success → (readAnswer file buffer bufSize).2 = [] := by
  unfold readAnswer
  split_ifs <;> simp

/-- A regular file that holds as many bytes as its size gives all of them to a large enough
buffer. -/
theorem readAnswer_whole {file : File} {buffer : Buffer} {bufSize : Nat} (regular : ¬ file.isDirectory)
    (stored : file.size ≠ 0 → file.data ≠ none) (fits : file.size ≤ bufSize)
    (present : file.size ≠ 0 → buffer.null = false) :
    readAnswer file buffer bufSize = (.success, (file.data.getD []).take file.size) := by
  have somewhere : ¬ (file.size ≠ 0 ∧ file.data = none) := fun both => stored both.1 both.2
  have pointed : ¬ (file.size ≠ 0 ∧ buffer.null = true) := fun both => by
    simp [present both.1] at both
  rw [readAnswer, if_neg regular, if_neg (Nat.not_lt.mpr fits), if_neg somewhere, if_neg pointed]

/-- `read_file_content` returns; it copies nothing when it fails. -/
theorem readFileContent_cases {fs : Fs} (tree : IsTree fs.nodes) (path : Option CString)
    (buffer : Buffer) (bufSize : Nat) :
    ∃ status bytes, readFileContent path buffer bufSize fs = .ok (status, bytes) ∧
      (status ≠ .success → bytes = []) := by
  obtain ⟨kids, depth, tree⟩ := tree
  obtain ⟨result, parsed, inside⟩ := tree.parsePath_total path
  cases result with
  | error status => exact ⟨status, [], readFileContent_error parsed buffer bufSize, fun _ => rfl⟩
  | ok target =>
      obtain ⟨file, found⟩ := lookup_of_mem inside
      exact ⟨_, _, readFileContent_answer parsed found buffer bufSize, readAnswer_failed⟩

/-- `write_file_content` has overwritten the first bytes of the file that the path leads to. -/
structure Writes (fs fs' : Fs) (path : Option CString) (buffer : Buffer) (bufSize target : Nat)
    (file : File) : Prop where
  parsed : parsePath fs.nodes path = .ok (.ok target)
  found : fs.nodes.lookup target = some file
  regular : ¬ file.isDirectory
  fits : bufSize ≤ file.size
  stored : bufSize ≠ 0 → file.data ≠ none
  given : file.size ≠ 0 → buffer.null = false
  written : fs'.nodes = fs.nodes.insert target { file with
    data := file.data.map fun old => buffer.copy bufSize ++ old.drop bufSize }

/-- `write_file_content` returns; it fails and changes nothing, or it overwrites one file. -/
theorem writeFileContent_cases {fs : Fs} (tree : IsTree fs.nodes) (path : Option CString)
    (buffer : Buffer) (bufSize : Nat) :
    ∃ status fs', writeFileContent path buffer bufSize fs = .ok (status, fs') ∧
      ((status ≠ .success ∧ fs' = fs) ∨
        status = .success ∧ ∃ target file, Writes fs fs' path buffer bufSize target file) := by
  obtain ⟨kids, depth, tree⟩ := tree
  obtain ⟨result, parsed, inside⟩ := tree.parsePath_total path
  cases result with
  | error status =>
      exact ⟨status, fs, writeFileContent_error parsed buffer bufSize, Or.inl ⟨inside.failed.1, rfl⟩⟩
  | ok target =>
      obtain ⟨file, found⟩ := lookup_of_mem inside
      simp only [writeFileContent, parsed, bind, Except.bind, load_ok found]
      split
      · exact ⟨_, fs, rfl, Or.inl ⟨by decide, rfl⟩⟩
      · rename_i regular
        split
        · exact ⟨_, fs, rfl, Or.inl ⟨by decide, rfl⟩⟩
        · rename_i fits
          split
          · exact ⟨_, fs, rfl, Or.inl ⟨by decide, rfl⟩⟩
          · rename_i stored
            split
            · exact ⟨_, fs, rfl, Or.inl ⟨by decide, rfl⟩⟩
            · rename_i given
              have pointed : file.size ≠ 0 → buffer.null = false := fun filled =>
                Bool.eq_false_iff.mpr fun null => given ⟨filled, null⟩
              exact ⟨_, _, rfl, Or.inr ⟨rfl, target, file, parsed, found, regular, Nat.not_lt.mp fits,
                fun some none => stored ⟨some, none⟩, pointed, rfl⟩⟩

/-- A successful `write_file_content` writes one file. -/
theorem writeFileContent_success {fs fs' : Fs} (tree : IsTree fs.nodes) {path : Option CString}
    {buffer : Buffer} {bufSize : Nat}
    (written : writeFileContent path buffer bufSize fs = .ok (.success, fs')) :
    ∃ target file, Writes fs fs' path buffer bufSize target file := by
  obtain ⟨status, after, result, effect⟩ := writeFileContent_cases tree path buffer bufSize
  obtain ⟨rfl, rfl⟩ := Prod.mk.inj (Except.ok.inj (result.symm.trans written))
  rcases effect with ⟨failed, _⟩ | ⟨_, writes⟩
  · exact absurd rfl failed
  · exact writes

/-- Writing a file changes no link. -/
theorem Writes.links {fs fs' : Fs} {path : Option CString} {buffer : Buffer} {bufSize target : Nat}
    {file : File} (writes : Writes fs fs' path buffer bufSize target file) :
    SameLinks fs.nodes fs'.nodes := by
  rw [writes.written]
  exact rewrite_links writes.found _

/-- Overwriting a file does not touch the tree. -/
theorem Writes.tree {fs fs' : Fs} {kids : Nat → List Nat} {depth : Nat → Nat} {path : Option CString}
    {buffer : Buffer} {bufSize target : Nat} {file : File}
    (writes : Writes fs fs' path buffer bufSize target file) (tree : Tree fs.nodes kids depth) :
    Tree fs'.nodes kids depth :=
  tree.sameLinks writes.links

/-- `write_file_content` returns and keeps the tree. -/
theorem writeFileContent_tree {fs : Fs} (tree : IsTree fs.nodes) (path : Option CString)
    (buffer : Buffer) (bufSize : Nat) :
    ∃ status fs', writeFileContent path buffer bufSize fs = .ok (status, fs') ∧ IsTree fs'.nodes := by
  obtain ⟨status, fs', result, effect⟩ := writeFileContent_cases tree path buffer bufSize
  refine ⟨status, fs', result, ?_⟩
  rcases effect with ⟨_, rfl⟩ | ⟨_, target, file, writes⟩
  · exact tree
  · obtain ⟨kids, depth, tree⟩ := tree
    exact ⟨kids, depth, writes.tree tree⟩

/-- The root is the only node after `init_fs`. -/
theorem initFs_node {address : Nat} {file : File} (found : initFs.nodes.lookup address = some file) :
    address = root ∧ file = ⟨0, [114, 111, 111, 116], root, 0, 0, none, 0, fsIsDirectory⟩ := by
  have top : address = root := by simpa [initFs, AList.mem_keys] using mem_of_lookup found
  subst top
  exact ⟨rfl, (Option.some.inj found).symm⟩

/-- The empty filesystem is a tree. -/
theorem initFs_tree : IsTree initFs.nodes := by
  refine ⟨fun _ => [], fun _ => 0, ?_⟩
  refine ⟨⟨_, rfl, rfl, by decide⟩, ?_, by simp, by simp, ?_, by simp, by simp, by simp, ?_⟩
  · intro address file found
    rw [(initFs_node found).2]
    rfl
  · intro child file found other
    exact absurd (initFs_node found).1 other
  · intro child file found other
    exact absurd (initFs_node found).1 other

end ArchaOS.FileSystem
