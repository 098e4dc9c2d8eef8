import ArchaOS.Proof.FileSystem.Creation

namespace ArchaOS.FileSystem

open Library

section Removing

variable {nodes nodes' : Nodes} {kids : Nat → List Nat} {depth : Nat → Nat} {target : Nat} {file : File}
  (tree : Tree nodes kids depth) (found : nodes.lookup target = some file) (top : target ≠ root)
  (childless : kids target = []) (removed : Removed nodes nodes' kids file.parent target)
include tree found top childless removed

/-- A component that leads to another node still leads to it. -/
theorem Removed.enter_kept {current next : Nat} {component : CString} (live : current ∈ nodes)
    (away : current ≠ target) (entered : enter nodes kids current component = .ok next)
    (other : next ≠ target) :
    enter nodes' (removedKids kids file.parent target) current component = .ok next := by
  obtain ⟨before, look⟩ := lookup_of_mem live
  obtain ⟨after, lookAfter, content, _⟩ := removed.kept current away before look
  rw [(tree.removed found top childless removed).enter_iff lookAfter, content.parent]
  rcases (tree.enter_iff look).mp entered with stay | above | ⟨member, named⟩
  · exact Or.inl stay
  · exact Or.inr (Or.inl above)
  · have nextLive := tree.enter_live live entered
    refine Or.inr (Or.inr ⟨?_, by rw [removed.name_kept nextLive other, named]⟩)
    by_cases here : current = file.parent
    · rw [here] at member ⊢
      rw [removedKids, Function.update_self]
      exact (List.mem_erase_of_ne other).mpr member
    · rw [removedKids, Function.update_of_ne here]
      exact member

/-- A component that led to the removed node finds nothing. -/
theorem Removed.enter_gone {current : Nat} {component : CString} (live : current ∈ nodes)
    (away : current ≠ target) (entered : enter nodes kids current component = .ok target) :
    enter nodes' (removedKids kids file.parent target) current component = .error .notFound := by
  obtain ⟨before, look⟩ := lookup_of_mem live
  obtain ⟨after, lookAfter, content, _⟩ := removed.kept current away before look
  rcases (tree.enter_iff look).mp entered with ⟨_, same⟩ | ⟨_, same⟩ | ⟨member, named⟩
  · exact absurd same.symm away
  · by_cases first : current = root
    · obtain ⟨rootFile, foundRoot, up, _⟩ := tree.rootNode
      rw [first, foundRoot] at look
      rw [← Option.some.inj look, up] at same
      exact absurd same top
    · have inside := (tree.listed current before look first).2
      rw [← same, childless] at inside
      simp at inside
  · have directory : after.isDirectory := by
      rw [File.isDirectory, content.flags]
      exact tree.directories current before look (List.ne_nil_of_mem member)
    have legal : LegalName component := by
      rw [found] at named
      exact Option.some.inj named ▸ tree.names target file found top
    apply enter_missing lookAfter directory legal
    intro child inside same
    have notTarget := tree.removedKids_ne found top live inside
    have old := (removedKids_sublist kids file.parent target current).subset inside
    obtain ⟨_, entry, lookChild, _⟩ := tree.parents current live child old
    rw [removed.name_kept (mem_of_lookup lookChild) notTarget] at same
    exact notTarget (tree.sibling_unique live old member (same.trans named.symm))

/-- Components that led to the removed node lead nowhere. -/
theorem Removed.fold_gone {names : List CString} {current : Nat} (live : current ∈ nodes)
    (away : current ≠ target) (resolved : names.foldlM (enter nodes kids) current = .ok target) :
    names.foldlM (enter nodes' (removedKids kids file.parent target)) current = .error .notFound := by
  induction names generalizing current with
  | nil => exact absurd (Except.ok.inj resolved) away
  | cons component rest ih =>
      rw [List.foldlM_cons, bind_eq_ok] at resolved
      obtain ⟨next, entered, resolved⟩ := resolved
      rw [List.foldlM_cons]
      by_cases here : next = target
      · rw [removed.enter_gone tree found top childless live away (here ▸ entered)]
        rfl
      · rw [removed.enter_kept tree found top childless live away entered here]
        exact ih (tree.enter_live live entered) here resolved

/-- The other nodes list their children in the old order. -/
theorem Removed.listed_kept {address : Nat} (other : address ≠ target) {before : File}
    (look : nodes.lookup address = some before) : ∃ after, nodes'.lookup address = some after ∧
      SameContent after before ∧ ∀ list, Listed nodes before.children list →
        Listed nodes' after.children (list.erase target) := by
  obtain ⟨after, lookAfter, content, children, _⟩ := removed.kept address other before look
  refine ⟨after, lookAfter, content, ?_⟩
  intro list listed
  obtain rfl := listed.unique (tree.lists address before look)
  have later := (tree.removed found top childless removed).lists address after lookAfter
  by_cases here : address = file.parent
  · rwa [here, removedKids, Function.update_self, ← here] at later
  · have missing : target ∉ kids address := by
      intro inside
      obtain ⟨_, entry, found', up⟩ := tree.parents address (mem_of_lookup look) target inside
      rw [found] at found'
      exact here (by rw [Option.some.inj found', up])
    rwa [removedKids, Function.update_of_ne here, ← List.erase_of_not_mem missing] at later

end Removing

/-- The node that the path leads to has been taken out, and nothing else. -/
structure Deletes (fs fs' : Fs) (path : Option CString) (target : Nat) (file : File) : Prop where
  present : parsePath fs.nodes path = .ok (.ok target)
  stored : fs.nodes.lookup target = some file
  top : target ≠ root
  empty : file.children = 0
  absent : parsePath fs'.nodes path = .ok (.error .notFound)
  only : ∀ address, address ∈ fs'.nodes ↔ address ∈ fs.nodes ∧ address ≠ target
  kept : ∀ address, address ≠ target → ∀ old, fs.nodes.lookup address = some old → ∃ new,
    fs'.nodes.lookup address = some new ∧ SameContent new old ∧
    ∀ list, Listed fs.nodes old.children list → Listed fs'.nodes new.children (list.erase target)

/-- An erased file is deleted. -/
theorem Erases.deletes {fs fs' : Fs} {kids : Nat → List Nat} {depth : Nat → Nat}
    {path : Option CString} {target : Nat} {file : File} (tree : Tree fs.nodes kids depth)
    (erases : Erases fs fs' kids path target file) : Deletes fs fs' path target file where
  present := erases.parsed
  stored := erases.found
  top := erases.top
  empty := by
    have listed := tree.lists target file erases.found
    rw [erases.childless] at listed
    exact listed
  absent := by
    have parsed := erases.parsed
    cases path with
    | none => cases parsed
    | some path =>
        rw [tree.parsePath_resolve] at parsed
        rw [(erases.tree tree).parsePath_resolve]
        exact congrArg Except.ok (erases.removed.fold_gone tree erases.found erases.top erases.childless
          tree.rootLive erases.top.symm (Except.ok.inj parsed))
  only := by
    intro address
    constructor
    · intro live
      exact ⟨erases.removed.old address live, fun same => erases.removed.gone (same ▸ live)⟩
    · rintro ⟨live, other⟩
      exact erases.removed.stays live other
  kept := fun _ other _ look =>
    erases.removed.listed_kept tree erases.found erases.top erases.childless other look

/-- Unlinking a node that has just been linked gives the old nodes back. -/
theorem Placed.undone {nodes nodes' : Nodes} {parent child : Nat} {file dir : File}
    (placed : Placed nodes nodes' parent child file) (foundDir : nodes.lookup parent = some dir)
    (address : Nat) :
    (afterUnlink nodes' child { file with parent := parent, next := dir.children } parent dir).lookup
      address = nodes.lookup address := by
  by_cases new : address = child
  · rw [new, AList.lookup_eq_none.mpr placed.fresh, afterUnlink, AList.lookup_erase]
  · by_cases here : address = parent
    · rw [here, afterUnlink_changed placed.different.symm, foundDir]
    · rw [afterUnlink_other here new, placed.others address new here]

/-- `delete_file` takes back what `create_file` has just made. -/
theorem Creates.undone {fs fs' : Fs} {kids : Nat → List Nat} {depth : Nat → Nat} {path : CString}
    {data : Buffer} {size flags parent child : Nat} (tree : Tree fs.nodes kids depth)
    (creates : Creates fs fs' kids path data size flags parent child) :
    ∃ restored, deleteFile (some path) fs' = .ok (.success, restored) ∧
      ∀ address, restored.nodes.lookup address = fs.nodes.lookup address := by
  obtain ⟨dir, foundDir, foundParent, foundChild⟩ := creates.placed.directory
  have top : child ≠ root := fun same => creates.placed.fresh (same ▸ tree.rootLive)
  have below : parent ≠ 0 := tree.nonzero creates.placed.parentLive
  obtain ⟨nodes', unlinked, same⟩ := unlinkChild_first foundParent foundChild rfl
    creates.placed.nonzero creates.placed.different
  refine ⟨_, deleteFile_unlinked (creates.present tree) top foundChild
    (fun filled => filled.2 rfl) below unlinked, ?_⟩
  intro address
  change (nodes'.erase child).lookup address = _
  rw [same]
  exact creates.placed.undone foundDir address

/-- `delete_file` takes out exactly the node that the path led to, which was not the root and had no
children, and it undoes a `create_file` just before it. -/
theorem deleteFile_exact {fs : Fs} (tree : IsTree fs.nodes) (path : Option CString) :
    (∀ fs', deleteFile path fs = .ok (.success, fs') →
      ∃ target file, Deletes fs fs' path target file) ∧
    ∀ allocator data size flags fs',
      createFile allocator path data size flags fs = .ok (.success, fs') →
      ∃ restored, deleteFile path fs' = .ok (.success, restored) ∧
        ∀ address, restored.nodes.lookup address = fs.nodes.lookup address := by
  obtain ⟨kids, depth, tree⟩ := tree
  constructor
  · intro fs' deleted
    obtain ⟨target, file, erases⟩ := deleteFile_success tree deleted
    exact ⟨target, file, erases.deletes tree⟩
  · intro allocator data size flags fs' created
    obtain ⟨name, parent, child, rfl, creates⟩ := createFile_success tree created
    exact creates.undone tree

/-- The file `d/x` is created beside the others and deleted again; the file `d/f` is deleted from among
them. -/
theorem deleteFile_exact_sample : ∃ fs' restored,
    createFile bumpAllocator (some [100, slash, 120]) ⟨false, fun _ => 7⟩ 2 0 sampleFs =
        .ok (.success, fs') ∧
      deleteFile (some [100, slash, 120]) fs' = .ok (.success, restored) ∧
      (∀ address, restored.nodes.lookup address = sampleFs.nodes.lookup address) ∧
      ∃ smaller target file, deleteFile (some [100, slash, 102]) sampleFs = .ok (.success, smaller) ∧
        Deletes sampleFs smaller (some [100, slash, 102]) target file := by
  obtain ⟨fs', created⟩ : ∃ fs', createFile bumpAllocator (some [100, slash, 120]) ⟨false, fun _ => 7⟩ 2 0
      sampleFs = .ok (.success, fs') := ⟨_, rfl⟩
  obtain ⟨smaller, deleted⟩ : ∃ smaller,
      deleteFile (some [100, slash, 102]) sampleFs = .ok (.success, smaller) := ⟨_, rfl⟩
  obtain ⟨restored, undone, same⟩ :=
    (deleteFile_exact sampleFs_tree (some [100, slash, 120])).2 _ _ _ _ fs' created
  obtain ⟨target, file, deletes⟩ :=
    (deleteFile_exact sampleFs_tree (some [100, slash, 102])).1 smaller deleted
  exact ⟨fs', restored, created, undone, same, smaller, target, file, deleted, deletes⟩

end ArchaOS.FileSystem
