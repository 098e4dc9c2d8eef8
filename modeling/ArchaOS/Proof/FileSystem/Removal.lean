import ArchaOS.Proof.FileSystem.Tree

namespace ArchaOS.FileSystem

/-- The link that `unlink_child` reaches after these nodes. -/
def linkAfter (link : Link) : List Nat → Link
  | [] => link
  | child :: rest => linkAfter (.next child) rest

/-- The link behind the last sibling is its `next`. -/
theorem linkAfter_append (link : Link) (list : List Nat) (child : Nat) :
    linkAfter link (list ++ [child]) = .next child := by
  induction list generalizing link with
  | nil => rfl
  | cons _ _ ih => exact ih _

/-- The first link of a folder is its `children`. -/
theorem read_children {nodes : Nodes} {dir : Nat} {file : File}
    (found : nodes.lookup dir = some file) : Link.read nodes (.children dir) = .ok file.children := by
  simp only [Link.read, load_ok found, bind, Except.bind, pure, Except.pure]

/-- The link of a child is its `next`. -/
theorem read_next {nodes : Nodes} {child : Nat} {file : File}
    (found : nodes.lookup child = some file) : Link.read nodes (.next child) = .ok file.next := by
  simp only [Link.read, load_ok found, bind, Except.bind, pure, Except.pure]

/-- The loop of `unlink_child` stops at the link that points to the target. -/
theorem findLink_spec {nodes : Nodes} {target first bound : Nat} {link : Link} {before after : List Nat}
    (read : Link.read nodes link = .ok first) (listed : Listed nodes first (before ++ target :: after))
    (missing : target ∉ before) (enough : before.length < bound) :
    findLink nodes target bound link = .ok (some (linkAfter link before)) := by
  induction before generalizing first bound link with
  | nil =>
      cases bound with
      | zero => simp at enough
      | succ bound =>
          obtain ⟨same, present, _⟩ := listed
          subst same
          simp only [findLink, read, bind, Except.bind, present, if_false, if_true]
          rfl
  | cons here rest ih =>
      cases bound with
      | zero => simp at enough
      | succ bound =>
          obtain ⟨same, present, file, found, later⟩ := listed
          subst same
          have different : first ≠ target := fun same => missing (by simp [same])
          have step := ih (read_next found) later (fun member => missing (by simp [member]))
            (by simpa using enough)
          simp only [findLink, read, bind, Except.bind, present, if_false, different]
          exact step

/-- A file with other sibling and child links. -/
structure SameContent (left right : File) : Prop where
  parent : left.parent = right.parent
  name : left.name = right.name
  flags : left.flags = right.flags
  data : left.data = right.data
  size : left.size = right.size

/-- The nodes after a node has been taken out of its directory and released. -/
structure Removed (nodes nodes' : Nodes) (kids : Nat → List Nat) (parent target : Nat) : Prop where
  gone : target ∉ nodes'
  kept : ∀ address, address ≠ target → ∀ file, nodes.lookup address = some file →
    ∃ file', nodes'.lookup address = some file' ∧ SameContent file' file ∧
      (address ≠ parent → file'.children = file.children) ∧
      (address ∉ kids parent → file'.next = file.next)
  old : ∀ address, address ∈ nodes' → address ∈ nodes
  listed : ∀ file, nodes'.lookup parent = some file →
    Listed nodes' file.children ((kids parent).erase target)

/-- A file has its own content. -/
theorem SameContent.refl (file : File) : SameContent file file := ⟨rfl, rfl, rfl, rfl, rfl⟩

/-- A list without one of its nodes, after the link to it has been redirected. -/
theorem listed_skip {nodes nodes' : Nodes} {target prev : Nat} {targetFile prevFile : File}
    (skipped : nodes.lookup target = some targetFile)
    (redirected : nodes'.lookup prev = some { prevFile with next := targetFile.next })
    (others : ∀ address, address ≠ prev → address ≠ target →
      nodes'.lookup address = nodes.lookup address)
    {first : Nat} {before after : List Nat}
    (listed : Listed nodes first (before ++ prev :: target :: after))
    (once : (before ++ prev :: target :: after).Nodup) :
    Listed nodes' first (before ++ prev :: after) := by
  induction before generalizing first with
  | nil =>
      obtain ⟨same, present, file, found, same', _, file', found', later⟩ := listed
      rw [skipped] at found'
      rw [← Option.some.inj found'] at later
      refine ⟨same, present, _, redirected, ?_⟩
      apply later.frame
      intro child member found look
      have parts := List.nodup_cons.mp once
      have rest := List.nodup_cons.mp parts.2
      refine ⟨found, ?_, rfl⟩
      rw [others child (fun here => parts.1 (by simp [← here, member]))
        (fun here => rest.1 (here ▸ member)), look]
  | cons here rest ih =>
      obtain ⟨same, present, file, found, later⟩ := listed
      have parts := List.nodup_cons.mp once
      refine ⟨same, present, file, ?_, ih later parts.2⟩
      rw [others here (fun equal => parts.1 (by simp [equal])) (fun equal => parts.1 (by simp [equal])),
        found]

section Unlinking

variable {nodes : Nodes} {kids : Nat → List Nat} {depth : Nat → Nat} {target : Nat} {file : File}

/-- The nodes after a node has been unlinked and released by a change of one other node. -/
def afterUnlink (nodes : Nodes) (target : Nat) (file : File) (changed : Nat) (entry : File) : Nodes :=
  ((nodes.insert changed entry).insert target { file with next := 0 }).erase target

section Changed

variable {changed : Nat} {entry : File} (notTarget : changed ≠ target)
include notTarget

/-- The node with the link gets its new entry. -/
theorem afterUnlink_changed :
    (afterUnlink nodes target file changed entry).lookup changed = some entry := by
  rw [afterUnlink, AList.lookup_erase_ne notTarget, AList.lookup_insert_ne notTarget,
    AList.lookup_insert]

omit notTarget in
/-- The other nodes stay as they were. -/
theorem afterUnlink_other {address : Nat} (away : address ≠ changed) (other : address ≠ target) :
    (afterUnlink nodes target file changed entry).lookup address = nodes.lookup address := by
  rw [afterUnlink, AList.lookup_erase_ne other, AList.lookup_insert_ne other,
    AList.lookup_insert_ne away]

/-- Redirecting one link removes the target, given the list that is left. -/
theorem removed_of_redirect {parent : Nat} {before : File}
    (found : nodes.lookup changed = some before) (content : SameContent entry before)
    (children : changed ≠ parent → entry.children = before.children)
    (next : changed ∉ kids parent → entry.next = before.next)
    (listed : ∀ dir, (afterUnlink nodes target file changed entry).lookup parent = some dir →
      Listed (afterUnlink nodes target file changed entry) dir.children ((kids parent).erase target)) :
    Removed nodes (afterUnlink nodes target file changed entry) kids parent target where
  gone := by simp [afterUnlink, AList.mem_erase]
  kept := by
    intro address other file' look
    by_cases same : address = changed
    · rw [same, found] at look
      rw [same, ← Option.some.inj look]
      exact ⟨entry, afterUnlink_changed notTarget, content, children, next⟩
    · exact ⟨file', by rw [afterUnlink_other same other, look], SameContent.refl file',
        fun _ => rfl, fun _ => rfl⟩
  old := by
    intro address live
    rw [afterUnlink, AList.mem_erase, AList.mem_insert, AList.mem_insert] at live
    rcases live.2 with same | same | old
    · exact absurd same live.1
    · exact same ▸ mem_of_lookup found
    · exact old
  listed := listed

end Changed

/-- A directory is not its own child. -/
theorem Tree.parent_ne (tree : Tree nodes kids depth) {parent child : Nat} (live : parent ∈ nodes)
    (member : child ∈ kids parent) : parent ≠ child := by
  intro same
  have rises := tree.rises parent live child member
  rw [same] at rises
  omega

/-- The first child of a directory is taken out through the directory. -/
theorem Tree.removed_first (tree : Tree nodes kids depth) (found : nodes.lookup target = some file)
    {dir : File} (foundDir : nodes.lookup file.parent = some dir) {after : List Nat}
    (split : kids file.parent = target :: after) :
    Removed nodes (afterUnlink nodes target file file.parent { dir with children := file.next }) kids
      file.parent target := by
  have parentLive := mem_of_lookup foundDir
  have notSelf := tree.parent_ne parentLive (by simp [split] : target ∈ kids file.parent)
  have listed := tree.lists file.parent dir foundDir
  have once := tree.once file.parent parentLive
  rw [split] at listed once
  refine removed_of_redirect notSelf foundDir ⟨rfl, rfl, rfl, rfl, rfl⟩ (fun moved => absurd rfl moved)
    (fun _ => rfl) ?_
  intro dir' look
  rw [afterUnlink_changed notSelf] at look
  rw [← Option.some.inj look, split, List.erase_cons_head]
  obtain ⟨_, _, file', found', later⟩ := listed
  rw [found] at found'
  rw [← Option.some.inj found'] at later
  apply later.frame
  intro child inside childFile childLook
  have notTarget : child ≠ target := fun same => (List.nodup_cons.mp once).1 (same ▸ inside)
  by_cases same : child = file.parent
  · rw [same, foundDir] at childLook
    rw [same, ← Option.some.inj childLook]
    exact ⟨_, afterUnlink_changed notSelf, rfl⟩
  · exact ⟨childFile, by rw [afterUnlink_other same notTarget, childLook], rfl⟩

/-- A later child of a directory is taken out through the child before it. -/
theorem Tree.removed_later (tree : Tree nodes kids depth) (found : nodes.lookup target = some file)
    {prev : Nat} {dir prevFile : File} (foundDir : nodes.lookup file.parent = some dir)
    (foundPrev : nodes.lookup prev = some prevFile) {before after : List Nat}
    (split : kids file.parent = before ++ prev :: target :: after) :
    Removed nodes (afterUnlink nodes target file prev { prevFile with next := file.next }) kids
      file.parent target := by
  have parentLive := mem_of_lookup foundDir
  have prevMember : prev ∈ kids file.parent := by simp [split]
  have notSelf := tree.parent_ne parentLive (by simp [split] : target ∈ kids file.parent)
  have notPrev := tree.parent_ne parentLive prevMember
  have listed := tree.lists file.parent dir foundDir
  have once := tree.once file.parent parentLive
  rw [split] at listed once
  have apart := List.nodup_append.mp once
  have different : prev ≠ target := fun same => (List.nodup_cons.mp apart.2.1).1 (by simp [same])
  have missing : target ∉ before := fun inside => apart.2.2 target inside target (by simp) rfl
  refine removed_of_redirect different foundPrev ⟨rfl, rfl, rfl, rfl, rfl⟩ (fun _ => rfl)
    (fun away => absurd prevMember away) ?_
  intro dir' look
  rw [afterUnlink_other notPrev notSelf, foundDir] at look
  have erased : (kids file.parent).erase target = before ++ prev :: after := by
    rw [split, List.erase_append_right _ missing, List.erase_cons_tail (by simpa using different),
      List.erase_cons_head]
  rw [← Option.some.inj look, erased]
  exact listed_skip found (afterUnlink_changed different)
    (fun address away notTarget => afterUnlink_other away notTarget) listed once

/-- `unlink_child` takes the first child of a directory out through the directory. -/
theorem unlinkChild_first {parent : Nat} {dir : File} (foundDir : nodes.lookup parent = some dir)
    (found : nodes.lookup target = some file) (first : dir.children = target) (present : target ≠ 0)
    (different : target ≠ parent) :
    ∃ nodes', unlinkChild nodes parent target = .ok (some nodes') ∧
      nodes'.erase target = afterUnlink nodes target file parent { dir with children := file.next } := by
  have look : (nodes.insert parent { dir with children := file.next }).lookup target = some file := by
    rw [AList.lookup_insert_ne different, found]
  have search : findLink nodes target (walkBound nodes) (.children parent) =
      .ok (some (.children parent)) := by
    simp only [walkBound, findLink, read_children foundDir, first, bind, Except.bind, present, if_false,
      if_true]
  refine ⟨_, ?_, rfl⟩
  simp only [unlinkChild, search, load_ok found, Link.write, load_ok foundDir, bind, Except.bind, pure,
    Except.pure]
  rw [load_ok look]

/-- `unlink_child` finds every node of a tree in its directory. -/
theorem Tree.unlinkChild_removed (tree : Tree nodes kids depth) (found : nodes.lookup target = some file)
    (top : target ≠ root) :
    ∃ nodes', unlinkChild nodes file.parent target = .ok (some nodes') ∧
      Removed nodes (nodes'.erase target) kids file.parent target := by
  obtain ⟨parentLive, member⟩ := tree.listed target file found top
  obtain ⟨dir, foundDir⟩ := lookup_of_mem parentLive
  have listed := tree.lists file.parent dir foundDir
  have once := tree.once file.parent parentLive
  have bounded := listed.bounded once
  have notSelf := tree.parent_ne parentLive member
  obtain ⟨before, after, split⟩ := List.append_of_mem member
  rw [split] at listed once bounded
  have missing : target ∉ before :=
    fun inside => (List.nodup_append.mp once).2.2 target inside target (by simp) rfl
  have search := findLink_spec (read_children foundDir) listed missing
    (show before.length < walkBound nodes by simp at bounded; omega)
  rcases before.eq_nil_or_concat with nil | ⟨others, prev, same⟩
  · subst nil
    obtain ⟨first, present, _⟩ := listed
    obtain ⟨nodes', unlinked, same⟩ := unlinkChild_first foundDir found first present notSelf.symm
    exact ⟨nodes', unlinked, same ▸ tree.removed_first found foundDir split⟩
  · rw [List.concat_eq_append] at same
    subst same
    rw [linkAfter_append] at search
    obtain ⟨prevFile, foundPrev⟩ := lookup_of_mem (listed.member (show prev ∈ _ by simp)).2
    have notPrev : prev ≠ target := fun same => missing (by simp [same])
    have look : (nodes.insert prev { prevFile with next := file.next }).lookup target = some file := by
      rw [AList.lookup_insert_ne notPrev.symm, found]
    have splitAt : kids file.parent = others ++ prev :: target :: after := by simpa using split
    refine ⟨_, ?_, tree.removed_later found foundDir foundPrev splitAt⟩
    simp only [unlinkChild, search, load_ok found, Link.write, load_ok foundPrev, bind, Except.bind,
      pure, Except.pure]
    rw [load_ok look]

/-- The children of each directory after a node has been removed. -/
def removedKids (kids : Nat → List Nat) (parent target : Nat) : Nat → List Nat :=
  Function.update kids parent ((kids parent).erase target)

/-- Only the target is taken from the children. -/
theorem removedKids_sublist (kids : Nat → List Nat) (parent target address : Nat) :
    (removedKids kids parent target address).Sublist (kids address) := by
  by_cases here : address = parent
  · rw [here, removedKids, Function.update_self]
    exact List.erase_sublist
  · rw [removedKids, Function.update_of_ne here]

section Removing

variable {nodes' : Nodes} {parent : Nat}

/-- Every node that is left was there before. -/
theorem Removed.origin (removed : Removed nodes nodes' kids parent target) {address : Nat} {after : File}
    (look : nodes'.lookup address = some after) : address ≠ target ∧
      ∃ before, nodes.lookup address = some before ∧ SameContent after before ∧
        (address ≠ parent → after.children = before.children) := by
  have live := mem_of_lookup look
  have notTarget : address ≠ target := fun same => removed.gone (same ▸ live)
  obtain ⟨before, lookBefore⟩ := lookup_of_mem (removed.old address live)
  obtain ⟨other, lookOther, content, children, _⟩ := removed.kept address notTarget before lookBefore
  rw [look] at lookOther
  rw [← Option.some.inj lookOther] at content children
  exact ⟨notTarget, before, lookBefore, content, children⟩

/-- Every other node stays. -/
theorem Removed.stays (removed : Removed nodes nodes' kids parent target) {address : Nat}
    (live : address ∈ nodes) (notTarget : address ≠ target) : address ∈ nodes' := by
  obtain ⟨before, lookBefore⟩ := lookup_of_mem live
  obtain ⟨after, lookAfter, _⟩ := removed.kept address notTarget before lookBefore
  exact mem_of_lookup lookAfter

/-- Every other node keeps its name. -/
theorem Removed.name_kept (removed : Removed nodes nodes' kids parent target) {address : Nat}
    (live : address ∈ nodes) (notTarget : address ≠ target) :
    (nodes'.lookup address).map File.name = (nodes.lookup address).map File.name := by
  obtain ⟨before, lookBefore⟩ := lookup_of_mem live
  obtain ⟨after, lookAfter, content, _⟩ := removed.kept address notTarget before lookBefore
  rw [lookBefore, lookAfter]
  exact congrArg some content.name

variable (tree : Tree nodes kids depth) (found : nodes.lookup target = some file) (top : target ≠ root)
include tree found top

/-- The removed node stands in no directory. -/
theorem Tree.removedKids_ne {address child : Nat} (live : address ∈ nodes)
    (inside : child ∈ removedKids kids file.parent target address) : child ≠ target := by
  intro same
  obtain ⟨parentLive, _⟩ := tree.listed target file found top
  obtain ⟨_, childFile, look, up⟩ :=
    tree.parents address live child ((removedKids_sublist _ _ _ _).subset inside)
  rw [same, found] at look
  rw [← Option.some.inj look] at up
  rw [same, ← up, removedKids, Function.update_self] at inside
  exact (tree.once file.parent parentLive).not_mem_erase inside

/-- The list of another directory does not change. -/
theorem Tree.removed_lists (removed : Removed nodes nodes' kids file.parent target) {address : Nat}
    {before : File} (here : address ≠ file.parent) (look : nodes.lookup address = some before) :
    Listed nodes' before.children (kids address) := by
  obtain ⟨parentLive, member⟩ := tree.listed target file found top
  apply (tree.lists address before look).frame
  intro child inside childFile childLook
  obtain ⟨_, childFile', childLook', up⟩ := tree.parents address (mem_of_lookup look) child inside
  rw [childLook] at childLook'
  rw [← Option.some.inj childLook'] at up
  have away : child ∉ kids file.parent := by
    intro shared
    obtain ⟨_, other, otherLook, otherUp⟩ := tree.parents file.parent parentLive child shared
    rw [childLook] at otherLook
    rw [← Option.some.inj otherLook, up] at otherUp
    exact here otherUp
  have notTarget : child ≠ target := fun same => away (same ▸ member)
  obtain ⟨kept, keptLook, _, _, next⟩ := removed.kept child notTarget childFile childLook
  exact ⟨kept, keptLook, next away⟩

/-- Taking out a childless node leaves a tree. -/
theorem Tree.removed (childless : kids target = [])
    (removed : Removed nodes nodes' kids file.parent target) :
    Tree nodes' (removedKids kids file.parent target) depth where
  rootNode := by
    obtain ⟨rootFile, foundRoot, up, isDir⟩ := tree.rootNode
    obtain ⟨after, lookAfter, content, _⟩ := removed.kept root top.symm rootFile foundRoot
    refine ⟨after, lookAfter, content.parent.trans up, ?_⟩
    rw [File.isDirectory, content.flags]
    exact isDir
  lists := by
    intro address after look
    by_cases here : address = file.parent
    · rw [here, removedKids, Function.update_self]
      exact removed.listed after (here ▸ look)
    · obtain ⟨_, before, lookBefore, _, children⟩ := removed.origin look
      rw [removedKids, Function.update_of_ne here, children here]
      exact tree.removed_lists found top removed here lookBefore
  once := by
    intro address live
    exact (tree.once address (removed.old address live)).sublist (removedKids_sublist _ _ _ _)
  parents := by
    intro address live child inside
    have old := removed.old address live
    obtain ⟨notRoot, childFile, look, up⟩ :=
      tree.parents address old child ((removedKids_sublist _ _ _ _).subset inside)
    have notTarget := tree.removedKids_ne found top old inside
    obtain ⟨kept, keptLook, content, _⟩ := removed.kept child notTarget childFile look
    exact ⟨notRoot, kept, keptLook, content.parent.trans up⟩
  listed := by
    intro child after look notRoot
    obtain ⟨notTarget, before, lookBefore, content, _⟩ := removed.origin look
    obtain ⟨live, inside⟩ := tree.listed child before lookBefore notRoot
    rw [content.parent]
    have parentKept : before.parent ≠ target := by
      intro same
      rw [same, childless] at inside
      simp at inside
    refine ⟨removed.stays live parentKept, ?_⟩
    by_cases here : before.parent = file.parent
    · rw [here] at inside ⊢
      rw [removedKids, Function.update_self]
      exact (List.mem_erase_of_ne notTarget).mpr inside
    · rwa [removedKids, Function.update_of_ne here]
  rises := by
    intro address live child inside
    exact tree.rises address (removed.old address live) child ((removedKids_sublist _ _ _ _).subset inside)
  directories := by
    intro address after look some
    obtain ⟨_, before, lookBefore, content, _⟩ := removed.origin look
    rw [File.isDirectory, content.flags]
    apply tree.directories address before lookBefore
    intro none
    apply some
    have inside := removedKids_sublist kids file.parent target address
    rw [none] at inside
    exact List.sublist_nil.mp inside
  distinct := by
    intro address live
    have old := removed.old address live
    apply ((tree.distinct address old).sublist (removedKids_sublist _ _ _ _)).imp_of_mem
    intro left right leftMember rightMember apart
    have sublist := removedKids_sublist kids file.parent target address
    obtain ⟨_, _, leftLook, _⟩ := tree.parents address old left (sublist.subset leftMember)
    obtain ⟨_, _, rightLook, _⟩ := tree.parents address old right (sublist.subset rightMember)
    rw [removed.name_kept (mem_of_lookup leftLook) (tree.removedKids_ne found top old leftMember),
      removed.name_kept (mem_of_lookup rightLook) (tree.removedKids_ne found top old rightMember)]
    exact apart
  names := by
    intro child after look notRoot
    obtain ⟨_, before, lookBefore, content, _⟩ := removed.origin look
    rw [content.name]
    exact tree.names child before lookBefore notRoot

end Removing

end Unlinking

end ArchaOS.FileSystem
