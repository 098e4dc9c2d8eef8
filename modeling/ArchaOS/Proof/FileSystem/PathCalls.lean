import ArchaOS.Proof.FileSystem.Refinement

namespace ArchaOS.FileSystem

open Library

/-- An item whose image no other item has is erased before or after a map. -/
theorem map_erase_of_apart {A B : Type} [BEq A] [LawfulBEq A] [BEq B] [LawfulBEq B] {f : A → B} {item : A}
    {list : List A} (apart : ∀ other ∈ list, f other = f item → other = item) :
    (list.erase item).map f = (list.map f).erase (f item) := by
  induction list with
  | nil => rfl
  | cons head rest ih =>
      by_cases same : head = item
      · rw [same, List.erase_cons_head, List.map_cons, List.erase_cons_head]
      · have other : f head ≠ f item := fun equal => same (apart head (by simp) equal)
        rw [List.erase_cons_tail (by simpa using same), List.map_cons, List.map_cons,
          List.erase_cons_tail (by simpa using other), ih fun next member => apart next (by simp [member])]

/-- Removing a path takes its name from the parent. -/
theorem PathStore.remove_parent (store : PathStore) (front : List CString) (name : CString) :
    store.remove (front ++ [name]) front =
      (store front).map fun dir => { dir with names := dir.names.erase name } := by
  have other : front ≠ front ++ [name] := by simp
  rw [PathStore.remove, Function.update_of_ne other, List.dropLast_concat, Function.update_self]
  simp

/-- Removing a path leaves the paths that are neither it nor its parent. -/
theorem PathStore.remove_other (store : PathStore) {front path : List CString} {name : CString}
    (notHere : path ≠ front ++ [name]) (notParent : path ≠ front) :
    store.remove (front ++ [name]) path = store path := by
  rw [PathStore.remove, Function.update_of_ne notHere, List.dropLast_concat,
    Function.update_of_ne notParent]

section Removing

variable {nodes nodes' : Nodes} {kids : Nat → List Nat} {depth : Nat → Nat} {target : Nat} {file : File}
  {store : PathStore} {front : List CString}

section Taking

variable (tree : Tree nodes kids depth) (found : nodes.lookup target = some file) (top : target ≠ root)
  (childless : kids target = []) (removed : Removed nodes nodes' kids file.parent target)

include tree top removed

section

include childless

/-- The other nodes stand where they stood. -/
theorem Removed.at_iff (path : List CString) (address : Nat) :
    At nodes' path address ↔ At nodes path address ∧ address ≠ target := by
  induction path using List.reverseRecOn generalizing address with
  | nil =>
      rw [at_nil, at_nil]
      constructor
      · intro same
        exact ⟨same, same ▸ top.symm⟩
      · exact And.left
  | append_singleton path name ih =>
      rw [at_snoc, at_snoc]
      constructor
      · intro there
        obtain ⟨notRoot, after, look, named, up⟩ := there
        obtain ⟨other, before, lookBefore, content, _⟩ := removed.origin look
        rw [content.parent] at up
        exact ⟨⟨notRoot, before, lookBefore, content.name.symm.trans named, ((ih _).mp up).1⟩, other⟩
      · intro there
        obtain ⟨⟨notRoot, before, look, named, up⟩, other⟩ := there
        obtain ⟨after, lookAfter, content, _⟩ := removed.kept address other before look
        refine ⟨notRoot, after, lookAfter, content.name.trans named, ?_⟩
        rw [content.parent]
        refine (ih _).mpr ⟨up, ?_⟩
        intro same
        have inside := (tree.listed address before look notRoot).2
        rw [same, childless] at inside
        simp at inside

end

include found

/-- The names below a directory are those of before, without the removed one. -/
theorem Removed.names_kept {address : Nat} {names : List CString} (live : address ∈ nodes)
    (before : (kids address).map (fun child => (nodes.lookup child).map File.name) = names.map some) :
    (removedKids kids file.parent target address).map (fun child => (nodes'.lookup child).map File.name) =
      (if address = file.parent then names.erase file.name else names).map some := by
  have same : (removedKids kids file.parent target address).map
      (fun child => (nodes'.lookup child).map File.name) =
        (removedKids kids file.parent target address).map
          (fun child => (nodes.lookup child).map File.name) := by
    apply List.map_congr_left
    intro child member
    have old := (removedKids_sublist kids file.parent target address).subset member
    obtain ⟨_, _, look, _⟩ := tree.parents address live child old
    exact removed.name_kept (mem_of_lookup look) (tree.removedKids_ne found top live member)
  rw [same]
  by_cases here : address = file.parent
  · have apart : ∀ child ∈ kids address, (nodes.lookup child).map File.name =
        (nodes.lookup target).map File.name → child = target := by
      intro child member equal
      have inside := (tree.listed target file found top).2
      rw [← here] at inside
      exact tree.sibling_unique live member inside equal
    have erased := map_erase_of_apart apart
    rw [before, found, Option.map_some, ← List.map_erase (Option.some_injective _)] at erased
    rw [here, removedKids, Function.update_self, if_pos rfl, ← here, ← erased]
  · rw [removedKids, Function.update_of_ne here, if_neg here, before]

include childless

/-- A removed node leaves its path and nothing else changes. -/
theorem Represents.taken (shows_ : Represents nodes kids store)
    (here : At nodes (front ++ [file.name]) target) :
    Represents nodes' (removedKids kids file.parent target) (store.remove (front ++ [file.name])) where
  present := by
    intro path address after there look
    have away := (removed.at_iff tree top childless path address).mp there
    obtain ⟨_, before, lookBefore, content, _⟩ := removed.origin look
    obtain ⟨entry, value, shown⟩ := shows_.present path address before away.1 lookBefore
    have names := removed.names_kept tree found top (mem_of_lookup lookBefore) shown.names
    have notHere : path ≠ front ++ [file.name] := fun same =>
      away.2 (tree.at_unique away.1 (same ▸ here))
    obtain ⟨_, other, lookTarget, _, above⟩ := (at_snoc _ _ _ _).mp here
    rw [found] at lookTarget
    rw [← Option.some.inj lookTarget] at above
    by_cases atParent : address = file.parent
    · obtain rfl : path = front := at_path_unique away.1 (atParent ▸ above)
      rw [if_pos atParent] at names
      refine ⟨_, by rw [PathStore.remove_parent, value, Option.map_some], ?_⟩
      exact ⟨shown.flags.trans content.flags.symm, content.size.trans shown.size,
        content.data.trans shown.data, names⟩
    · have notParent : path ≠ front := fun same => atParent (tree.at_unique away.1 (same ▸ above))
      rw [if_neg atParent] at names
      refine ⟨entry, by rw [PathStore.remove_other store notHere notParent, value], ?_⟩
      exact ⟨shown.flags.trans content.flags.symm, content.size.trans shown.size,
        content.data.trans shown.data, names⟩
  absent := by
    intro path missing
    by_cases same : path = front ++ [file.name]
    · rw [same, PathStore.remove, Function.update_self]
    · have gone : ∀ address, ¬ At nodes path address := by
        intro address old
        by_cases other : address = target
        · exact same (at_path_unique old (other ▸ here))
        · exact missing address ((removed.at_iff tree top childless path address).mpr ⟨old, other⟩)
      obtain ⟨_, other, lookTarget, _, above⟩ := (at_snoc _ _ _ _).mp here
      have notParent : path ≠ front := fun equal => gone _ (equal ▸ above)
      rw [PathStore.remove_other store same notParent]
      exact shows_.absent path gone

end Taking

/-- The same links lead to the same nodes. -/
theorem SameLinks.at_iff (same : SameLinks nodes nodes') (path : List CString) (address : Nat) :
    At nodes' path address ↔ At nodes path address := by
  induction path using List.reverseRecOn generalizing address with
  | nil => exact Iff.rfl
  | append_singleton path name ih =>
      rw [at_snoc, at_snoc]
      constructor
      · intro there
        obtain ⟨notRoot, after, look, named, up⟩ := there
        obtain ⟨before, lookBefore, parent, _, sameName, _⟩ := same.origin look
        rw [parent] at up
        exact ⟨notRoot, before, lookBefore, sameName.symm.trans named, (ih _).mp up⟩
      · intro there
        obtain ⟨notRoot, before, look, named, up⟩ := there
        obtain ⟨after, lookAfter, parent, _, _, sameName, _⟩ := same.kept address before look
        refine ⟨notRoot, after, lookAfter, sameName.trans named, ?_⟩
        rw [parent]
        exact (ih _).mpr up

/-- New contents of one node change one path. -/
theorem Represents.rewritten (tree : Tree nodes kids depth) (shows_ : Represents nodes kids store)
    {here : List CString} {entry : PathEntry} {data : Option (List UInt8)} {bytes : List UInt8}
    (there : At nodes here target) (found : nodes.lookup target = some file)
    (value : store here = some entry) (size : file.size = bytes.length)
    (shown : data = if bytes = [] then none else some bytes) :
    Represents (nodes.insert target { file with data := data }) kids
      (Function.update store here (some { entry with bytes := bytes })) where
  present := by
    have links := rewrite_links found data
    intro path address after at_ look
    have before := (links.at_iff path address).mp at_
    have names : (kids address).map
        (fun child => ((nodes.insert target { file with data := data }).lookup child).map File.name) =
          (kids address).map (fun child => (nodes.lookup child).map File.name) :=
      List.map_congr_left fun child _ => links.name child
    by_cases same : address = target
    · obtain rfl : path = here := at_path_unique before (same ▸ there)
      obtain ⟨old, oldValue, oldShown⟩ := shows_.present path address file before (same ▸ found)
      rw [value] at oldValue
      obtain rfl := Option.some.inj oldValue
      rw [same, AList.lookup_insert] at look
      rw [← Option.some.inj look]
      exact ⟨_, Function.update_self _ _ _, oldShown.flags, size, shown, names.trans oldShown.names⟩
    · have other : path ≠ here := fun equal => same (tree.at_unique before (equal ▸ there))
      rw [AList.lookup_insert_ne same] at look
      obtain ⟨old, oldValue, oldShown⟩ := shows_.present path address after before look
      exact ⟨old, by rw [Function.update_of_ne other, oldValue], oldShown.flags, oldShown.size,
        oldShown.data, names.trans oldShown.names⟩
  absent := by
    have links := rewrite_links found data
    intro path missing
    have before : ∀ address, ¬ At nodes path address := fun address old =>
      missing address ((links.at_iff path address).mpr old)
    have other : path ≠ here := fun equal => before target (equal ▸ there)
    rw [Function.update_of_ne other]
    exact shows_.absent path before

/-- The loop of `kernel_main` prints the listed nodes. -/
theorem listEntries_spec {first bound : Nat} {list : List Nat} (listed : Listed nodes first list)
    (enough : list.length < bound) : listEntries nodes bound first =
      .ok ((list.filterMap nodes.lookup).map fun file => (file.name, file.flags)) := by
  induction list generalizing first bound with
  | nil =>
      cases bound with
      | zero => simp at enough
      | succ bound =>
          have null : first = 0 := listed
          rw [listEntries, if_pos null]
          rfl
  | cons here rest ih =>
      cases bound with
      | zero => simp at enough
      | succ bound =>
          obtain ⟨address, present, file, found, later⟩ := listed
          rw [address, listEntries, if_neg present, load_ok found]
          simp only [bind, Except.bind, ih later (by simpa using enough), List.filterMap_cons, found]
          rfl

section Calling

variable {fs : Fs} {store : PathStore} (refines_ : Refines fs.nodes store)
include refines_

/-- What a call does with the node that its path leads to, it does with the entry at the path. -/
theorem Refines.onEntry (path : Option CString) :
    (∃ status, parsePath fs.nodes path = .ok (.error status) ∧
      ∀ {Result : Type} (failed : FsReturn → Result) found,
        store.onEntry path failed found = failed status) ∨
    ∃ kids depth target here file entry, Tree fs.nodes kids depth ∧ Represents fs.nodes kids store ∧
      parsePath fs.nodes path = .ok (.ok target) ∧ At fs.nodes here target ∧
      fs.nodes.lookup target = some file ∧ store here = some entry ∧
      Shown fs.nodes (kids target) file entry ∧
      ∀ {Result : Type} (failed : FsReturn → Result) found,
        store.onEntry path failed found = found here entry := by
  obtain ⟨kids, depth, tree, shows_⟩ := refines_
  rcases shows_.parsePath tree path with
    ⟨status, parsed, located⟩ | ⟨target, here, file, entry, parsed, located, there, found, value, shown⟩
  · refine Or.inl ⟨status, parsed, ?_⟩
    intro Result failed found
    rw [PathStore.onEntry, located]
  · refine Or.inr ⟨kids, depth, target, here, file, entry, tree, shows_, parsed, there, found, value, shown,
      ?_⟩
    intro Result failed found
    rw [PathStore.onEntry, located]
    dsimp only
    rw [value]

omit refines_ in
/-- A path that does not resolve is no success. -/
theorem parsePath_failed (refines_ : Refines fs.nodes store) {path : Option CString} {status : FsReturn}
    (parsed : parsePath fs.nodes path = .ok (.error status)) : status ≠ .success := by
  obtain ⟨kids, depth, tree, _⟩ := refines_
  obtain ⟨result, parsed', inside⟩ := tree.parsePath_total path
  rw [parsed] at parsed'
  rw [← Except.ok.inj parsed'] at inside
  exact inside.failed.1

/-- `delete_file` does on the nodes what it does on the paths. -/
theorem Refines.delete (path : Option CString) :
    ∃ fs', deleteFile path fs = .ok ((store.delete path).1, fs') ∧
      Refines fs'.nodes (store.delete path).2 := by
  rw [PathStore.delete]
  rcases refines_.onEntry path with ⟨status, parsed, same⟩ |
    ⟨kids, depth, target, here, file, entry, tree, shows_, parsed, there, found, value, shown, same⟩
  · rw [same, deleteFile_error parsed]
    exact ⟨fs, rfl, refines_⟩
  · rw [same]
    by_cases top : here = []
    · obtain rfl : target = root := by
        rw [top] at there
        exact there
      rw [if_pos top]
      refine ⟨fs, ?_, refines_⟩
      simp only [deleteFile, parsed, bind, Except.bind, if_true]
      rfl
    · rw [if_neg top]
      obtain ⟨front, name, split⟩ := here.eq_nil_or_concat.resolve_left top
      rw [List.concat_eq_append] at split
      subst split
      obtain ⟨below, other, look, named, above⟩ := (at_snoc _ _ _ _).mp there
      rw [found] at look
      obtain rfl := Option.some.inj look
      have filled : file.isDirectory ∧ file.children ≠ 0 ↔ entry.isDirectory ∧ entry.names ≠ [] := by
        rw [shown.directory, ne_eq, ne_eq, shown.names_nil]
        have listed := tree.lists target file found
        cases list : kids target with
        | nil =>
            rw [list] at listed
            have none_ : file.children = 0 := listed
            simp [none_]
        | cons child rest =>
            rw [list] at listed
            obtain ⟨first, present, _⟩ := listed
            simp [first, present]
      by_cases full : file.isDirectory ∧ file.children ≠ 0
      · rw [if_pos (filled.mp full)]
        refine ⟨fs, ?_, refines_⟩
        simp only [deleteFile, parsed, bind, Except.bind, below, if_false, load_ok found]
        exact if_pos full
      · rw [if_neg (fun other => full (filled.mpr other))]
        have nonzero := tree.nonzero (tree.parentLive found)
        obtain ⟨nodes', unlinked, removed⟩ := tree.unlinkChild_removed found below
        have childless := tree.childless found full
        refine ⟨_, deleteFile_unlinked parsed below found full nonzero unlinked, _, _,
          tree.removed found below childless removed, ?_⟩
        rw [← named] at there ⊢
        exact shows_.taken tree found below childless removed there

/-- `read_file_content` reads what stands at the path. -/
theorem Refines.read (path : Option CString) (buffer : Buffer) (bufSize : Nat) :
    readFileContent path buffer bufSize fs =
      .ok ((store.read path buffer bufSize).status, (store.read path buffer bufSize).bytes) ∧
      (store.read path buffer bufSize).entries = [] := by
  rw [PathStore.read]
  rcases refines_.onEntry path with ⟨status, parsed, same⟩ |
    ⟨kids, depth, target, here, file, entry, tree, shows_, parsed, there, found, value, shown, same⟩
  · rw [same, readFileContent_error parsed]
    exact ⟨rfl, rfl⟩
  · rw [same, readFileContent_answer parsed found, readAnswer]
    have filled : file.size ≠ 0 ↔ entry.bytes ≠ [] := by
      rw [shown.size, ne_eq, List.length_eq_zero_iff]
    have stored : ¬ (file.size ≠ 0 ∧ file.data = none) := by
      rw [filled, shown.data]
      intro both
      rw [if_neg both.1] at both
      cases both.2
    have contents : (file.data.getD []).take file.size = entry.bytes := by
      rw [shown.data, shown.size]
      split
      · rename_i none_
        simp [none_]
      · simp
    simp only [shown.directory, ← filled, ← shown.size, if_neg stored, contents]
    split_ifs <;> exact ⟨rfl, rfl⟩

/-- `write_file_content` overwrites what stands at the path. -/
theorem Refines.write (path : Option CString) (buffer : Buffer) (bufSize : Nat) :
    ∃ fs', writeFileContent path buffer bufSize fs = .ok ((store.write path buffer bufSize).1, fs') ∧
      Refines fs'.nodes (store.write path buffer bufSize).2 := by
  rw [PathStore.write]
  rcases refines_.onEntry path with ⟨status, parsed, same⟩ |
    ⟨kids, depth, target, here, file, entry, tree, shows_, parsed, there, found, value, shown, same⟩
  · rw [same, writeFileContent_error parsed]
    exact ⟨fs, rfl, refines_⟩
  · rw [same, ← shown.size]
    have filled : file.size ≠ 0 ↔ entry.bytes ≠ [] := by
      rw [shown.size, ne_eq, List.length_eq_zero_iff]
    by_cases directory : file.isDirectory
    · rw [if_pos (shown.directory.mpr directory)]
      refine ⟨fs, ?_, refines_⟩
      simp only [writeFileContent, parsed, bind, Except.bind, load_ok found, directory, if_true]
      rfl
    · rw [if_neg (fun other => directory (shown.directory.mp other))]
      by_cases longer : bufSize > file.size
      · rw [if_pos longer]
        refine ⟨fs, ?_, refines_⟩
        simp only [writeFileContent, parsed, bind, Except.bind, load_ok found, directory, if_false, longer,
          if_true]
        rfl
      · have stored : ¬ (bufSize ≠ 0 ∧ file.data = none) := by
          intro both
          have some_ := filled.mp (by omega)
          rw [shown.data, if_neg some_] at both
          cases both.2
        rw [if_neg longer]
        by_cases null : file.size ≠ 0 ∧ buffer.null = true
        · rw [if_pos ⟨filled.mp null.1, null.2⟩]
          refine ⟨fs, ?_, refines_⟩
          simp only [writeFileContent, parsed, bind, Except.bind, load_ok found, directory, if_false, longer,
            stored]
          exact if_pos null
        · rw [if_neg fun both => null ⟨filled.mpr both.1, both.2⟩]
          refine ⟨{ fs with nodes := fs.nodes.insert target { file with
            data := file.data.map fun old => buffer.copy bufSize ++ old.drop bufSize } }, ?_,
            kids, depth, tree.sameLinks (rewrite_links found _), ?_⟩
          · simp only [writeFileContent, parsed, bind, Except.bind, load_ok found, directory, if_false,
              longer, stored, null]
            rfl
          · have length := buffer.copy_length bufSize
            apply shows_.rewritten tree there found value
            · rw [shown.size, List.length_append, List.length_drop, length, ← shown.size]
              omega
            · rw [shown.data]
              by_cases empty : entry.bytes = []
              · have none_ : bufSize = 0 := by
                  rw [shown.size, empty] at longer
                  simpa using longer
                simp [empty, none_, Buffer.copy]
              · rw [if_neg empty, if_neg, Option.map_some]
                intro both
                have short := congrArg List.length both
                rw [List.length_append, List.length_drop, length, ← shown.size, List.length_nil] at short
                exact filled.mpr empty (by omega)

/-- `list_files` and the loop behind it show the names below the path. -/
theorem Refines.list (path : Option CString) (old : Nat) :
    ∃ list, listFiles path (some old) fs = .ok ((store.list path).status, some list) ∧
      (store.list path).bytes = [] ∧
      ((store.list path).status ≠ .success → (store.list path).entries = []) ∧
      ((store.list path).status = .success →
        listEntries fs.nodes (walkBound fs.nodes) list = .ok (store.list path).entries) := by
  rw [PathStore.list]
  rcases refines_.onEntry path with ⟨status, parsed, same⟩ |
    ⟨kids, depth, target, here, file, entry, tree, shows_, parsed, there, found, value, shown, same⟩
  · rw [same]
    refine ⟨old, ?_, rfl, fun _ => rfl, ?_⟩
    · simp only [listFiles, parsed, bind, Except.bind]
      rfl
    · intro done
      exact absurd done (parsePath_failed refines_ parsed)
  · rw [same]
    refine ⟨file.children, ?_, rfl, fun failed => absurd rfl failed, ?_⟩
    · simp only [listFiles, parsed, bind, Except.bind, load_ok found]
      rfl
    · intro _
      have listed := tree.lists target file found
      rw [listEntries_spec listed (listed.bounded (tree.once target (mem_of_lookup found))),
        ← shown.names_eq, List.map_map]
      congr 1
      apply List.map_congr_left
      intro child member
      obtain ⟨address, inside, look⟩ := List.mem_filterMap.mp member
      obtain ⟨other, otherValue, otherShown⟩ := shows_.present _ address child
        (tree.at_child there (mem_of_lookup found) inside look) look
      simp only [Function.comp_apply, otherValue, Option.map_some, Option.getD_some, otherShown.flags]

end Calling

end Removing

/-- One call does on the nodes what it does on the paths. -/
theorem Refines.run {allocator : Allocator} {fs : Fs} {store : PathStore}
    (refines_ : Refines fs.nodes store) (call : Call) :
    ∃ fs', call.run allocator fs = .ok ((store.run (roomFor allocator fs) call).1, fs') ∧
      Refines fs'.nodes (store.run (roomFor allocator fs) call).2 := by
  cases call with
  | createFile path data size flags =>
      obtain ⟨fs', result, after⟩ := refines_.create path data size flags
      exact ⟨fs', by rw [Call.run, result]; rfl, after⟩
  | createFolder path =>
      obtain ⟨fs', result, after⟩ := refines_.create path ⟨true, fun _ => 0⟩ 0 fsIsDirectory
      exact ⟨fs', by rw [Call.run, createFolder_eq, result]; rfl, after⟩
  | deleteFile path =>
      obtain ⟨fs', result, after⟩ := refines_.delete path
      exact ⟨fs', by rw [Call.run, result]; rfl, after⟩
  | deleteFolder path =>
      obtain ⟨fs', result, after⟩ := refines_.delete path
      exact ⟨fs', by rw [Call.run, deleteFolder_eq, result]; rfl, after⟩
  | readFileContent path buffer bufSize =>
      obtain ⟨result, entries⟩ := refines_.read path buffer bufSize
      refine ⟨fs, ?_, refines_⟩
      rw [Call.run, result, PathStore.run]
      change Except.ok ((⟨_, _, []⟩ : Reply), fs) = _
      rw [← entries]
  | writeFileContent path buffer bufSize =>
      obtain ⟨fs', result, after⟩ := refines_.write path buffer bufSize
      exact ⟨fs', by rw [Call.run, result]; rfl, after⟩
  | listFiles path list =>
      cases list with
      | none => exact ⟨fs, rfl, refines_⟩
      | some old =>
          obtain ⟨list, result, bytes, failed, done⟩ := refines_.list path old
          refine ⟨fs, ?_, refines_⟩
          rw [Call.run, result, PathStore.run]
          simp only [bind, Except.bind, Option.getD_some]
          by_cases success : (store.list path).status = .success
          · rw [if_neg (fun other => other success), done success, ← bytes]
            rfl
          · rw [if_pos success, Reply.bare, ← bytes, ← failed success]
            rfl

/-- The filesystem that `init_fs` sets up is an empty root. -/
theorem initFs_refines : Refines initFs.nodes PathStore.empty := by
  obtain ⟨kids, depth, tree⟩ := initFs_tree
  obtain ⟨rootFile, foundRoot, _⟩ := tree.rootNode
  have only : ∀ address, address ∈ initFs.nodes → address = root := by
    intro address live
    obtain ⟨file, found⟩ := lookup_of_mem live
    exact (initFs_node found).1
  have childless : ∀ address, address ∈ initFs.nodes → kids address = [] := by
    intro address live
    by_contra some_
    obtain ⟨child, inside⟩ := List.exists_mem_of_ne_nil _ some_
    obtain ⟨top, file, found, _⟩ := tree.parents address live child inside
    exact top (only child (mem_of_lookup found))
  refine ⟨kids, depth, tree, ?_, ?_⟩
  · intro path address file there found
    obtain ⟨here, shape⟩ := initFs_node found
    have top : path = [] := at_path_unique there (here ▸ (at_nil _ root).mpr rfl)
    refine ⟨⟨fsIsDirectory, [], []⟩, by rw [top, PathStore.empty, if_pos rfl], ?_⟩
    rw [shape, childless address (mem_of_lookup found)]
    exact ⟨rfl, rfl, rfl, rfl⟩
  · intro path missing
    have below : path ≠ [] := fun top => missing root (top ▸ (at_nil _ root).mpr rfl)
    rw [PathStore.empty, if_neg below]

/-- A run from related filesystems gives the replies of the paths. -/
theorem Refines.replies {allocator : Allocator} {fs : Fs} {store : PathStore}
    (refines_ : Refines fs.nodes store) (calls : List Call) :
    ∃ rooms : List (Nat → Bool), rooms.length = calls.length ∧
      (NeverFails allocator → ∀ room ∈ rooms, ∀ index, room index = true) ∧
      FileSystem.replies allocator fs calls = .ok (store.replies (rooms.zip calls)) := by
  induction calls generalizing fs store with
  | nil => exact ⟨[], rfl, fun _ _ inside => absurd inside (List.not_mem_nil), rfl⟩
  | cons call rest ih =>
      obtain ⟨fs', result, after⟩ : ∃ fs', call.run allocator fs = .ok (_, fs') ∧ Refines fs'.nodes _ :=
        refines_.run call
      obtain ⟨rooms, length, always, later⟩ := ih after
      refine ⟨roomFor allocator fs :: rooms, by simp [length], ?_, ?_⟩
      · intro never room inside index
        rcases List.mem_cons.mp inside with here | other
        · obtain ⟨address, picked⟩ := never fs.nodes (fs.calls + index)
          rw [here, roomFor, picked]
          rfl
        · exact always never room other index
      · rw [FileSystem.replies, result]
        simp only [bind, Except.bind, later]
        rfl

/-- Every run of calls is answered as the paths answer it: a client cannot tell the linked nodes from a
map of paths, and only the allocations that fail on the way are left open. -/
theorem replies_refine (allocator : Allocator) (calls : List Call) :
    ∃ rooms : List (Nat → Bool), rooms.length = calls.length ∧
      (NeverFails allocator → ∀ room ∈ rooms, ∀ index, room index = true) ∧
      replies allocator initFs calls = .ok (PathStore.empty.replies (rooms.zip calls)) :=
  initFs_refines.replies calls

end ArchaOS.FileSystem
