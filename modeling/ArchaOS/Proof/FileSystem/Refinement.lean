import ArchaOS.Proof.FileSystem.Deletion
import ArchaOS.Proof.FileSystem.Growth
import ArchaOS.Proof.FileSystem.PathStore

namespace ArchaOS.FileSystem

open Library

/-- An entry shows a node and the nodes that its directory lists. -/
structure Shown (nodes : Nodes) (children : List Nat) (file : File) (entry : PathEntry) : Prop where
  flags : entry.flags = file.flags
  size : file.size = entry.bytes.length
  data : file.data = if entry.bytes = [] then none else some entry.bytes
  names : children.map (fun child => (nodes.lookup child).map File.name) = entry.names.map some

/-- The paths hold exactly what the nodes hold. -/
structure Represents (nodes : Nodes) (kids : Nat → List Nat) (store : PathStore) : Prop where
  present : ∀ path address file, At nodes path address → nodes.lookup address = some file →
    ∃ entry, store path = some entry ∧ Shown nodes (kids address) file entry
  absent : ∀ path, (∀ address, ¬ At nodes path address) → store path = none

/-- The nodes are a tree that the paths show. -/
def Refines (nodes : Nodes) (store : PathStore) : Prop :=
  ∃ kids depth, Tree nodes kids depth ∧ Represents nodes kids store

section Shows

variable {nodes : Nodes} {children : List Nat} {file : File} {entry : PathEntry}
  (shown : Shown nodes children file entry)
include shown

/-- An entry is a directory exactly when its node is. -/
theorem Shown.directory : entry.isDirectory ↔ file.isDirectory := by
  rw [PathEntry.isDirectory, File.isDirectory, shown.flags]

/-- The names of an entry are those of the children. -/
theorem Shown.mem_names (name : CString) :
    name ∈ entry.names ↔ ∃ child ∈ children, (nodes.lookup child).map File.name = some name := by
  have member : some name ∈ entry.names.map some ↔ name ∈ entry.names := by simp
  rw [← member, ← shown.names, List.mem_map]

/-- The names of an entry are in the order of the children. -/
theorem Shown.names_eq : (children.filterMap nodes.lookup).map File.name = entry.names := by
  have spelled := congrArg (List.filterMap id) shown.names
  rw [List.filterMap_map, List.filterMap_map] at spelled
  rw [List.map_filterMap]
  simpa using spelled

/-- An entry has no names exactly when its node has no children. -/
theorem Shown.names_nil : entry.names = [] ↔ children = [] := by
  have length := congrArg List.length shown.names
  rw [List.length_map, List.length_map] at length
  rw [← List.length_eq_zero_iff, ← List.length_eq_zero_iff, length]

end Shows

section Walking

variable {nodes : Nodes} {kids : Nat → List Nat} {depth : Nat → Nat} {store : PathStore}
  (tree : Tree nodes kids depth) (shows_ : Represents nodes kids store)
include tree shows_

/-- One component leads to the same place. -/
theorem Represents.enter {here : List CString} {current : Nat} (there : At nodes here current)
    (component : CString) :
    Alike (fun address path => At nodes path address) (enter nodes kids current component)
      (store.enter here component) := by
  obtain ⟨file, found⟩ := lookup_of_mem (tree.at_live there)
  obtain ⟨entry, value, shown⟩ := shows_.present here current file there found
  by_cases stay : component = [dot]
  · rw [FileSystem.enter, if_pos stay, PathStore.enter, if_pos stay]
    exact there
  · rw [enter_live found stay, PathStore.enter, if_neg stay, value]
    by_cases up : component = [dot, dot]
    · simp only [if_pos up]
      rcases here.eq_nil_or_concat with top | ⟨front, name, same⟩
      · subst top
        obtain ⟨rootFile, foundRoot, parent, _⟩ := tree.rootNode
        obtain rfl : current = root := there
        rw [found] at foundRoot
        rw [Option.some.inj foundRoot]
        exact parent
      · rw [List.concat_eq_append] at same
        subst same
        obtain ⟨_, other, look, _, above⟩ := (at_snoc _ _ _ _).mp there
        rw [found] at look
        rw [Option.some.inj look, List.dropLast_concat]
        exact above
    · simp only [if_neg up, shown.directory]
      by_cases directory : file.isDirectory
      · simp only [directory, not_true_eq_false, if_false]
        rcases tree.search_find component found with
          ⟨child, _, _, _, search⟩ | ⟨_, search⟩
        · have member := List.mem_of_find?_eq_some search
          have named := List.find?_some search
          rw [decide_eq_true_eq] at named
          rw [search, if_pos ((shown.mem_names component).mpr ⟨child, member, named⟩)]
          obtain ⟨below, look⟩ := lookup_of_mem ((tree.lists current file found).member member).2
          rw [look] at named
          rw [← Option.some.inj named]
          exact tree.at_child there (mem_of_lookup found) member look
        · rw [search, if_neg]
          · rfl
          · intro inside
            obtain ⟨child, member, named⟩ := (shown.mem_names component).mp inside
            simpa [named] using List.find?_eq_none.mp search child member
      · simp only [directory, not_false_eq_true, if_true]
        rfl

/-- Components lead to the same place, or fail alike. -/
theorem Represents.follow (components : List CString) :
    (∃ status, components.foldlM (FileSystem.enter nodes kids) root = .error status ∧
      components.foldlM store.enter [] = .error status) ∨
    ∃ target here file entry, components.foldlM (FileSystem.enter nodes kids) root = .ok target ∧
      components.foldlM store.enter [] = .ok here ∧ At nodes here target ∧
      nodes.lookup target = some file ∧ store here = some entry ∧
      Shown nodes (kids target) file entry := by
  have alike := foldlM_alike (fun _ _ component there => shows_.enter tree there component) components
    ((at_nil nodes root).mpr rfl)
  cases left : components.foldlM (FileSystem.enter nodes kids) root with
  | error status =>
      rw [left] at alike
      cases right : components.foldlM store.enter [] with
      | error other =>
          rw [right] at alike
          exact Or.inl ⟨status, rfl, congrArg Except.error alike.symm⟩
      | ok here =>
          rw [right] at alike
          exact alike.elim
  | ok target =>
      rw [left] at alike
      cases right : components.foldlM store.enter [] with
      | error other =>
          rw [right] at alike
          exact alike.elim
      | ok here =>
          rw [right] at alike
          obtain ⟨file, found⟩ := lookup_of_mem (tree.at_live alike)
          obtain ⟨entry, value, shown⟩ := shows_.present here target file alike found
          exact Or.inr ⟨target, here, file, entry, rfl, rfl, alike, found, value, shown⟩

/-- `parse_path` finds what stands at the path, or fails as the path does. -/
theorem Represents.parsePath (path : Option CString) :
    (∃ status, parsePath nodes path = .ok (.error status) ∧ store.locate path = .error status) ∨
    ∃ target here file entry, parsePath nodes path = .ok (.ok target) ∧
      store.locate path = .ok here ∧ At nodes here target ∧ nodes.lookup target = some file ∧
      store here = some entry ∧ Shown nodes (kids target) file entry := by
  cases path with
  | none => exact Or.inl ⟨.invalidPath, rfl, rfl⟩
  | some path =>
      rw [tree.parsePath_resolve, resolve, PathStore.locate]
      rcases shows_.follow tree (pathNames path) with
        ⟨status, left, right⟩ | ⟨target, here, file, entry, left, right, rest⟩
      · exact Or.inl ⟨status, congrArg Except.ok left, right⟩
      · exact Or.inr ⟨target, here, file, entry, congrArg Except.ok left, right, rest⟩

end Walking

/-- The components of a path are those of its parent path and then its name. -/
theorem pathNames_parent {path : CString} (nonempty : path ≠ [])
    (unclosed : path.getLast? ≠ some slash) : ∃ front, pathNames path = front ++ [baseName path] ∧
    ∀ (nodes : Nodes) (kids : Nat → List Nat) current, resolve nodes kids current (parentPath path) =
      front.foldlM (enter nodes kids) current := by
  obtain ⟨some_, plain⟩ := baseName_component nonempty unclosed
  cases cut : strrchr slash path with
  | none =>
      have name : baseName path = path := by rw [baseName, cut]
      have here : parentPath path = [dot] := by rw [parentPath, cut]
      refine ⟨[], ?_, ?_⟩
      · rw [name] at some_ plain ⊢
        exact pathNames_plain plain some_
      · intro nodes kids current
        rw [here, resolve, pathNames_plain (by decide) (by decide), List.foldlM_cons, enter, if_pos rfl]
        rfl
  | some index =>
      obtain ⟨before, after, split, length, absent⟩ := strrchr_some cut
      have name : baseName path = after := by
        rw [baseName, cut]
        dsimp only
        rw [split, ← length, List.drop_append]
        simp
      have front : pathNames (parentPath path) = pathNames before := by
        rw [parentPath, cut]
        cases index with
        | zero =>
            rw [List.length_eq_zero_iff.mp length]
            exact pathNames_slash []
        | succ index =>
            change pathNames (path.take (index + 1)) = _
            rw [split, ← length, List.take_append_of_le_length (Nat.le_refl _), List.take_length]
      refine ⟨pathNames before, ?_, ?_⟩
      · rw [name] at some_ plain ⊢
        rw [split, pathNames_append, pathNames_plain plain some_]
      · intro nodes kids current
        rw [resolve, front]

/-- The end of `create_file` succeeds exactly when its allocations do. -/
theorem placeFile_room (allocator : Allocator) {parent : Nat} {fs : Fs} (live : parent ∈ fs.nodes)
    (name : CString) (data : Buffer) (size flags : Nat) :
    if (allocator.pick fs.nodes fs.calls).isSome ∧
        (size = 0 ∨ (allocator.pick fs.nodes (fs.calls + 1)).isSome) then
      ∃ fs' child, placeFile allocator parent name data size flags fs = .ok (.success, fs') ∧
        Placed fs.nodes fs'.nodes parent child (newFile name data size flags)
    else ∃ calls, placeFile allocator parent name data size flags fs =
      .ok (.fail, ⟨fs.nodes, calls⟩) := by
  split
  · rename_i room
    obtain ⟨status, fs', result, effect⟩ := placeFile_cases allocator live name data size flags
    rcases effect with ⟨failed, _⟩ | ⟨done, child, placed⟩
    · exfalso
      obtain ⟨address, first⟩ := Option.isSome_iff_exists.mp room.1
      have granted : ∃ block calls, (if size = 0 then (some 0, ⟨fs.nodes, fs.calls + 1⟩) else
          Fs.allocate allocator ⟨fs.nodes, fs.calls + 1⟩) = (some block, ⟨fs.nodes, calls⟩) := by
        by_cases none_ : size = 0
        · exact ⟨0, _, if_pos none_⟩
        · obtain ⟨block, second⟩ := Option.isSome_iff_exists.mp (room.2.resolve_left none_)
          refine ⟨block, fs.calls + 1 + 1, ?_⟩
          rw [if_neg none_, Fs.allocate, second]
      obtain ⟨block, calls, second⟩ := granted
      simp only [placeFile, Fs.allocate, first] at result
      simp only [Fs.allocate] at second
      rw [second] at result
      dsimp only at result
      rw [bind_eq_ok] at result
      obtain ⟨nodes, _, returned⟩ := result
      rw [(Prod.mk.inj (Except.ok.inj returned)).1.symm] at failed
      cases failed
    · exact ⟨fs', child, by rw [result, done], placed⟩
  · rename_i room
    unfold placeFile
    simp only [Fs.allocate]
    cases first : allocator.pick fs.nodes fs.calls with
    | none => exact ⟨_, rfl⟩
    | some address =>
        have filled : size ≠ 0 := fun none_ => room ⟨by rw [first]; rfl, Or.inl none_⟩
        have second : allocator.pick fs.nodes (fs.calls + 1) = none := by
          by_contra some_
          exact room ⟨by rw [first]; rfl, Or.inr (Option.isSome_iff_ne_none.mpr some_)⟩
        simp only [if_neg filled, second]
        exact ⟨_, rfl⟩

section Placing

variable {nodes nodes' : Nodes} {kids : Nat → List Nat} {depth : Nat → Nat} {store : PathStore}
  {front : List CString} {parent child : Nat} {file : File} {bytes : List UInt8}

/-- A placed path has its entry. -/
theorem PathStore.place_new (store : PathStore) (front : List CString) (name : CString) (entry : PathEntry) :
    store.place front name entry (front ++ [name]) = some entry := Function.update_self _ _ _

/-- Placing a path adds its name to the parent. -/
theorem PathStore.place_parent (store : PathStore) (front : List CString) (name : CString)
    (entry : PathEntry) : store.place front name entry front =
      (store front).map fun dir => { dir with names := name :: dir.names } := by
  have other : front ≠ front ++ [name] := by simp
  rw [PathStore.place, Function.update_of_ne other, Function.update_self]

/-- Placing a path leaves the paths that are neither it nor its parent. -/
theorem PathStore.place_other (store : PathStore) {front path : List CString} {name : CString}
    (entry : PathEntry) (notNew : path ≠ front ++ [name]) (notParent : path ≠ front) :
    store.place front name entry path = store path := by
  rw [PathStore.place, Function.update_of_ne notNew, Function.update_of_ne notParent]

/-- The names of old nodes stay. -/
theorem Placed.names_kept (tree : Tree nodes kids depth)
    (placed : Placed nodes nodes' parent child file) {address : Nat} (live : address ∈ nodes) :
    (kids address).map (fun other => (nodes'.lookup other).map File.name) =
      (kids address).map (fun other => (nodes.lookup other).map File.name) :=
  List.map_congr_left fun _ member => placed.name_kept (tree.kid_old placed live member)

/-- A placed node stands at the new path and nothing else changes. -/
theorem Represents.placed (tree : Tree nodes kids depth) (shows_ : Represents nodes kids store)
    (placed : Placed nodes nodes' parent child file) (here : At nodes front parent)
    (free : ∀ address, ¬ At nodes (front ++ [file.name]) address) (size : file.size = bytes.length)
    (data : file.data = if bytes = [] then none else some bytes) :
    Represents nodes' (placedKids kids parent child)
      (store.place front file.name ⟨file.flags, bytes, []⟩) where
  present := by
    intro path address found there look
    rcases (placed.at_iff tree here path address).mp there with old | ⟨same, new⟩
    · obtain ⟨before, lookBefore⟩ := lookup_of_mem (tree.at_live old)
      obtain ⟨entry, value, shown⟩ := shows_.present path address before old lookBefore
      have notNew : path ≠ front ++ [file.name] := fun same => free address (same ▸ old)
      rw [placed.old lookBefore] at look
      have kept := placed.names_kept tree (mem_of_lookup lookBefore)
      by_cases atParent : address = parent
      · obtain rfl : path = front := at_path_unique old (atParent ▸ here)
        rw [if_pos atParent] at look
        rw [atParent] at kept shown
        refine ⟨_, by rw [PathStore.place_parent, value, Option.map_some], ?_⟩
        rw [← Option.some.inj look, atParent, placedKids_parent]
        refine ⟨shown.flags, shown.size, shown.data, ?_⟩
        obtain ⟨dir, _, _, foundChild⟩ := placed.directory
        rw [List.map_cons, foundChild, kept, shown.names]
        rfl
      · have notParent : path ≠ front := fun same => atParent (tree.at_unique old (same ▸ here))
        have notChild : address ≠ child := fun same => placed.fresh (same ▸ mem_of_lookup lookBefore)
        rw [if_neg atParent] at look
        refine ⟨entry, by rw [PathStore.place_other store _ notNew notParent, value], ?_⟩
        rw [← Option.some.inj look, placedKids_other atParent notChild]
        exact ⟨shown.flags, shown.size, shown.data, kept.trans shown.names⟩
    · obtain ⟨dir, _, _, foundChild⟩ := placed.directory
      rw [new, foundChild] at look
      refine ⟨_, by rw [same, PathStore.place_new], ?_⟩
      rw [← Option.some.inj look, new, placedKids_child placed.different]
      exact ⟨rfl, size, data, rfl⟩
  absent := by
    intro path missing
    have before : ∀ address, ¬ At nodes path address := fun address old =>
      missing address ((placed.at_iff tree here path address).mpr (Or.inl old))
    have notNew : path ≠ front ++ [file.name] := fun same =>
      missing child ((placed.at_iff tree here path child).mpr (Or.inr ⟨same, rfl⟩))
    have notParent : path ≠ front := fun same => before parent (same ▸ here)
    rw [PathStore.place_other store _ notNew notParent]
    exact shows_.absent path before

/-- The allocations of a call that succeed when the filesystem does not change. -/
def roomFor (allocator : Allocator) (fs : Fs) (index : Nat) : Bool :=
  (allocator.pick fs.nodes (fs.calls + index)).isSome

/-- Data of no bytes is shown as none. -/
theorem copy_shown (data : Buffer) (size : Nat) :
    (if size = 0 then none else some (data.copy size)) =
      if data.copy size = [] then none else some (data.copy size) := by
  have same : size = 0 ↔ data.copy size = [] := by
    rw [← List.length_eq_zero_iff, data.copy_length]
  simp only [same]

/-- `find_child` finds a name exactly where the entry lists it. -/
theorem Shown.findChild (tree : Tree nodes kids depth) {dir : File} {entry : PathEntry}
    (found : nodes.lookup parent = some dir) (shown : Shown nodes (kids parent) dir entry)
    (name : CString) :
    (∃ child, findChild nodes parent name = .ok child ∧ child ≠ 0 ∧ name ∈ entry.names) ∨
      findChild nodes parent name = .ok 0 ∧ name ∉ entry.names ∧
        ∀ child ∈ kids parent, ∀ file, nodes.lookup child = some file → file.name ≠ name := by
  simp only [FileSystem.findChild, load_ok found, bind, Except.bind]
  rcases tree.search_find name found with ⟨child, result, nonzero, _, search⟩ | ⟨result, search⟩
  · have same := List.find?_some search
    rw [decide_eq_true_eq] at same
    exact Or.inl ⟨child, result, nonzero,
      (shown.mem_names _).mpr ⟨child, List.mem_of_find?_eq_some search, same⟩⟩
  · have other : ∀ child ∈ kids parent, (nodes.lookup child).map File.name ≠ some name := by
      intro child member same
      simpa [same] using List.find?_eq_none.mp search child member
    refine Or.inr ⟨result, ?_, ?_⟩
    · intro inside
      obtain ⟨child, member, same⟩ := (shown.mem_names _).mp inside
      exact other child member same
    · intro child member file look same
      exact other child member (by rw [look, Option.map_some, same])

/-- The end of `create_file` under a directory that lists no such name. -/
theorem Represents.placeFile {allocator : Allocator} {fs : Fs} {dir : File}
    (tree : Tree fs.nodes kids depth) (shows_ : Represents fs.nodes kids store)
    (here : At fs.nodes front parent) (found : fs.nodes.lookup parent = some dir)
    (directory : dir.isDirectory) {name : CString} (legal : LegalName name)
    (unused : ∀ child ∈ kids parent, ∀ file, fs.nodes.lookup child = some file → file.name ≠ name)
    (data : Buffer) (size flags : Nat) :
    if (allocator.pick fs.nodes fs.calls).isSome ∧
        (size = 0 ∨ (allocator.pick fs.nodes (fs.calls + 1)).isSome) then
      ∃ fs', FileSystem.placeFile allocator parent name data size flags fs = .ok (.success, fs') ∧
        Refines fs'.nodes (store.place front name ⟨flags % 2 ^ 16, data.copy size, []⟩)
    else ∃ calls, FileSystem.placeFile allocator parent name data size flags fs =
      .ok (.fail, ⟨fs.nodes, calls⟩) := by
  have placing := placeFile_room allocator (mem_of_lookup found) name data size flags
  split at placing
  · rename_i granted
    obtain ⟨fs', child, placed, links⟩ := placing
    rw [if_pos granted]
    refine ⟨fs', placed, _, _, tree.placed links rfl legal unused ?_, ?_⟩
    · intro other look
      rw [found] at look
      exact Option.some.inj look ▸ directory
    · exact shows_.placed tree links here (tree.at_absent here unused)
        (data.copy_length size).symm (copy_shown data size)
  · rename_i refused
    rw [if_neg refused]
    exact placing

/-- `create_file` does on the nodes what it does on the paths. -/
theorem Refines.create {allocator : Allocator} {fs : Fs} {store : PathStore}
    (refines_ : Refines fs.nodes store) (path : Option CString) (data : Buffer) (size flags : Nat) :
    ∃ fs', createFile allocator path data size flags fs =
        .ok ((store.create (roomFor allocator fs) path data size flags).1, fs') ∧
      Refines fs'.nodes (store.create (roomFor allocator fs) path data size flags).2 := by
  have whole := refines_
  obtain ⟨kids, depth, tree, shows_⟩ := refines_
  cases path with
  | none => exact ⟨fs, rfl, whole⟩
  | some path =>
      rw [createFile, PathStore.create]
      dsimp only
      split
      · exact ⟨fs, rfl, whole⟩
      · split
        · exact ⟨fs, rfl, whole⟩
        · rename_i wellFormed
          have nonempty : path ≠ [] := fun empty => wellFormed (Or.inl empty)
          have unclosed : path.getLast? ≠ some slash := fun last => wellFormed (Or.inr last)
          obtain ⟨front, names, parents⟩ := pathNames_parent nonempty unclosed
          have last : (pathNames path).getLastD [] = baseName path := by rw [names]; simp
          have init : (pathNames path).dropLast = front := by rw [names]; simp
          rw [last, init]
          rcases Option.eq_none_or_eq_some (allocator.pick fs.nodes fs.calls) with
            first | ⟨_, first⟩
          · have full : roomFor allocator fs 0 = false := by simp [roomFor, first]
            simp only [Fs.allocate, first, full, Bool.false_eq_true, false_and, not_false_eq_true, if_true]
            exact ⟨_, rfl, whole⟩
          · rcases Option.eq_none_or_eq_some (allocator.pick fs.nodes (fs.calls + 1)) with
              second | ⟨_, second⟩
            · have full : roomFor allocator fs 1 = false := by simp [roomFor, second]
              simp only [Fs.allocate, first, second, full, Bool.false_eq_true, and_false, not_false_eq_true,
                if_true]
              exact ⟨_, rfl, whole⟩
            · have some_ : roomFor allocator fs 0 = true ∧ roomFor allocator fs 1 = true := by
                simp [roomFor, first, second]
              simp only [Fs.allocate, first, second, some_.1, some_.2, and_self, not_true_eq_false, if_false]
              split
              · exact ⟨_, rfl, whole⟩
              · rename_i special
                rw [tree.parsePath_resolve, parents]
                rcases shows_.follow tree front with
                  ⟨status, left, right⟩ | ⟨parent, here, dir, entry, left, right, there, found, value, shown⟩
                · rw [left, right]
                  exact ⟨_, rfl, whole⟩
                · rw [left, right]
                  simp only [bind, Except.bind, load_ok found, value, shown.directory]
                  by_cases directory : dir.isDirectory
                  · simp only [directory, not_true_eq_false, if_false]
                    obtain ⟨named, component⟩ := baseName_component nonempty unclosed
                    have legal : LegalName (baseName path) := ⟨named, component,
                      fun one => special (Or.inl one), fun two => special (Or.inr two)⟩
                    rcases shown.findChild tree found (baseName path) with
                      ⟨child, result, nonzero, taken⟩ | ⟨result, free, unused⟩
                    · simp only [result, ne_eq, nonzero, not_false_eq_true, if_true, taken]
                      exact ⟨_, rfl, whole⟩
                    · simp only [result, ne_eq, not_true_eq_false, if_false, free]
                      have placing := @Represents.placeFile _ _ _ _ _ allocator ⟨fs.nodes, fs.calls + 1 + 1⟩ dir
                        tree shows_ there found directory _ legal unused data size flags
                      split at placing
                      · rename_i granted
                        have room : roomFor allocator fs 2 ∧ (size = 0 ∨ roomFor allocator fs 3) := granted
                        rw [if_neg (fun no => no room)]
                        exact placing
                      · rename_i refused
                        have room : ¬ (roomFor allocator fs 2 ∧ (size = 0 ∨ roomFor allocator fs 3)) :=
                          refused
                        obtain ⟨calls, placed⟩ := placing
                        rw [if_pos room]
                        exact ⟨_, placed, whole⟩
                  · simp only [directory, not_false_eq_true, if_true]
                    exact ⟨_, rfl, whole⟩

end Placing

end ArchaOS.FileSystem
