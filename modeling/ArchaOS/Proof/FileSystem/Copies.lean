import ArchaOS.Construction.FileCopies
import ArchaOS.Proof.FileSystem.TreeRun

namespace ArchaOS.FileSystem

open Library

/-- A copy of some bytes goes from memory to memory, inside the heap block and inside what the caller
passed. -/
def Copy.Safe (copy : Copy) : Prop :=
  copy.length ≠ 0 → copy.toNull = false ∧ copy.fromNull = false ∧ copy.length ≤ copy.block ∧
    copy.length ≤ copy.passed

section Forgetting

/-- Without its copies the traced end of `create_file` is the end of `create_file`. -/
theorem placeFileTraced_eq (allocator : Allocator) (parent : Nat) (name : CString) (data : Buffer)
    (size flags : Nat) (copies : List Copy) (fs : Fs) :
    (placeFileTraced allocator parent name data size flags copies fs).map Prod.snd =
      placeFile allocator parent name data size flags fs := by
  rw [placeFileTraced, placeFile, Fs.allocate]
  cases allocator.pick fs.nodes fs.calls with
  | none => rfl
  | some file =>
      dsimp only
      generalize (if size = 0 then (some 0, (⟨fs.nodes, fs.calls + 1⟩ : Fs))
        else Fs.allocate allocator ⟨fs.nodes, fs.calls + 1⟩) = second
      obtain ⟨block, after⟩ := second
      cases block with
      | none => rfl
      | some block =>
          simp only [bind, Except.bind]
          generalize linkChild _ parent file = linked
          cases linked <;> rfl

/-- Without its copies the traced call is `create_file`. -/
theorem createFileTraced_eq (allocator : Allocator) (path : Option CString) (data : Buffer)
    (size flags : Nat) (fs : Fs) :
    (createFileTraced allocator path data size flags fs).map Prod.snd =
      createFile allocator path data size flags fs := by
  cases path with
  | none => rfl
  | some path =>
      simp only [createFileTraced, createFile, Fs.allocate, apply_ite (Except.map Prod.snd)]
      congr 1
      congr 1
      cases allocator.pick fs.nodes fs.calls with
      | none => rfl
      | some parentBlock =>
          dsimp only
          cases allocator.pick fs.nodes (fs.calls + 1) with
          | none => rfl
          | some nameBlock =>
              dsimp only
              rw [apply_ite (Except.map Prod.snd)]
              congr 1
              simp only [bind, Except.bind]
              cases parsePath fs.nodes (some (parentPath path)) with
              | error fault => rfl
              | ok answer =>
                  cases answer with
                  | error status => rfl
                  | ok parent =>
                      dsimp only
                      cases load fs.nodes parent with
                      | error fault => rfl
                      | ok directory =>
                          dsimp only
                          rw [apply_ite (Except.map Prod.snd)]
                          congr 1
                          cases findChild fs.nodes parent (baseName path) with
                          | error fault => rfl
                          | ok found =>
                              dsimp only
                              rw [apply_ite (Except.map Prod.snd), placeFileTraced_eq]
                              rfl

/-- Without its copies the traced call is `read_file_content`. -/
theorem readFileContentTraced_eq (path : Option CString) (buffer : Buffer) (bufSize : Nat) (fs : Fs) :
    (readFileContentTraced path buffer bufSize fs).map Prod.snd =
      readFileContent path buffer bufSize fs := by
  simp only [readFileContentTraced, readFileContent, bind, Except.bind]
  cases parsePath fs.nodes path with
  | error fault => rfl
  | ok answer =>
      cases answer with
      | error status => rfl
      | ok target =>
          dsimp only
          cases load fs.nodes target with
          | error fault => rfl
          | ok file =>
              simp only [apply_ite (Except.map Prod.snd)]
              rfl

/-- Without its copies the traced call is `write_file_content`. -/
theorem writeFileContentTraced_eq (path : Option CString) (buffer : Buffer) (bufSize : Nat) (fs : Fs) :
    (writeFileContentTraced path buffer bufSize fs).map Prod.snd =
      writeFileContent path buffer bufSize fs := by
  simp only [writeFileContentTraced, writeFileContent, bind, Except.bind]
  cases parsePath fs.nodes path with
  | error fault => rfl
  | ok answer =>
      cases answer with
      | error status => rfl
      | ok target =>
          dsimp only
          cases load fs.nodes target with
          | error fault => rfl
          | ok file =>
              simp only [apply_ite (Except.map Prod.snd)]
              rfl

end Forgetting

/-- A call returns, and its copies are safe unless it goes wrong in this way. -/
def SafeUnless {A : Type} (wrong : Prop) (call : Outcome (List Copy × A)) : Prop :=
  ∃ copies result, call = .ok (copies, result) ∧ ((∀ copy ∈ copies, copy.Safe) ↔ ¬ wrong)

/-- Safe copies are safe when nothing is wrong. -/
theorem SafeUnless.never {A : Type} {wrong : Prop} {copies : List Copy} {result : A}
    (safe : ∀ copy ∈ copies, copy.Safe) (avoided : ¬ wrong) :
    SafeUnless wrong (.ok (copies, result)) :=
  ⟨copies, result, rfl, iff_of_true safe avoided⟩

/-- A call without copies is safe when nothing is wrong. -/
theorem SafeUnless.nothing {A : Type} {wrong : Prop} {result : A} (avoided : ¬ wrong) :
    SafeUnless wrong (.ok ([], result)) :=
  SafeUnless.never (fun _ member => absurd member List.not_mem_nil) avoided

/-- What is wrong can be said in any equivalent way. -/
theorem SafeUnless.congr {A : Type} {wrong other : Prop} {call : Outcome (List Copy × A)}
    (same : wrong ↔ other) (safe : SafeUnless wrong call) : SafeUnless other call :=
  propext same ▸ safe

/-- The copies of the parent path and of the name fit their blocks. -/
theorem pathCopies_safe (path : CString) {parentBlock nameBlock : Nat} (first : parentBlock ≠ 0)
    (second : nameBlock ≠ 0) :
    ∀ copy ∈ parentCopies path parentBlock ++ [nameCopy path nameBlock], copy.Safe := by
  intro copy member
  rcases List.mem_append.mp member with parent | name
  · unfold parentCopies at parent
    cases cut : strrchr slash path with
    | none => simp [cut] at parent
    | some length =>
        obtain ⟨before, after, split, count, _⟩ := strrchr_some cut
        have inside : length ≤ path.length := by
          rw [split, List.length_append]
          omega
        cases length with
        | zero => simp [cut] at parent
        | succ length =>
            rw [cut] at parent
            obtain rfl := List.mem_singleton.mp parent
            intro _
            exact ⟨decide_eq_false first, rfl, Nat.le_add_right _ 2, inside⟩
  · obtain rfl := List.mem_singleton.mp name
    intro _
    exact ⟨decide_eq_false second, rfl, Nat.le_succ _, Nat.le_refl _⟩

/-- The copy of the path of the parent is safe. -/
theorem parentCopies_safe (path : CString) {parentBlock : Nat} (first : parentBlock ≠ 0) :
    ∀ copy ∈ parentCopies path parentBlock, copy.Safe := fun copy member =>
  pathCopies_safe path first (show 1 ≠ 0 by decide) copy (List.mem_append_left _ member)

/-- The copy of the data is safe unless the data pointer is null. -/
theorem dataCopies_safe_iff (data : Buffer) {size block : Nat} (present : block ≠ 0 ∨ size = 0) :
    (∀ copy ∈ dataCopies data size block, copy.Safe) ↔ ¬ (data.null = true ∧ size ≠ 0) := by
  unfold dataCopies
  by_cases empty : size = 0
  · simp [empty]
  · have nonzero : block ≠ 0 := present.resolve_right empty
    simp [empty, Copy.Safe, nonzero]

/-- The end of `create_file` copies from a null pointer exactly when the data is null, has a size, and
both blocks are there. -/
theorem placeFileTraced_safe (allocator : Allocator) {parent : Nat} {fs : Fs} (live : parent ∈ fs.nodes)
    (name : CString) (data : Buffer) (size flags : Nat) {copies : List Copy}
    (safe : ∀ copy ∈ copies, copy.Safe) :
    SafeUnless (data.null = true ∧ size ≠ 0 ∧ allocator.pick fs.nodes fs.calls ≠ none ∧
      allocator.pick fs.nodes (fs.calls + 1) ≠ none)
      (placeFileTraced allocator parent name data size flags copies fs) := by
  rw [placeFileTraced, Fs.allocate]
  cases answer : allocator.pick fs.nodes fs.calls with
  | none => exact SafeUnless.never safe fun wrong => wrong.2.2.1 rfl
  | some child =>
      obtain ⟨nonzero, fresh⟩ := allocator.fresh _ _ _ answer
      obtain ⟨nodes', linked, _⟩ := linkChild_placed (newFile name data size flags) live fresh nonzero
      have linked' : linkChild (fs.nodes.insert child
          { id := 0, name := name, parent := 0, children := 0, next := 0,
            data := if size = 0 then none else some (data.copy size),
            size := size, flags := flags % 2 ^ 16 }) parent child = .ok nodes' := linked
      dsimp only
      by_cases empty : size = 0
      · rw [if_pos empty]
        refine ⟨copies ++ dataCopies data size 0, (.success, ⟨nodes', fs.calls + 1⟩), ?_, ?_⟩
        · simp only [linked', bind, Except.bind, pure, Except.pure]
        · rw [List.forall_mem_append, dataCopies_safe_iff data (Or.inr empty), and_iff_right safe]
          simp [empty]
      · rw [if_neg empty, Fs.allocate]
        dsimp only
        cases second : allocator.pick fs.nodes (fs.calls + 1) with
        | none => exact SafeUnless.never safe fun wrong => wrong.2.2.2 rfl
        | some block =>
            have present := (allocator.fresh _ _ _ second).1
            refine ⟨copies ++ dataCopies data size block, (.success, ⟨nodes', fs.calls + 1 + 1⟩), ?_, ?_⟩
            · simp only [linked', bind, Except.bind, pure, Except.pure]
            · rw [List.forall_mem_append, dataCopies_safe_iff data (Or.inl present), and_iff_right safe]
              simp

/-- The path names a new node of a directory, and the heap has room for it: `create_file` gets to
making the node. -/
structure Creatable (allocator : Allocator) (fs : Fs) (path : CString) : Prop where
  nonempty : path ≠ []
  unclosed : path.getLast? ≠ some slash
  plain : ¬ (baseName path = [dot] ∨ baseName path = [dot, dot])
  free : ∃ parent dir, parsePath fs.nodes (some (parentPath path)) = .ok (.ok parent) ∧
    fs.nodes.lookup parent = some dir ∧ dir.isDirectory ∧
    findChild fs.nodes parent (baseName path) = .ok 0
  room : ∀ index < 4, allocator.pick fs.nodes (fs.calls + index) ≠ none

/-- The directory of a path that can be created is the one that its parent path leads to. -/
theorem Creatable.leads {allocator : Allocator} {fs : Fs} {path : CString}
    (creatable : Creatable allocator fs path) {answer : Except FsReturn Nat}
    (parsed : parsePath fs.nodes (some (parentPath path)) = .ok answer) :
    ∃ parent dir, answer = .ok parent ∧ fs.nodes.lookup parent = some dir ∧ dir.isDirectory ∧
      findChild fs.nodes parent (baseName path) = .ok 0 := by
  obtain ⟨parent, dir, leads, found, directory, free⟩ := creatable.free
  exact ⟨parent, dir, Except.ok.inj (parsed.symm.trans leads), found, directory, free⟩

/-- The search for a child returns in every tree. -/
theorem Tree.findChild_returns {nodes : Nodes} {kids : Nat → List Nat} {depth : Nat → Nat}
    (tree : Tree nodes kids depth) {parent : Nat} (live : parent ∈ nodes) (name : CString) :
    ∃ child, findChild nodes parent name = .ok child := by
  obtain ⟨dir, found⟩ := lookup_of_mem live
  simp only [findChild, load_ok found, bind, Except.bind]
  rcases tree.search name found with ⟨child, _, search, _⟩ | ⟨search, _⟩
  · exact ⟨child, search⟩
  · exact ⟨0, search⟩

/-- A directory with a null pointer for data of some bytes is created. -/
def CopiesNull (allocator : Allocator) (fs : Fs) (path : CString) (data : Buffer) (size flags : Nat) :
    Prop :=
  data.null = true ∧ size ≠ 0 ∧ flags &&& fsIsDirectory ≠ 0 ∧ Creatable allocator fs path

/-- The copies of `create_file` are safe unless it makes a directory with null data of some bytes. -/
theorem createFileTraced_safe (allocator : Allocator) {fs : Fs} (tree : IsTree fs.nodes)
    (path : CString) (data : Buffer) (size flags : Nat) :
    SafeUnless (CopiesNull allocator fs path data size flags)
      (createFileTraced allocator (some path) data size flags fs) := by
  obtain ⟨kids, depth, tree⟩ := tree
  unfold createFileTraced
  dsimp only
  by_cases refused : data.null = true ∧ size ≠ 0 ∧ flags &&& fsIsDirectory = 0
  · rw [if_pos refused]
    exact SafeUnless.nothing fun wrong => wrong.2.2.1 refused.2.2
  rw [if_neg refused]
  by_cases malformed : path = [] ∨ path.getLast? = some slash
  · rw [if_pos malformed]
    exact SafeUnless.nothing fun wrong =>
      malformed.elim wrong.2.2.2.nonempty wrong.2.2.2.unclosed
  rw [if_neg malformed, Fs.allocate]
  cases first : allocator.pick fs.nodes fs.calls with
  | none => exact SafeUnless.nothing fun wrong => wrong.2.2.2.room 0 (by decide) first
  | some parentBlock =>
      have firstPresent := (allocator.fresh _ _ _ first).1
      simp only [Fs.allocate]
      cases second : allocator.pick fs.nodes (fs.calls + 1) with
      | none =>
          exact SafeUnless.never (parentCopies_safe path firstPresent) fun wrong =>
            wrong.2.2.2.room 1 (by decide) second
      | some nameBlock =>
          have safe := pathCopies_safe path firstPresent (allocator.fresh _ _ _ second).1
          dsimp only
          by_cases special : baseName path = [dot] ∨ baseName path = [dot, dot]
          · rw [if_pos special]
            exact SafeUnless.never safe fun wrong => wrong.2.2.2.plain special
          rw [if_neg special]
          obtain ⟨answer, parsed, inside⟩ := tree.parsePath_total (some (parentPath path))
          simp only [bind, Except.bind, parsed]
          cases answer with
          | error status =>
              refine SafeUnless.never safe fun wrong => ?_
              obtain ⟨_, _, impossible, _⟩ := wrong.2.2.2.leads parsed
              cases impossible
          | ok parent =>
              obtain ⟨dir, found⟩ := lookup_of_mem inside
              simp only [load_ok found]
              by_cases directory : dir.isDirectory
              · rw [if_neg (fun other => other directory)]
                obtain ⟨child, search⟩ := tree.findChild_returns inside (baseName path)
                simp only [search]
                by_cases taken : child = 0
                · rw [if_neg (fun other => other taken)]
                  have live : parent ∈ (⟨fs.nodes, fs.calls + 1 + 1⟩ : Fs).nodes := inside
                  refine (placeFileTraced_safe allocator live (baseName path) data size flags safe).congr ?_
                  constructor
                  · rintro ⟨null, filled, third, fourth⟩
                    refine ⟨null, filled, fun plain => refused ⟨null, filled, plain⟩, ?_⟩
                    refine ⟨fun empty => malformed (Or.inl empty), fun closed => malformed (Or.inr closed),
                      special, ⟨parent, dir, parsed, found, directory, taken ▸ search⟩, ?_⟩
                    intro index below
                    interval_cases index
                    · simp [first]
                    · simp [second]
                    · exact third
                    · exact fourth
                  · rintro ⟨null, filled, _, creatable⟩
                    exact ⟨null, filled, creatable.room 2 (by decide), creatable.room 3 (by decide)⟩
                · rw [if_pos taken]
                  refine SafeUnless.never safe fun wrong => ?_
                  obtain ⟨other, _, same, _, _, free⟩ := wrong.2.2.2.leads parsed
                  obtain rfl := Except.ok.inj same
                  exact taken (Except.ok.inj (search.symm.trans free))
              · rw [if_pos directory]
                refine SafeUnless.never safe fun wrong => ?_
                obtain ⟨other, otherDir, same, otherFound, isDir, _⟩ := wrong.2.2.2.leads parsed
                obtain rfl := Except.ok.inj same
                exact directory (Option.some.inj (otherFound.symm.trans found) ▸ isDir)

/-- The block behind the data of a node has as many bytes as the size says. -/
def WholeBlocks (nodes : Nodes) : Prop :=
  ∀ address file, nodes.lookup address = some file →
    ∀ block, file.data = some block → block.length = file.size

/-- Placing a file keeps the sizes of the blocks. -/
theorem Placed.wholeBlocks {nodes nodes' : Nodes} {parent child : Nat} {name : CString} {data : Buffer}
    {size flags : Nat} (placed : Placed nodes nodes' parent child (newFile name data size flags))
    (whole : WholeBlocks nodes) : WholeBlocks nodes' := by
  intro address file found block stored
  obtain ⟨held, origin, _, sized, same⟩ := placed.contents found
  rw [sized]
  rw [same] at stored
  rcases origin with rfl | old
  · by_cases empty : size = 0
    · simp [newFile, empty] at stored
    · have copied : data.copy size = block := by simpa [newFile, empty] using stored
      rw [← copied]
      exact data.copy_length size
  · exact whole address held old block stored

/-- Removing a file keeps the sizes of the blocks. -/
theorem Removed.wholeBlocks {nodes nodes' : Nodes} {kids : Nat → List Nat} {parent target : Nat}
    (removed : Removed nodes nodes' kids parent target) (whole : WholeBlocks nodes) :
    WholeBlocks nodes' := by
  intro address file found block stored
  obtain ⟨_, before, look, content, _⟩ := removed.origin found
  rw [content.size]
  rw [content.data] at stored
  exact whole address before look block stored

/-- Writing a file keeps the sizes of the blocks. -/
theorem Writes.wholeBlocks {fs fs' : Fs} {path : Option CString} {buffer : Buffer}
    {bufSize target : Nat} {file : File} (writes : Writes fs fs' path buffer bufSize target file)
    (whole : WholeBlocks fs.nodes) : WholeBlocks fs'.nodes := by
  intro address other found block stored
  rw [writes.written] at found
  by_cases here : address = target
  · rw [here, AList.lookup_insert] at found
    obtain rfl := Option.some.inj found
    obtain ⟨old, held, rfl⟩ := Option.map_eq_some_iff.mp stored
    have length := whole target file writes.found old held
    have fits := writes.fits
    rw [List.length_append, buffer.copy_length, List.length_drop, length]
    exact Nat.add_sub_cancel' fits
  · rw [AList.lookup_insert_ne here] at found
    exact whole address other found block stored

/-- A tree whose data blocks are whole. -/
structure Intact (fs : Fs) : Prop where
  tree : IsTree fs.nodes
  whole : WholeBlocks fs.nodes

/-- Every call keeps the data blocks whole. -/
theorem keeps_intact (allocator : Allocator) : Keeps allocator Intact where
  create := by
    intro fs path data size flags intact
    obtain ⟨kids, depth, tree⟩ := intact.tree
    obtain ⟨status, fs', result, effect⟩ := createFile_cases allocator tree path data size flags
    refine ⟨status, fs', result, ?_⟩
    rcases effect with ⟨_, same⟩ | ⟨_, name, parent, child, _, creates⟩
    · exact ⟨same ▸ intact.tree, same ▸ intact.whole⟩
    · exact ⟨⟨_, _, creates.tree tree⟩, creates.placed.wholeBlocks intact.whole⟩
  delete := by
    intro fs path intact
    obtain ⟨kids, depth, tree⟩ := intact.tree
    obtain ⟨status, fs', result, _, effect⟩ := deleteFile_cases tree path
    refine ⟨status, fs', result, ?_⟩
    rcases effect with ⟨_, rfl⟩ | ⟨_, target, file, erases⟩
    · exact intact
    · exact ⟨⟨_, _, erases.tree tree⟩, erases.removed.wholeBlocks intact.whole⟩
  write := by
    intro fs path buffer bufSize intact
    obtain ⟨status, fs', result, effect⟩ := writeFileContent_cases intact.tree path buffer bufSize
    refine ⟨status, fs', result, ?_⟩
    rcases effect with ⟨_, rfl⟩ | ⟨_, target, file, writes⟩
    · exact intact
    · obtain ⟨kids, depth, tree⟩ := intact.tree
      exact ⟨⟨kids, depth, writes.tree tree⟩, writes.wholeBlocks intact.whole⟩

/-- The empty filesystem is intact. -/
theorem initFs_intact : Intact initFs where
  tree := initFs_tree
  whole := by
    intro address file found block stored
    rw [(initFs_node found).2] at stored
    cases stored

section Contents

variable {fs : Fs} (intact : Intact fs)
include intact

/-- The block of a file is as long as the file. -/
theorem storedBlock {target : Nat} {file : File} (found : fs.nodes.lookup target = some file)
    (present : file.data ≠ none) :
    file.data.isNone = false ∧ (file.data.getD []).length = file.size := by
  obtain ⟨block, stored⟩ := Option.ne_none_iff_exists'.mp present
  rw [stored]
  exact ⟨rfl, intact.whole target file found block stored⟩

/-- A read copies from the block of a file to the buffer and stays inside both. -/
theorem readFileContentTraced_safe (path : Option CString) (buffer : Buffer) (bufSize : Nat) :
    SafeUnless False (readFileContentTraced path buffer bufSize fs) := by
  obtain ⟨kids, depth, tree⟩ := intact.tree
  obtain ⟨answer, parsed, inside⟩ := tree.parsePath_total path
  rw [readFileContentTraced]
  simp only [bind, Except.bind, parsed]
  cases answer with
  | error status => exact SafeUnless.nothing id
  | ok target =>
      obtain ⟨file, found⟩ := lookup_of_mem inside
      simp only [load_ok found]
      split_ifs with directory small missing null
      · exact SafeUnless.nothing id
      · exact SafeUnless.nothing id
      · exact SafeUnless.nothing id
      · exact SafeUnless.nothing id
      · refine SafeUnless.never (fun copy member filled => ?_) id
        obtain rfl := List.mem_singleton.mp member
        have filled : file.size ≠ 0 := filled
        obtain ⟨held, length⟩ := storedBlock intact found fun none => missing ⟨filled, none⟩
        exact ⟨Bool.eq_false_iff.mpr fun bad => null ⟨filled, bad⟩, held, Nat.le_of_eq length.symm,
          Nat.not_lt.mp small⟩

/-- A write copies from the buffer to the block of a file and stays inside both. -/
theorem writeFileContentTraced_safe (path : Option CString) (buffer : Buffer) (bufSize : Nat) :
    SafeUnless False (writeFileContentTraced path buffer bufSize fs) := by
  obtain ⟨kids, depth, tree⟩ := intact.tree
  obtain ⟨answer, parsed, inside⟩ := tree.parsePath_total path
  rw [writeFileContentTraced]
  simp only [bind, Except.bind, parsed]
  cases answer with
  | error status => exact SafeUnless.nothing id
  | ok target =>
      obtain ⟨file, found⟩ := lookup_of_mem inside
      simp only [load_ok found]
      split_ifs with directory large missing null
      · exact SafeUnless.nothing id
      · exact SafeUnless.nothing id
      · exact SafeUnless.nothing id
      · exact SafeUnless.nothing id
      · refine SafeUnless.never (fun copy member filled => ?_) id
        obtain rfl := List.mem_singleton.mp member
        have filled : bufSize ≠ 0 := filled
        have fits : bufSize ≤ file.size := Nat.not_lt.mp large
        have sized : file.size ≠ 0 := by omega
        obtain ⟨held, length⟩ := storedBlock intact found fun none => missing ⟨filled, none⟩
        exact ⟨held, Bool.eq_false_iff.mpr fun bad => null ⟨sized, bad⟩,
          fits.trans (Nat.le_of_eq length.symm), Nat.le_refl _⟩

end Contents

/-- The calls that copy, with the pointers and sizes that the caller passes. -/
inductive Transfer where
  | createFile (path : Option CString) (data : Buffer) (size flags : Nat)
  | readFileContent (path : Option CString) (buffer : Buffer) (bufSize : Nat)
  | writeFileContent (path : Option CString) (buffer : Buffer) (bufSize : Nat)

/-- The copies that a call makes. -/
def Transfer.copies (allocator : Allocator) (fs : Fs) : Transfer → Outcome (List Copy)
  | .createFile path data size flags =>
      (createFileTraced allocator path data size flags fs).map Prod.fst
  | .readFileContent path buffer bufSize =>
      (readFileContentTraced path buffer bufSize fs).map Prod.fst
  | .writeFileContent path buffer bufSize =>
      (writeFileContentTraced path buffer bufSize fs).map Prod.fst

/-- The calls that copy from a null pointer. -/
def Transfer.Wrong (allocator : Allocator) (fs : Fs) : Transfer → Prop
  | .createFile (some path) data size flags => CopiesNull allocator fs path data size flags
  | _ => False

/-- The copies of a call are safe exactly when nothing is wrong. -/
theorem SafeUnless.copies {A : Type} {wrong : Prop} {call : Outcome (List Copy × A)}
    (safe : SafeUnless wrong call) :
    ∃ copies, call.map Prod.fst = .ok copies ∧ ((∀ copy ∈ copies, copy.Safe) ↔ ¬ wrong) := by
  obtain ⟨copies, result, returned, same⟩ := safe
  exact ⟨copies, by rw [returned]; rfl, same⟩

/-- In every reachable filesystem every call returns, and its copies are safe if and only if it does not
create a directory from a null pointer and a size. -/
theorem copies_safe_iff (allocator : Allocator) (operations : List Operation) :
    ∀ reached ∈ visited (step allocator) (.ok initFs) operations, ∃ fs, reached = .ok fs ∧
      ∀ call : Transfer, ∃ copies, call.copies allocator fs = .ok copies ∧
        ((∀ copy ∈ copies, copy.Safe) ↔ ¬ call.Wrong allocator fs) := by
  intro reached member
  obtain ⟨fs, same, intact⟩ := (keeps_intact allocator).visited initFs_intact operations reached member
  refine ⟨fs, same, ?_⟩
  intro call
  cases call with
  | createFile path data size flags =>
      cases path with
      | none => exact ⟨[], rfl, iff_of_true (by simp) id⟩
      | some path => exact (createFileTraced_safe allocator intact.tree path data size flags).copies
  | readFileContent path buffer bufSize =>
      exact (readFileContentTraced_safe intact path buffer bufSize).copies
  | writeFileContent path buffer bufSize =>
      exact (writeFileContentTraced_safe intact path buffer bufSize).copies

/-- Every call on a filesystem with one folder returns its copies. -/
theorem copies_safe_iff_folder :
    ∃ fs, step bumpAllocator (.ok initFs) (.createFolder (some [97])) = .ok fs ∧
      ∀ call : Transfer, ∃ copies, call.copies bumpAllocator fs = .ok copies ∧
        ((∀ copy ∈ copies, copy.Safe) ↔ ¬ call.Wrong bumpAllocator fs) :=
  copies_safe_iff bumpAllocator [.createFolder (some [97])] _ (by simp [visited])

/-- `create_file` of a directory `a` with three bytes behind a null pointer copies from it. -/
theorem copies_safe_fails : ∃ copies,
    (Transfer.createFile (some [97]) ⟨true, fun _ => 0⟩ 3 fsIsDirectory).copies bumpAllocator initFs =
      .ok copies ∧ ¬ ∀ copy ∈ copies, copy.Safe := by
  refine ⟨[⟨1, false, false, 2, 1⟩, ⟨3, false, true, 3, 3⟩], rfl, ?_⟩
  intro safe
  have copied := safe ⟨3, false, true, 3, 3⟩ (by simp) (by simp)
  cases copied.2.1

end ArchaOS.FileSystem
