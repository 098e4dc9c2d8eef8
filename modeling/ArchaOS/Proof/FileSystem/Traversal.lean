import ArchaOS.Proof.FileSystem.Creation

namespace ArchaOS.FileSystem

open Library

/-- The components lead from the root to a node that is no directory. -/
def FileAt (nodes : Nodes) (kids : Nat → List Nat) (front : List CString) : Prop :=
  ∃ address file, front.foldlM (enter nodes kids) root = .ok address ∧
    nodes.lookup address = some file ∧ ¬ file.isDirectory

/-- A proper prefix of the components leads to a node that is no directory. -/
def PassesFile (nodes : Nodes) (kids : Nat → List Nat) (path : CString) : Prop :=
  ∃ front next back, pathNames path = front ++ next :: back ∧ FileAt nodes kids front

/-- One of these prefixes has an ordinary name behind it. -/
def NamesBelowFile (nodes : Nodes) (kids : Nat → List Nat) (path : CString) : Prop :=
  ∃ front next back, pathNames path = front ++ next :: back ∧ FileAt nodes kids front ∧
    next ≠ [dot] ∧ next ≠ [dot, dot]

/-- `parse_path` reports that a component is no directory, and the calls on the path fail without
effect. -/
structure Refused (fs : Fs) (path : CString) : Prop where
  parsed : parsePath fs.nodes (some path) = .ok (.error .notADir)
  created : ∀ allocator data size flags, ∃ status fs',
    createFile allocator (some path) data size flags fs = .ok (status, fs') ∧ status ≠ .success ∧
      fs'.nodes = fs.nodes
  deleted : ∃ status, deleteFile (some path) fs = .ok (status, fs) ∧ status ≠ .success
  read : ∀ buffer bufSize, ∃ status,
    readFileContent (some path) buffer bufSize fs = .ok (status, []) ∧ status ≠ .success
  written : ∀ buffer bufSize, ∃ status,
    writeFileContent (some path) buffer bufSize fs = .ok (status, fs) ∧ status ≠ .success

section Walking

variable {nodes : Nodes} {kids : Nat → List Nat} {depth : Nat → Nat}

/-- A component is refused exactly when it is an ordinary name behind a file. -/
theorem enter_notADir_iff {current : Nat} {file : File} {component : CString}
    (found : nodes.lookup current = some file) :
    enter nodes kids current component = .error .notADir ↔
      ¬ file.isDirectory ∧ component ≠ [dot] ∧ component ≠ [dot, dot] := by
  by_cases stay : component = [dot]
  · simp [enter, stay]
  · rw [enter_live found stay]
    by_cases up : component = [dot, dot]
    · simp [up]
    · rw [if_neg up]
      by_cases directory : file.isDirectory
      · rw [if_neg (fun other => other directory)]
        cases (kids current).find? (fun child =>
            decide ((nodes.lookup child).map File.name = some component)) <;> simp [directory]
      · simp [directory, stay, up]

/-- A walk is refused exactly when it reaches an ordinary name behind a file. -/
theorem Tree.fold_notADir_iff (tree : Tree nodes kids depth) {names : List CString} {current : Nat}
    (live : current ∈ nodes) :
    names.foldlM (enter nodes kids) current = .error .notADir ↔
      ∃ front next back, names = front ++ next :: back ∧
        (∃ address file, front.foldlM (enter nodes kids) current = .ok address ∧
          nodes.lookup address = some file ∧ ¬ file.isDirectory) ∧
        next ≠ [dot] ∧ next ≠ [dot, dot] := by
  induction names generalizing current with
  | nil =>
      constructor
      · intro impossible
        cases impossible
      · rintro ⟨front, next, back, split, _⟩
        simp at split
  | cons component rest ih =>
      obtain ⟨file, found⟩ := lookup_of_mem live
      rw [List.foldlM_cons]
      constructor
      · intro refused
        cases entered : enter nodes kids current component with
        | error status =>
            rw [entered] at refused
            have same : status = .notADir := Except.error.inj refused
            rw [same, enter_notADir_iff found] at entered
            exact ⟨[], component, rest, rfl, ⟨current, file, rfl, found, entered.1⟩, entered.2⟩
        | ok next =>
            rw [entered] at refused
            obtain ⟨front, name, back, split, ⟨address, below, walked, look, plain⟩, ordinary⟩ :=
              (ih (tree.enter_live live entered)).mp refused
            refine ⟨component :: front, name, back, by rw [split]; rfl,
              ⟨address, below, ?_, look, plain⟩, ordinary⟩
            rw [List.foldlM_cons, entered]
            exact walked
      · rintro ⟨front, name, back, split, ⟨address, below, walked, look, plain⟩, ordinary⟩
        cases front with
        | nil =>
            obtain ⟨rfl, rfl⟩ := List.cons.inj split
            obtain rfl : current = address := Except.ok.inj walked
            rw [(enter_notADir_iff look).mpr ⟨plain, ordinary⟩]
            rfl
        | cons first others =>
            obtain ⟨rfl, rfl⟩ := List.cons.inj split
            rw [List.foldlM_cons, bind_eq_ok] at walked
            obtain ⟨next, entered, walked⟩ := walked
            rw [entered]
            exact (ih (tree.enter_live live entered)).mpr
              ⟨others, name, back, rfl, ⟨address, below, walked, look, plain⟩, ordinary⟩

/-- `parse_path` reports `NOT_A_DIR` exactly when the path goes on below a file. -/
theorem Tree.parsePath_notADir_iff (tree : Tree nodes kids depth) (path : CString) :
    parsePath nodes (some path) = .ok (.error .notADir) ↔ NamesBelowFile nodes kids path := by
  rw [tree.parsePath_resolve, Except.ok.injEq, resolve, tree.fold_notADir_iff tree.rootLive]
  rfl

end Walking

/-- A path that `parse_path` refuses is refused by every call. -/
theorem Tree.refused {fs : Fs} {kids : Nat → List Nat} {depth : Nat → Nat} {path : CString}
    (tree : Tree fs.nodes kids depth) (parsed : parsePath fs.nodes (some path) = .ok (.error .notADir)) :
    Refused fs path where
  parsed := parsed
  created := by
    intro allocator data size flags
    obtain ⟨status, fs', result, effect⟩ := createFile_cases allocator tree (some path) data size flags
    rcases effect with ⟨failed, same⟩ | ⟨_, name, parent, child, named, creates⟩
    · exact ⟨status, fs', result, failed, same⟩
    · obtain rfl := Option.some.inj named
      have absent := parsed.symm.trans (creates.absent tree)
      cases Except.error.inj (Except.ok.inj absent)
  deleted := ⟨.notADir, deleteFile_error parsed, by decide⟩
  read := fun buffer bufSize => ⟨.notADir, readFileContent_error parsed buffer bufSize, by decide⟩
  written := fun buffer bufSize => ⟨.notADir, writeFileContent_error parsed buffer bufSize, by decide⟩

/-- A path across a file is refused if and only if an ordinary name stands behind one of the files that
it passes. -/
theorem refused_iff {fs : Fs} {kids : Nat → List Nat} {depth : Nat → Nat}
    (tree : Tree fs.nodes kids depth) (path : CString) :
    (PassesFile fs.nodes kids path → Refused fs path) ↔
      (PassesFile fs.nodes kids path → NamesBelowFile fs.nodes kids path) := by
  constructor
  · intro refused passes
    exact (tree.parsePath_notADir_iff path).mp (refused passes).parsed
  · intro named passes
    exact tree.refused ((tree.parsePath_notADir_iff path).mpr (named passes))

/-- Below the file `a` the name `b` is refused. -/
theorem refused_iff_sample : ∃ kids depth, Tree sampleFs.nodes kids depth ∧
    PassesFile sampleFs.nodes kids [97, slash, 98] ∧
    NamesBelowFile sampleFs.nodes kids [97, slash, 98] ∧ Refused sampleFs [97, slash, 98] := by
  obtain ⟨kids, depth, tree⟩ := sampleFs_tree
  have parsed : parsePath sampleFs.nodes (some [97, slash, 98]) = .ok (.error .notADir) := rfl
  have named := (tree.parsePath_notADir_iff _).mp parsed
  have passes : PassesFile sampleFs.nodes kids [97, slash, 98] := by
    obtain ⟨front, next, back, split, file, _⟩ := named
    exact ⟨front, next, back, split, file⟩
  exact ⟨kids, depth, tree, passes, named, (refused_iff tree _).mpr (fun _ => named) passes⟩

/-- With a file `a` below the root, the path `a/.` passes the file and is not refused: `delete_file`
takes the file away. -/
theorem refused_fails : ∃ fs kids depth,
    createFile bumpAllocator (some [97]) ⟨true, fun _ => 0⟩ 0 0 initFs = .ok (.success, fs) ∧
    Tree fs.nodes kids depth ∧ PassesFile fs.nodes kids [97, slash, dot] ∧
    ¬ Refused fs [97, slash, dot] ∧
    ∃ fs', deleteFile (some [97, slash, dot]) fs = .ok (.success, fs') := by
  obtain ⟨fs, fs', created, deleted⟩ : ∃ fs fs',
      createFile bumpAllocator (some [97]) ⟨true, fun _ => 0⟩ 0 0 initFs = .ok (.success, fs) ∧
      deleteFile (some [97, slash, dot]) fs = .ok (.success, fs') := ⟨_, _, rfl, rfl⟩
  obtain ⟨kids, depth, tree⟩ := initFs_tree
  obtain ⟨name, parent, child, named, creates⟩ := createFile_success tree created
  obtain rfl := Option.some.inj named
  obtain ⟨file, found, _, flags, _⟩ := creates.stored (by decide)
  have leads := creates.present tree
  rw [(creates.tree tree).parsePath_resolve, Except.ok.injEq] at leads
  refine ⟨fs, _, _, created, creates.tree tree, ⟨[[97]], [dot], [], rfl, child, file, leads, found, ?_⟩,
    ?_, fs', deleted⟩
  · rw [File.isDirectory, flags]
    decide
  · intro refused
    obtain ⟨status, failed, notSuccess⟩ := refused.deleted
    exact notSuccess (Prod.mk.inj (Except.ok.inj (failed.symm.trans deleted))).1

end ArchaOS.FileSystem
