import ArchaOS.Proof.FileSystem.Paths
import ArchaOS.Proof.FileSystem.Records

namespace ArchaOS.FileSystem

/-- The heap always has room. -/
def NeverFails (allocator : Allocator) : Prop := ∀ nodes call, ∃ address, allocator.pick nodes call = some address

/-- A byte that does not occur is not found. -/
theorem strrchr_absent {target : UInt8} {text : CString} (absent : target ∉ text) :
    strrchr target text = none := by
  cases result : strrchr target text with
  | none => rfl
  | some index =>
      obtain ⟨before, after, split, _⟩ := strrchr_some result
      exact absurd (by simp [split]) absent

/-- The last occurrence of a byte is found. -/
theorem strrchr_split (target : UInt8) (before : CString) {after : CString} (absent : target ∉ after) :
    strrchr target (before ++ target :: after) = some before.length := by
  induction before with
  | nil => simp [strrchr, strrchr_absent absent]
  | cons byte rest ih => simp [strrchr, ih]

/-- A path of legal components is not empty and ends with no slash. -/
theorem joinPath_ends {path : List CString} (legal : ∀ component ∈ path, LegalName component)
    (more : path ≠ []) : joinPath path ≠ [] ∧ (joinPath path).getLast? ≠ some slash := by
  rcases path.eq_nil_or_concat with nil | ⟨front, name, same⟩
  · exact absurd nil more
  · rw [List.concat_eq_append] at same
    subst same
    obtain ⟨nonempty, plain, _⟩ := legal name (by simp)
    have last : name.getLast? ≠ some slash := fun found => plain (List.mem_of_getLast? found)
    by_cases single : front = []
    · subst single
      exact ⟨nonempty, last⟩
    · rw [joinPath_snoc name single]
      refine ⟨by simp, ?_⟩
      rw [List.getLast?_append]
      intro found
      cases name with
      | nil => exact nonempty rfl
      | cons byte rest =>
          apply last
          simpa using found

/-- The parent path of a path of legal components. -/
theorem parentPath_join {nodes : Nodes} {kids : Nat → List Nat} {depth : Nat → Nat} {front : List CString}
    {name : CString} {parent : Nat} (tree : Tree nodes kids depth)
    (legal : ∀ component ∈ front ++ [name], LegalName component) (here : At nodes front parent) :
    parsePath nodes (some (parentPath (joinPath (front ++ [name])))) = .ok (.ok parent) ∧
      baseName (joinPath (front ++ [name])) = name := by
  obtain ⟨nonempty, plain, _⟩ := legal name (by simp)
  by_cases single : front = []
  · subst single
    have top : parent = root := here
    have absent : strrchr slash name = none := strrchr_absent plain
    have whole : joinPath ([] ++ [name]) = name := rfl
    rw [whole, parentPath, baseName, absent, top]
    exact ⟨rfl, rfl⟩
  · have legalFront : ∀ component ∈ front, LegalName component := fun component member =>
      legal component (by simp [member])
    have split := strrchr_split slash (joinPath front) plain
    have present : (joinPath front).length ≠ 0 := fun none =>
      (joinPath_ends legalFront single).1 (List.length_eq_zero_iff.mp none)
    have cut : parentPath (joinPath (front ++ [name])) = joinPath front := by
      rw [joinPath_snoc name single, parentPath, split]
      cases length : (joinPath front).length with
      | zero => exact absurd length present
      | succ count =>
          show List.take (count + 1) (joinPath front ++ slash :: name) = joinPath front
          rw [← length, List.take_append_of_le_length (Nat.le_refl _), List.take_length]
    refine ⟨?_, ?_⟩
    · rw [cut]
      exact tree.parsePath_at legalFront here
    · rw [joinPath_snoc name single, baseName, split]
      dsimp only
      rw [List.drop_append]
      simp

section Creating

variable {allocator : Allocator} {fs : Fs} {kids : Nat → List Nat} {depth : Nat → Nat}
  {front : List CString} {name : CString} {parent : Nat} {dir : File}

/-- `create_file` on a path whose directory is there: the path is taken, or it gets a new node. -/
theorem createFile_join (never : NeverFails allocator) (tree : Tree fs.nodes kids depth)
    (legal : ∀ component ∈ front ++ [name], LegalName component) (here : At fs.nodes front parent)
    (found : fs.nodes.lookup parent = some dir) (directory : dir.isDirectory) (data : Buffer)
    (size flags : Nat) (given : ¬ (data.null = true ∧ size ≠ 0 ∧ flags &&& fsIsDirectory = 0)) :
    ∃ status fs', createFile allocator (some (joinPath (front ++ [name]))) data size flags fs =
        .ok (status, fs') ∧
      ((status = .alrExist ∧ fs'.nodes = fs.nodes ∧ ∃ child, At fs.nodes (front ++ [name]) child) ∨
        (status = .success ∧ (∀ child, ¬ At fs.nodes (front ++ [name]) child) ∧
          ∃ child, Placed fs.nodes fs'.nodes parent child (newFile name data size flags))) := by
  obtain ⟨nonempty, last⟩ := joinPath_ends legal (by simp)
  obtain ⟨parsed, base⟩ := parentPath_join tree legal here
  obtain ⟨_, _, notDot, notDots⟩ := legal name (by simp)
  obtain ⟨first, firstPick⟩ := never fs.nodes fs.calls
  obtain ⟨second, secondPick⟩ := never fs.nodes (fs.calls + 1)
  have wellFormed : ¬ (joinPath (front ++ [name]) = [] ∨
      (joinPath (front ++ [name])).getLast? = some slash) := by
    intro either
    rcases either with empty | ends
    · exact nonempty empty
    · exact last ends
  have special : ¬ (name = [dot] ∨ name = [dot, dot]) := by
    intro either
    rcases either with one | two
    · exact notDot one
    · exact notDots two
  rw [createFile]
  simp only [given, if_false, wellFormed, Fs.allocate, firstPick, secondPick, base, special, parsed, bind,
    Except.bind, load_ok found, directory, not_true_eq_false, findChild]
  rcases tree.search_at name here found with ⟨child, result, nonzero, there⟩ | ⟨result, absent⟩
  · refine ⟨.alrExist, ⟨fs.nodes, fs.calls + 1 + 1⟩, ?_, Or.inl ⟨rfl, rfl, child, there⟩⟩
    simp only [result, ne_eq, nonzero, not_false_eq_true, if_true]
    rfl
  · obtain ⟨status, fs', placed, effect⟩ := placeFile_cases allocator
      (show parent ∈ (⟨fs.nodes, fs.calls + 1 + 1⟩ : Fs).nodes from mem_of_lookup found) name data size
      flags
    refine ⟨status, fs', ?_, ?_⟩
    · simp only [result, ne_eq, not_true_eq_false, if_false]
      exact placed
    · rcases effect with ⟨_, _, nodes, call, failed⟩ | ⟨done, child, new⟩
      · obtain ⟨address, picked⟩ := never nodes call
        rw [failed] at picked
        simp at picked
      · exact Or.inr ⟨done, absent, child, new⟩

/-- A new node stands at the path of its directory, extended by its name; no other path changes. -/
theorem Placed.at_iff {nodes nodes' : Nodes} {child : Nat} {file : File} (tree : Tree nodes kids depth)
    (placed : Placed nodes nodes' parent child file) (here : At nodes front parent)
    (path : List CString) (address : Nat) :
    At nodes' path address ↔
      At nodes path address ∨ (path = front ++ [file.name] ∧ address = child) := by
  obtain ⟨dir, foundDir, _, foundChild⟩ := placed.directory
  have notRoot : child ≠ root := fun same => placed.fresh (same ▸ tree.rootLive)
  induction path using List.reverseRecOn generalizing address with
  | nil => simp [at_nil]
  | append_singleton path name ih =>
      rw [at_snoc, at_snoc]
      constructor
      · intro both
        obtain ⟨top, found, look, named, up⟩ := both
        rcases placed.cases look with ⟨same, dir', _, shape⟩ | ⟨notChild, other, foundOther, shape⟩
        · right
          rw [shape] at named up
          rcases (ih parent).mp up with old | new
          · exact ⟨by rw [at_path_unique old here, ← named], same⟩
          · exact absurd (new.2 ▸ mem_of_lookup foundDir) placed.fresh
        · left
          have sameName : found.name = other.name := by
            rw [shape]
            split <;> rfl
          have sameParent : found.parent = other.parent := by
            rw [shape]
            split <;> rfl
          rw [sameName] at named
          rw [sameParent] at up
          refine ⟨top, other, foundOther, named, ?_⟩
          rcases (ih other.parent).mp up with old | new
          · exact old
          · exact absurd (new.2 ▸ tree.parentLive foundOther) placed.fresh
      · intro either
        rcases either with ⟨top, other, foundOther, named, up⟩ | ⟨same, isChild⟩
        · refine ⟨top, _, placed.old foundOther, ?_, ?_⟩
          · rw [← named]
            split <;> rfl
          · have sameParent : (if address = parent then { other with children := child } else other).parent =
                other.parent := by split <;> rfl
            rw [sameParent]
            exact (ih other.parent).mpr (Or.inl up)
        · obtain ⟨samePath, sameName⟩ := List.append_inj' same rfl
          subst samePath
          rw [isChild]
          refine ⟨notRoot, _, foundChild, (List.cons.inj sameName).1.symm, ?_⟩
          exact (ih parent).mpr (Or.inl here)

end Creating

end ArchaOS.FileSystem
