import ArchaOS.Proof.FileSystem.Growth

namespace ArchaOS.FileSystem

/-- What a filesystem holds at a path. -/
inductive Content where
  | folder
  | regular (data : List UInt8)
  deriving DecidableEq, Repr

/-- A node has a content. -/
def Shows (file : File) : Content → Prop
  | .folder => file.isDirectory
  | .regular data => ¬ file.isDirectory ∧ file.size = data.length ∧
      file.data = if data.length = 0 then none else some data

/-- The abstract filesystem maps paths to contents. -/
abbrev Store := List CString → Option Content

/-- The nodes are a tree that holds exactly the abstract filesystem. -/
structure Stores (nodes : Nodes) (store : Store) : Prop where
  tree : IsTree nodes
  present : ∀ path content, store path = some content →
    ∃ address file, At nodes path address ∧ nodes.lookup address = some file ∧ Shows file content
  absent : ∀ path, store path = none → ∀ address, ¬ At nodes path address

/-- What a file shows depends on its flags, its size and its data only. -/
theorem Shows.congr {left right : File} {content : Content} (shows_ : Shows right content)
    (flags : left.flags = right.flags) (size : left.size = right.size) (data : left.data = right.data) :
    Shows left content := by
  cases content with
  | folder =>
      unfold Shows File.isDirectory at *
      rw [flags]
      exact shows_
  | regular bytes =>
      unfold Shows File.isDirectory at *
      rw [flags, size, data]
      exact shows_

/-- The node that `create_file` makes for the data of an archive shows that data. -/
theorem newFile_shows (name : CString) (data : List UInt8) :
    Shows (newFile name ⟨false, fun index => data.getD index 0⟩ data.length 0) (.regular data) := by
  refine ⟨?_, rfl, ?_⟩
  · show ¬ 0 % 2 ^ 16 &&& fsIsDirectory ≠ 0
    decide
  · have copied : (⟨false, fun index => data.getD index 0⟩ : Buffer).copy data.length = data := by
      apply List.ext_getElem
      · simp [Buffer.copy]
      · intro index _ inside
        simp [Buffer.copy, inside]
    simp only [newFile, copied]

/-- A new node extends the abstract filesystem at its path. -/
theorem Stores.placed {nodes nodes' : Nodes} {store : Store} {front : List CString} {parent child : Nat}
    {dir file : File} {content : Content} (stores : Stores nodes store)
    (placed : Placed nodes nodes' parent child file) (here : At nodes front parent)
    (found : nodes.lookup parent = some dir) (directory : dir.isDirectory) (empty : file.children = 0)
    (legal : LegalName file.name) (free : ∀ address, ¬ At nodes (front ++ [file.name]) address)
    (shown : Shows file content) :
    Stores nodes' (Function.update store (front ++ [file.name]) (some content)) := by
  obtain ⟨kids, depth, tree⟩ := stores.tree
  have unused : ∀ other ∈ kids parent, ∀ found, nodes.lookup other = some found →
      found.name ≠ file.name := by
    intro other member otherFile otherFound same
    obtain ⟨top, file', found', up⟩ := tree.parents parent (mem_of_lookup found) other member
    rw [otherFound] at found'
    rw [← Option.some.inj found'] at up
    exact free other ((at_snoc _ _ _ _).mpr ⟨top, otherFile, otherFound, same, by rw [up]; exact here⟩)
  have isDir : ∀ other, nodes.lookup parent = some other → other.isDirectory := by
    intro other look
    rw [found] at look
    rw [← Option.some.inj look]
    exact directory
  refine ⟨⟨_, _, tree.placed placed empty legal unused isDir⟩, ?_, ?_⟩
  · intro path shownContent value
    by_cases same : path = front ++ [file.name]
    · rw [same, Function.update_self] at value
      obtain ⟨_, _, _, foundChild⟩ := placed.directory
      refine ⟨child, _, (placed.at_iff tree here path child).mpr (Or.inr ⟨same, rfl⟩), foundChild, ?_⟩
      rw [← Option.some.inj value]
      exact shown.congr rfl rfl rfl
    · rw [Function.update_of_ne same] at value
      obtain ⟨address, other, there, look, otherShows⟩ := stores.present path shownContent value
      refine ⟨address, _, (placed.at_iff tree here path address).mpr (Or.inl there), placed.old look, ?_⟩
      split
      · exact otherShows.congr rfl rfl rfl
      · exact otherShows
  · intro path value address there
    by_cases same : path = front ++ [file.name]
    · rw [same, Function.update_self] at value
      simp at value
    · rw [Function.update_of_ne same] at value
      rcases (placed.at_iff tree here path address).mp there with old | new
      · exact stores.absent path value address old
      · exact same new.1

section Refinement

variable {allocator : Allocator} {fs : Fs} {store : Store} {front : List CString} {name : CString}

/-- The directory of a path, as the model of `create_file` needs it. -/
theorem Stores.folder (stores : Stores fs.nodes store) (folder : store front = some .folder) :
    ∃ parent dir, At fs.nodes front parent ∧ fs.nodes.lookup parent = some dir ∧ dir.isDirectory :=
  stores.present front .folder folder

/-- The path of a node is taken. -/
theorem Stores.taken (stores : Stores fs.nodes store) {path : List CString} {address : Nat}
    (there : At fs.nodes path address) : ∃ content, store path = some content := by
  cases value : store path with
  | none => exact absurd there (stores.absent path value address)
  | some content => exact ⟨content, rfl⟩

/-- `create_folder` makes a folder, or finds one. -/
theorem createFolder_refines (never : NeverFails allocator) (stores : Stores fs.nodes store)
    (legal : ∀ component ∈ front ++ [name], LegalName component) (parent : store front = some .folder)
    (free : ∀ data, store (front ++ [name]) ≠ some (.regular data)) :
    ∃ status fs', createFolder allocator (some (joinPath (front ++ [name]))) fs = .ok (status, fs') ∧
      (status = .success ∨ status = .alrExist) ∧
      Stores fs'.nodes (Function.update store (front ++ [name]) (some .folder)) := by
  obtain ⟨address, dir, here, found, directory⟩ := stores.folder parent
  obtain ⟨kids, depth, tree⟩ := stores.tree
  obtain ⟨status, fs', result, effect⟩ := createFile_join never tree legal here found directory
    ⟨true, fun _ => 0⟩ 0 fsIsDirectory (by simp)
  rcases effect with ⟨taken, same, child, there⟩ | ⟨done, absent, child, placed⟩
  · refine ⟨status, fs', ?_, Or.inr taken, ?_⟩
    · rw [createFolder_eq, result]
    · obtain ⟨content, value⟩ := stores.taken there
      have isFolder : content = .folder := by
        cases content with
        | folder => rfl
        | regular data => exact absurd value (free data)
      rw [same, ← isFolder, ← value, Function.update_eq_self]
      exact stores
  · refine ⟨status, fs', ?_, Or.inl done, ?_⟩
    · rw [createFolder_eq, result]
    · apply stores.placed placed here found directory rfl (legal name (by simp)) absent
      show fsIsDirectory % 2 ^ 16 &&& fsIsDirectory ≠ 0
      decide

/-- `create_file` stores its data at a free path. -/
theorem createFile_refines (never : NeverFails allocator) (stores : Stores fs.nodes store)
    (legal : ∀ component ∈ front ++ [name], LegalName component) (parent : store front = some .folder)
    (free : store (front ++ [name]) = none) (data : List UInt8) :
    ∃ fs', createFile allocator (some (joinPath (front ++ [name])))
        ⟨false, fun index => data.getD index 0⟩ data.length 0 fs = .ok (.success, fs') ∧
      Stores fs'.nodes (Function.update store (front ++ [name]) (some (.regular data))) := by
  obtain ⟨address, dir, here, found, directory⟩ := stores.folder parent
  obtain ⟨kids, depth, tree⟩ := stores.tree
  obtain ⟨status, fs', result, effect⟩ := createFile_join never tree legal here found directory
    ⟨false, fun index => data.getD index 0⟩ data.length 0 (by simp)
  rcases effect with ⟨_, _, child, there⟩ | ⟨done, absent, child, placed⟩
  · exact absurd there (stores.absent _ free child)
  · refine ⟨fs', by rw [result, done], ?_⟩
    exact stores.placed placed here found directory rfl (legal name (by simp)) absent
      (newFile_shows name data)

end Refinement

/-- The folders that a path passes through behind `front`. -/
def ancestors (front : List CString) : List CString → List (List CString)
  | [] => []
  | [_] => []
  | component :: next :: rest => (front ++ [component]) :: ancestors (front ++ [component]) (next :: rest)

/-- The ancestors are the parts of the path below the front. -/
theorem mem_ancestors (front rest path : List CString) :
    path ∈ ancestors front rest ↔
      ∃ middle, middle ≠ [] ∧ middle <+: rest ∧ middle ≠ rest ∧ path = front ++ middle := by
  induction rest generalizing front with
  | nil =>
      simp only [ancestors, List.not_mem_nil, List.prefix_nil, false_iff]
      intro found
      obtain ⟨middle, some, none, _⟩ := found
      exact some none
  | cons component rest ih =>
      cases rest with
      | nil =>
          simp only [ancestors, List.not_mem_nil, false_iff]
          intro found
          obtain ⟨middle, some, inside, different, _⟩ := found
          rcases List.prefix_cons_iff.mp inside with none | ⟨tail, same, short⟩
          · exact some none
          · rw [List.prefix_nil.mp short] at same
            exact different same
      | cons next others =>
          rw [ancestors, List.mem_cons, ih]
          constructor
          · intro either
            rcases either with here | ⟨middle, some, inside, different, same⟩
            · refine ⟨[component], by simp, by simp, by simp, here⟩
            · refine ⟨component :: middle, by simp, ?_, ?_, by rw [same, List.append_assoc]; rfl⟩
              · exact List.cons_prefix_cons.mpr ⟨rfl, inside⟩
              · exact fun equal => different (List.cons.inj equal).2
          · intro found
            obtain ⟨middle, some, inside, different, same⟩ := found
            rcases List.prefix_cons_iff.mp inside with none | ⟨tail, whole, short⟩
            · exact absurd none some
            · subst whole
              by_cases single : tail = []
              · left
                rw [same, single]
              · right
                refine ⟨tail, single, short, fun equal => different (by rw [equal]), ?_⟩
                rw [same, List.append_assoc]
                rfl

/-- From the root the ancestors are the proper parts of the path. -/
theorem mem_ancestors_root {path other : List CString} :
    other ∈ ancestors [] path ↔ other ≠ [] ∧ other <+: path ∧ other ≠ path := by
  rw [mem_ancestors]
  constructor
  · intro found
    obtain ⟨middle, some, inside, different, same⟩ := found
    rw [List.nil_append] at same
    rw [same]
    exact ⟨some, inside, different⟩
  · intro found
    exact ⟨other, found.1, found.2.1, found.2.2, rfl⟩

/-- A component adds no prefix. -/
theorem slashPrefixes_component {before component rest : CString} (plain : slash ∉ component) :
    slashPrefixes before (component ++ rest) = slashPrefixes (before ++ component) rest := by
  induction component generalizing before with
  | nil => simp
  | cons byte tail ih =>
      simp only [List.mem_cons, not_or] at plain
      rw [List.cons_append, slashPrefixes, if_neg (Ne.symm plain.1), ih plain.2, List.append_assoc]
      rfl

/-- The text before the components that follow `front`. -/
def pathLead (front : List CString) : CString := if front = [] then [] else joinPath front ++ [slash]

/-- The lead of a path and a component make the joined path. -/
theorem pathLead_join (front : List CString) (component : CString) :
    pathLead front ++ component = joinPath (front ++ [component]) := by
  unfold pathLead
  split
  · rename_i single
    rw [single]
    rfl
  · rename_i more
    rw [joinPath_snoc component more, List.append_assoc]
    rfl

/-- `ensure_parent_directories` visits the folders on the way to a path. -/
theorem slashPrefixes_join {front rest : List CString} (plain : ∀ component ∈ rest, slash ∉ component) :
    slashPrefixes (pathLead front) (joinPath rest) = (ancestors front rest).map joinPath := by
  induction rest generalizing front with
  | nil => rfl
  | cons component rest ih =>
      have plainHere := plain component (by simp)
      cases rest with
      | nil =>
          have whole : slashPrefixes (pathLead front) (component ++ []) =
              slashPrefixes (pathLead front ++ component) [] := slashPrefixes_component plainHere
          rw [List.append_nil] at whole
          exact whole
      | cons next others =>
          have lead : pathLead front ++ component ++ [slash] = pathLead (front ++ [component]) := by
            rw [pathLead_join]
            simp [pathLead]
          rw [joinPath, slashPrefixes_component plainHere, slashPrefixes, if_pos rfl, lead,
            ih fun other member => plain other (by simp [List.mem_cons.mp member]), ancestors, List.map_cons,
            pathLead_join]

/-- `ensure_parent_directories` turns the way to a path into folders. -/
theorem ensureFolders_refines {allocator : Allocator} (never : NeverFails allocator) {fs : Fs}
    {store : Store} {front rest : List CString} (stores : Stores fs.nodes store)
    (legal : ∀ component ∈ front ++ rest, LegalName component) (start : store front = some .folder)
    (free : ∀ path ∈ ancestors front rest, ∀ data, store path ≠ some (.regular data)) :
    ∃ fs', ensureFolders allocator ((ancestors front rest).map joinPath) fs = .ok (true, fs') ∧
      Stores fs'.nodes (fun path => if path ∈ ancestors front rest then some .folder else store path) := by
  induction rest generalizing front fs store with
  | nil => exact ⟨fs, rfl, by simpa [ancestors] using stores⟩
  | cons component rest ih =>
      cases rest with
      | nil => exact ⟨fs, rfl, by simpa [ancestors] using stores⟩
      | cons next others =>
          have legalHere : ∀ other ∈ front ++ [component], LegalName other := by
            intro other member
            apply legal
            rcases List.mem_append.mp member with old | new
            · simp [old]
            · simp [List.mem_singleton.mp new]
          obtain ⟨status, fs', result, fine, stores'⟩ := createFolder_refines never stores legalHere start
            (free (front ++ [component]) (by simp [ancestors]))
          have freeRest : ∀ path ∈ ancestors (front ++ [component]) (next :: others), ∀ data,
              Function.update store (front ++ [component]) (some .folder) path ≠ some (.regular data) := by
            intro path member data
            by_cases same : path = front ++ [component]
            · rw [same, Function.update_self]
              simp
            · rw [Function.update_of_ne same]
              exact free path (by rw [ancestors]; exact List.mem_cons_of_mem _ member) data
          obtain ⟨fs'', result', stores''⟩ := ih stores'
            (fun other member => legal other (by simpa using member))
            (Function.update_self (front ++ [component]) (some .folder) store) freeRest
          obtain ⟨nonempty, _⟩ := joinPath_ends legalHere (by simp)
          have goesOn : ¬ (status ≠ .success ∧ status ≠ .alrExist) := by
            intro both
            rcases fine with done | exists_
            · exact both.1 done
            · exact both.2 exists_
          refine ⟨fs'', ?_, ?_⟩
          · simp only [ancestors, List.map_cons, ensureFolders, nonempty, if_false, result, bind, Except.bind,
              goesOn]
            exact result'
          · convert stores'' using 2 with path
            by_cases same : path = front ++ [component]
            · rw [same, Function.update_self]
              simp [ancestors]
            · rw [Function.update_of_ne same]
              simp [ancestors, same]

end ArchaOS.FileSystem
