import ArchaOS.Proof.FileSystem.Store

namespace ArchaOS.FileSystem

/-- The parts of a text between its slashes. -/
def components : CString → List CString
  | [] => [[]]
  | byte :: rest =>
      if byte = slash then [] :: components rest
      else
        match components rest with
        | [] => [[byte]]
        | first :: others => (byte :: first) :: others

/-- A text has at least one component. -/
theorem components_ne_nil (text : CString) : components text ≠ [] := by
  cases text with
  | nil => simp [components]
  | cons byte rest =>
      rw [components]
      split
      · simp
      · split <;> simp

/-- The components of a text join to the text. -/
theorem joinPath_components (text : CString) : joinPath (components text) = text := by
  induction text with
  | nil => rfl
  | cons byte rest ih =>
      rw [components]
      by_cases separator : byte = slash
      · rw [if_pos separator, joinPath_cons [] (components_ne_nil rest), ih, separator]
        rfl
      · rw [if_neg separator]
        cases parts : components rest with
        | nil => exact absurd parts (components_ne_nil rest)
        | cons first others =>
            rw [parts] at ih
            rw [← ih]
            cases others with
            | nil => rfl
            | cons next more => rfl

/-- No component contains a slash. -/
theorem components_plain (text : CString) : ∀ component ∈ components text, slash ∉ component := by
  induction text with
  | nil => simp [components]
  | cons byte rest ih =>
      rw [components]
      by_cases separator : byte = slash
      · rw [if_pos separator]
        intro component member
        rcases List.mem_cons.mp member with rfl | later
        · simp
        · exact ih component later
      · rw [if_neg separator]
        cases parts : components rest with
        | nil => exact absurd parts (components_ne_nil rest)
        | cons first others =>
            rw [parts] at ih
            intro component member
            rcases List.mem_cons.mp member with rfl | later
            · have old := ih first (by simp)
              simpa using ⟨Ne.symm separator, old⟩
            · exact ih component (List.mem_cons_of_mem _ later)

/-- The base name of a joined path is its last component. -/
theorem baseName_join {front : List CString} {name : CString} (plain : slash ∉ name) :
    baseName (joinPath (front ++ [name])) = name := by
  by_cases single : front = []
  · subst single
    have whole : joinPath ([] ++ [name]) = name := rfl
    rw [whole, baseName, strrchr_absent plain]
  · rw [joinPath_snoc name single, baseName, strrchr_split slash (joinPath front) plain]
    simp

section Accepting

variable {allocator : Allocator} {fs fs' : Fs} {kids : Nat → List Nat} {depth : Nat → Nat}
  {front : List CString} {name : CString} {parent : Nat} {dir : File} {status : FsReturn}

/-- What it takes for `create_file` to make a node, or to find one in its place. -/
theorem createFile_accepts (tree : Tree fs.nodes kids depth)
    (legalFront : ∀ component ∈ front, LegalName component) (plain : slash ∉ name)
    (here : At fs.nodes front parent) (found : fs.nodes.lookup parent = some dir) {data : Buffer}
    {size flags : Nat}
    (result : createFile allocator (some (joinPath (front ++ [name]))) data size flags fs =
      .ok (status, fs'))
    (accepted : status = .success ∨ status = .alrExist) :
    LegalName name ∧ dir.isDirectory ∧
      ((fs'.nodes = fs.nodes ∧ ∃ child, At fs.nodes (front ++ [name]) child) ∨
        ((∀ child, ¬ At fs.nodes (front ++ [name]) child) ∧
          ∃ child, Placed fs.nodes fs'.nodes parent child (newFile name data size flags))) := by
  rcases createFile_stages allocator tree (joinPath (front ++ [name])) data size flags with
    ⟨other, calls, stopped, failed, fresh⟩ | ⟨above, folder, leads, effect⟩
  · obtain ⟨rfl, _⟩ := Prod.mk.inj (Except.ok.inj (stopped.symm.trans result))
    rcases accepted with done | exists_
    · exact absurd done failed
    · exact absurd exists_ fresh
  have legal := leads.legal
  rw [baseName_join plain] at legal effect
  have legalAll : ∀ component ∈ front ++ [name], LegalName component := by
    intro component member
    rcases List.mem_append.mp member with old | new
    · exact legalFront component old
    · rw [List.mem_singleton.mp new]
      exact legal
  obtain ⟨parsed, _⟩ := parentPath_join tree legalAll here
  obtain rfl : above = parent := Except.ok.inj (Except.ok.inj (leads.parsed.symm.trans parsed))
  obtain rfl : folder = dir := Option.some.inj (leads.found.symm.trans found)
  refine ⟨legal, leads.directory, ?_⟩
  rcases effect with ⟨calls, taken, child, member, file, look, rfl⟩ | ⟨places, unused⟩
  · obtain ⟨_, rfl⟩ := Prod.mk.inj (Except.ok.inj (taken.symm.trans result))
    exact Or.inl ⟨rfl, child, tree.at_child here (mem_of_lookup found) member look⟩
  · have live : above ∈ (⟨fs.nodes, fs.calls + 1 + 1⟩ : Fs).nodes := mem_of_lookup found
    obtain ⟨other, after, placed, effect⟩ := placeFile_cases allocator live name data size flags
    obtain ⟨rfl, rfl⟩ := Prod.mk.inj (Except.ok.inj ((places.trans placed).symm.trans result))
    rcases effect with ⟨failed, _⟩ | ⟨_, child, new⟩
    · rw [failed] at accepted
      exact absurd accepted (by decide)
    · exact Or.inr ⟨tree.at_absent here unused, child, new⟩

end Accepting

/-- A content is put where the abstract filesystem holds nothing yet. -/
def Store.offer (store : Store) (path : List CString) (content : Content) : Store :=
  fun other => if other = path then some ((store other).getD content) else store other

/-- A path that is taken keeps its content. -/
theorem Store.offer_taken {store : Store} {path : List CString} {old : Content}
    (taken : store path = some old) (content : Content) : store.offer path content = store := by
  funext other
  unfold Store.offer
  split
  · rename_i same
    rw [same, taken, Option.getD_some]
  · rfl

/-- A free path gets the content. -/
theorem Store.offer_free {store : Store} {path : List CString} (free : store path = none)
    (content : Content) : store.offer path content = Function.update store path (some content) := by
  funext other
  unfold Store.offer
  by_cases same : other = path
  · rw [if_pos same, same, free, Option.getD_none, Function.update_self]
  · rw [if_neg same, Function.update_of_ne same]

section Offering

variable {allocator : Allocator} {fs fs' : Fs} {store : Store} {front : List CString}
  {name : CString} {status : FsReturn} (stores : Stores fs.nodes store)
  (legalFront : ∀ component ∈ front, LegalName component) (plain : slash ∉ name)
  {above : Content} (start : store front = some above)
include stores legalFront plain start

/-- An accepted call of `create_file` offers its content at a path of legal components. -/
theorem createFile_offers {data : Buffer} {size flags : Nat} {content : Content}
    (shown : Shows (newFile name data size flags) content)
    (result : createFile allocator (some (joinPath (front ++ [name]))) data size flags fs =
      .ok (status, fs'))
    (accepted : status = .success ∨ status = .alrExist) :
    LegalName name ∧ Stores fs'.nodes (store.offer (front ++ [name]) content) := by
  obtain ⟨parent, dir, here, found, _⟩ := stores.present front above start
  obtain ⟨kids, depth, tree⟩ := stores.tree
  obtain ⟨legal, directory, effect⟩ :=
    createFile_accepts tree legalFront plain here found result accepted
  refine ⟨legal, ?_⟩
  rcases effect with ⟨same, child, there⟩ | ⟨absent, child, placed⟩
  · obtain ⟨old, taken⟩ := stores.taken there
    rw [same, Store.offer_taken taken]
    exact stores
  · have free : store (front ++ [name]) = none := by
      cases value : store (front ++ [name]) with
      | none => rfl
      | some old =>
          obtain ⟨address, file, there, _⟩ := stores.present _ old value
          exact absurd there (absent address)
    rw [Store.offer_free free]
    exact stores.placed placed here found directory rfl legal absent shown

/-- `create_folder` for an entry offers a folder to its path. -/
theorem createFolder_offers
    (result : createFolder allocator (some (joinPath (front ++ [name]))) fs = .ok (status, fs'))
    (accepted : status = .success ∨ status = .alrExist) :
    LegalName name ∧ Stores fs'.nodes (store.offer (front ++ [name]) .folder) := by
  rw [createFolder_eq] at result
  refine createFile_offers stores legalFront plain start ?_ result accepted
  change fsIsDirectory % 2 ^ 16 &&& fsIsDirectory ≠ 0
  decide

end Offering

/-- The folders that an accepted entry leaves on the way to its path. -/
def Store.pave (store : Store) (front rest : List CString) : Store :=
  fun other => if other ∈ ancestors front rest then some ((store other).getD .folder) else store other

/-- A path without ancestors needs no folder. -/
theorem Store.pave_empty {store : Store} {front rest : List CString} (direct : ancestors front rest = []) :
    store.pave front rest = store := by
  funext other
  simp [Store.pave, direct]

/-- The folders on a path are offered one after the other. -/
theorem Store.pave_cons (store : Store) (front : List CString) (component next : CString)
    (others : List CString) :
    store.pave front (component :: next :: others) =
      (store.offer (front ++ [component]) .folder).pave (front ++ [component]) (next :: others) := by
  funext other
  unfold Store.pave Store.offer
  rw [ancestors]
  by_cases here : other = front ++ [component]
  · simp [here]
  · simp [here]

/-- Accepted calls for the way to a path show that its components but the last are legal. -/
theorem ensureFolders_paves {allocator : Allocator} {fs fs' : Fs} {store : Store}
    {front rest : List CString} {above : Content} (stores : Stores fs.nodes store)
    (legalFront : ∀ component ∈ front, LegalName component)
    (plain : ∀ component ∈ rest, slash ∉ component) (start : store front = some above)
    (result : ensureFolders allocator ((ancestors front rest).map joinPath) fs = .ok (true, fs')) :
    (∀ component ∈ rest.dropLast, LegalName component) ∧
      Stores fs'.nodes (store.pave front rest) := by
  induction rest generalizing front fs store above with
  | nil =>
      obtain ⟨_, rfl⟩ := Prod.mk.inj (Except.ok.inj result)
      exact ⟨by simp, by rw [Store.pave_empty rfl]; exact stores⟩
  | cons component rest ih =>
      cases rest with
      | nil =>
          obtain ⟨_, rfl⟩ := Prod.mk.inj (Except.ok.inj result)
          exact ⟨by simp, by rw [Store.pave_empty rfl]; exact stores⟩
      | cons next others =>
          simp only [ancestors, List.map_cons, ensureFolders] at result
          split at result
          · cases Except.ok.inj result
          · rcases call : createFolder allocator (some (joinPath (front ++ [component]))) fs with
              fault | ⟨status, between⟩
            · rw [call] at result
              cases result
            · simp only [call, bind, Except.bind] at result
              split at result
              · cases Except.ok.inj result
              · rename_i fine
                have accepted : status = .success ∨ status = .alrExist := by tauto
                obtain ⟨legal, stores'⟩ := createFolder_offers stores legalFront
                  (plain component (by simp)) start call accepted
                have legalNext : ∀ other ∈ front ++ [component], LegalName other := by
                  intro other member
                  rcases List.mem_append.mp member with old | new
                  · exact legalFront other old
                  · rw [List.mem_singleton.mp new]
                    exact legal
                have startNext : store.offer (front ++ [component]) .folder (front ++ [component]) =
                    some ((store (front ++ [component])).getD .folder) := if_pos rfl
                obtain ⟨legalRest, stores''⟩ := ih stores' legalNext
                  (fun other member => plain other (List.mem_cons_of_mem _ member)) startNext result
                refine ⟨?_, ?_⟩
                · intro other member
                  rw [List.dropLast_cons_cons] at member
                  rcases List.mem_cons.mp member with rfl | later
                  · exact legal
                  · exact legalRest other later
                · rw [Store.pave_cons]
                  exact stores''

/-- The abstract filesystem after an accepted entry: what was there stays, and the free places on the
way to the path and at its end are filled. -/
def Store.add (store : Store) (path : List CString) (content : Content) : Store :=
  (store.pave [] path).offer path content

section Entries

variable {allocator : Allocator} {fs between fs' : Fs} {store : Store} {above : Content}
  (stores : Stores fs.nodes store) (top : store [] = some above)
include stores top

/-- An entry whose calls are all accepted names a path of legal components and adds its content. -/
theorem createFile_adds {text : CString} {data : Buffer} {size flags : Nat} {content : Content}
    {status : FsReturn} (shown : ∀ name, Shows (newFile name data size flags) content)
    (ensured : ensureFolders allocator (slashPrefixes [] text) fs = .ok (true, between))
    (result : createFile allocator (some text) data size flags between = .ok (status, fs'))
    (accepted : status = .success ∨ status = .alrExist) :
    (∀ component ∈ components text, LegalName component) ∧
      Stores fs'.nodes (store.add (components text) content) := by
  have plain := components_plain text
  have whole := joinPath_components text
  have some := components_ne_nil text
  generalize components text = path at *
  subst whole
  have start : slashPrefixes (pathLead []) (joinPath path) = (ancestors [] path).map joinPath :=
    slashPrefixes_join plain
  have lead : pathLead [] = [] := rfl
  rw [lead] at start
  rw [start] at ensured
  obtain ⟨legalWay, paved⟩ := ensureFolders_paves stores (by simp) plain top ensured
  rcases path.eq_nil_or_concat with nil | ⟨front, name, same⟩
  · exact absurd nil some
  · rw [List.concat_eq_append] at same
    subst same
    rw [List.dropLast_concat] at legalWay
    have parent : ∃ content, store.pave [] (front ++ [name]) front = .some content := by
      unfold Store.pave
      by_cases first : front = []
      · rw [first, top]
        split
        · exact ⟨_, rfl⟩
        · exact ⟨_, rfl⟩
      · have way : front ∈ ancestors [] (front ++ [name]) :=
          mem_ancestors_root.mpr ⟨first, List.prefix_append _ _, by simp⟩
        exact ⟨_, if_pos way⟩
    obtain ⟨content', parent⟩ := parent
    obtain ⟨legal, added⟩ := createFile_offers paved legalWay (plain name (by simp)) parent
      (shown name) result accepted
    refine ⟨?_, added⟩
    intro component member
    rcases List.mem_append.mp member with old | new
    · exact legalWay component old
    · rw [List.mem_singleton.mp new]
      exact legal

end Entries

end ArchaOS.FileSystem
