import ArchaOS.Proof.FileSystem.Ownership

namespace ArchaOS.OwnedFiles

open FileSystem Library

/-- A directory can take a new node of this name. -/
structure Vacant (nodes : Nodes) (parent : Nat) (name : CString) : Prop where
  live : parent ∈ nodes
  tree : ∀ nodes' child data size flags,
    Placed nodes nodes' parent child (newFile name data size flags) → IsTree nodes'

/-- A block that belongs to no node is not the address of one. -/
theorem Holds.fresh {extra : List Nat} {state : State} (holds : Holds extra state) {block : Nat}
    (member : block ∈ extra) : block ≠ 0 ∧ block ≠ root ∧ block ∉ state.nodes := by
  obtain ⟨nonzero, notRoot⟩ := holds.proper block ((holds.live block).mpr (Or.inr member))
  refine ⟨nonzero, notRoot, ?_⟩
  intro live
  obtain ⟨file, found⟩ := lookup_of_mem live
  apply holds.apart block member
  refine ⟨.node, block, ⟨notRoot, file.size, ?_, by simp⟩, rfl⟩
  rw [State.sizeOf, found]
  rfl

/-- `link_child` gives the blocks that `create_file` holds to the new node. -/
theorem linkChild_holds {state : State} {parent file nameBlock dataBlock size flags : Nat}
    {name : CString} (data : Buffer) (vacant : Vacant state.nodes parent name)
    (holds : Holds (nodeBlocks file nameBlock dataBlock size) state)
    (empty : size = 0 → dataBlock = 0) :
    ∃ nodes, linkChild (state.nodes.insert file (newFile name data size flags)) parent file = .ok nodes ∧
      Holds [] { state with
        nodes := nodes
        name := Function.update state.name file nameBlock
        data := Function.update state.data file dataBlock } := by
  obtain ⟨nonzero, notRoot, fresh⟩ := holds.fresh (show file ∈ _ from List.mem_cons_self)
  obtain ⟨nodes, linked, placed⟩ :=
    linkChild_placed (newFile name data size flags) vacant.live fresh nonzero
  refine ⟨nodes, linked, ?_⟩
  have more : Extends state { state with
      nodes := nodes
      name := Function.update state.name file nameBlock
      data := Function.update state.data file dataBlock } file size := by
    refine ⟨?_, notRoot, placed_sizes placed, ?_, ?_⟩
    · rw [State.sizeOf, AList.lookup_eq_none.mpr fresh]
      rfl
    · exact fun address other => Function.update_of_ne other _ _
    · exact fun address other => Function.update_of_ne other _ _
  have nameHere : Function.update state.name file nameBlock file = nameBlock :=
    Function.update_self _ _ _
  have dataHere : Function.update state.data file dataBlock file = dataBlock :=
    Function.update_self _ _ _
  refine Holds.place more ?_ (vacant.tree _ _ _ _ _ placed) rfl ?_
  · dsimp only
    rw [nameHere, dataHere]
    exact holds
  · dsimp only
    rw [dataHere]
    exact empty

/-- The end of `create_file` releases the name on failure and gives it to the node on success. -/
theorem placeFile_holds (answers : Nat → Option Nat) {state : State} {parent nameBlock : Nat}
    {name : CString} (vacant : Vacant state.nodes parent name) (holds : Holds [nameBlock] state)
    (data : Buffer) (size flags : Nat) :
    ∃ status after, placeFile answers parent nameBlock name data size flags state =
      .ok (status, after) ∧ Holds [] after := by
  unfold placeFile
  rcases kmalloc_cases answers holds with ⟨failed, answer, held, _⟩ | ⟨file, made, answer, held, same⟩
  · obtain ⟨after, freed, released, _⟩ := kfree_held held
    refine ⟨.fail, after, ?_, released⟩
    rw [answer]
    simp only [freed, bind, Except.bind]
    rfl
  · rw [answer]
    have finish {between : State} {dataBlock : Nat} (kept : SameNodes made between)
        (held : Holds (nodeBlocks file nameBlock dataBlock size) between)
        (empty : size = 0 → dataBlock = 0) : ∃ status after, (do
          let block := if size = 0 then none else some (data.copy size)
          let nodes ← linkChild (between.nodes.insert file
            { id := 0, name := name, parent := 0, children := 0, next := 0, data := block,
              size := size, flags := flags % 2 ^ 16 }) parent file
          return (FsReturn.success, { between with
            nodes := nodes
            name := Function.update between.name file nameBlock
            data := Function.update between.data file dataBlock }) :
            Outcome (FsReturn × State)) = .ok (status, after) ∧ Holds [] after := by
      have vacant' : Vacant between.nodes parent name := by
        rw [kept.nodes, same.nodes]
        exact vacant
      obtain ⟨nodes, linked, last⟩ := linkChild_holds data vacant' held empty
      refine ⟨.success, _, ?_, last⟩
      have linked' : linkChild (between.nodes.insert file
          { id := 0, name := name, parent := 0, children := 0, next := 0,
            data := if size = 0 then none else some (data.copy size), size := size,
            flags := flags % 2 ^ 16 }) parent file = .ok nodes := linked
      simp only [linked', bind, Except.bind]
      rfl
    dsimp only
    by_cases empty : size = 0
    · rw [if_pos empty]
      refine finish ⟨rfl, rfl, rfl⟩ ?_ (fun _ => rfl)
      rw [nodeBlocks, if_pos empty]
      exact held
    · rw [if_neg empty]
      rcases kmalloc_cases answers held with
        ⟨failed, second, held', _⟩ | ⟨dataBlock, between, second, held', kept⟩
      · obtain ⟨unnamed, freedName, rest, _⟩ := kfree_held (held'.perm (.swap nameBlock file []))
        obtain ⟨after, freedFile, released, _⟩ := kfree_held rest
        refine ⟨.fail, after, ?_, released⟩
        rw [second]
        simp only [freedName, freedFile, bind, Except.bind]
        rfl
      · rw [second]
        refine finish kept ?_ (fun none => absurd none empty)
        rw [nodeBlocks, if_neg empty]
        have order : ([dataBlock] ++ [file, nameBlock]).Perm ([file, nameBlock] ++ [dataBlock]) :=
          List.perm_append_comm
        exact held'.perm order

/-- `create_file` behind the checks of its arguments releases what it does not give to a node. -/
theorem createNode_holds (answers : Nat → Option Nat) {state : State} (holds : Holds [] state)
    {path : CString} (nonempty : path ≠ []) (last : path.getLast? ≠ some slash) (data : Buffer)
    (size flags : Nat) :
    ∃ status after, createNode answers path data size flags state = .ok (status, after) ∧
      Holds [] after := by
  obtain ⟨named, component⟩ := baseName_component nonempty last
  unfold createNode
  rcases kmalloc_cases answers holds with
    ⟨failed, answer, held, _⟩ | ⟨parentBlock, first, answer, held, _⟩
  · exact ⟨.fail, failed, by rw [answer], held⟩
  · rw [answer]
    dsimp only
    rcases kmalloc_cases answers held with
      ⟨failed, answer', held', _⟩ | ⟨nameBlock, second, answer', held', _⟩
    · obtain ⟨after, freed, released, _⟩ := kfree_held held'
      refine ⟨.fail, after, ?_, released⟩
      rw [answer']
      simp only [freed, bind, Except.bind]
      rfl
    · rw [answer']
      dsimp only
      by_cases special : baseName path = [dot] ∨ baseName path = [dot, dot]
      · obtain ⟨unnamed, freedName, rest, _⟩ := kfree_held held'
        obtain ⟨after, freedParent, released, _⟩ := kfree_held rest
        refine ⟨.fail, after, ?_, released⟩
        simp only [if_pos special, freedName, freedParent, bind, Except.bind]
        rfl
      · obtain ⟨between, freedParent, rest, same⟩ :=
          kfree_held (held'.perm (.swap parentBlock nameBlock []))
        obtain ⟨after, freedName, released, _⟩ := kfree_held rest
        obtain ⟨kids, depth, tree⟩ := rest.tree
        obtain ⟨result, parsed, inside⟩ := tree.parsePath_total (some (parentPath path))
        rw [same.nodes] at parsed
        simp only [if_neg special, parsed, freedParent, bind, Except.bind]
        cases result with
        | error status =>
            refine ⟨status, after, ?_, released⟩
            simp only [freedName]
            rfl
        | ok parent =>
            have live : parent ∈ between.nodes := inside
            obtain ⟨dir, foundDir⟩ := lookup_of_mem live
            simp only [load_ok foundDir, findChild, bind, Except.bind]
            by_cases directory : dir.isDirectory
            · rcases tree.search (baseName path) foundDir with
                ⟨child, member, search, _⟩ | ⟨search, unused⟩
              · have nonzero := ((tree.lists parent dir foundDir).member member).1
                refine ⟨.alrExist, after, ?_, released⟩
                simp only [directory, not_true_eq_false, if_false, search, ne_eq, nonzero,
                  not_false_eq_true, if_true, freedName]
                rfl
              · have vacant : Vacant between.nodes parent (baseName path) := by
                  refine ⟨live, ?_⟩
                  intro nodes' child data size flags placed
                  refine ⟨_, _, tree.placed placed rfl ⟨named, component,
                    fun one => special (Or.inl one), fun two => special (Or.inr two)⟩ unused ?_⟩
                  intro dir' found'
                  rw [foundDir] at found'
                  rw [← Option.some.inj found']
                  exact directory
                obtain ⟨status, final, result, held⟩ :=
                  placeFile_holds answers vacant rest data size flags
                refine ⟨status, final, ?_, held⟩
                simp only [directory, not_true_eq_false, if_false, search, ne_eq]
                exact result
            · refine ⟨.notADir, after, ?_, released⟩
              simp only [directory, not_false_eq_true, if_true, freedName]
              rfl

/-- `create_file` keeps the ownership of the blocks. -/
theorem createFile_holds (answers : Nat → Option Nat) {state : State} (holds : Holds [] state)
    (path : Option CString) (data : Buffer) (size flags : Nat) :
    ∃ status after, createFile answers path data size flags state = .ok (status, after) ∧
      Holds [] after := by
  unfold createFile
  cases path with
  | none => exact ⟨.invArg, state, rfl, holds⟩
  | some path =>
      dsimp only
      split
      · exact ⟨.invArg, state, rfl, holds⟩
      · split
        · exact ⟨.invPath, state, rfl, holds⟩
        · rename_i wellFormed
          rw [not_or] at wellFormed
          exact createNode_holds answers holds wellFormed.1 wellFormed.2 data size flags

/-- `create_folder` keeps the ownership of the blocks. -/
theorem createFolder_holds (answers : Nat → Option Nat) {state : State} (holds : Holds [] state)
    (path : Option CString) :
    ∃ status after, createFolder answers path state = .ok (status, after) ∧ Holds [] after := by
  rw [createFolder, relay_eq]
  exact createFile_holds answers holds path ⟨true, fun _ => 0⟩ 0 fsIsDirectory

/-- `kfree` does not read the nodes. -/
theorem kfree_nodes {block : Nat} {state after : State} (freed : kfree block state = .ok after)
    (nodes : Nodes) : kfree block { state with nodes := nodes } = .ok { after with nodes := nodes } := by
  unfold kfree at freed ⊢
  split at freed
  · rename_i null
    rw [if_pos null, ← Except.ok.inj freed]
  · rename_i present
    split at freed
    · rename_i member
      rw [if_neg present, if_pos member, ← Except.ok.inj freed]
    · cases freed

/-- The three calls of `kfree` in `delete_file` release the blocks of the node. -/
theorem kfree_nodeBlocks {state : State} {file nameBlock dataBlock size : Nat}
    (holds : Holds (nodeBlocks file nameBlock dataBlock size) state)
    (empty : size = 0 → dataBlock = 0) :
    ∃ unnamed undated after, kfree nameBlock state = .ok unnamed ∧ unnamed.data = state.data ∧
      kfree dataBlock unnamed = .ok undated ∧ kfree file undated = .ok after ∧ Holds [] after ∧
      after.nodes = state.nodes := by
  have nameFirst := holds.perm (.swap nameBlock file _)
  obtain ⟨unnamed, freedName, rest, same⟩ := kfree_held nameFirst
  by_cases none : size = 0
  · rw [if_pos none] at rest
    obtain ⟨after, freedFile, released, same'⟩ := kfree_held rest
    refine ⟨unnamed, unnamed, after, freedName, same.data, ?_, freedFile, released,
      same'.nodes.trans same.nodes⟩
    rw [empty none, kfree, if_pos rfl]
  · rw [if_neg none] at rest
    obtain ⟨undated, freedData, rest', same'⟩ := kfree_held (rest.perm (.swap dataBlock file []))
    obtain ⟨after, freedFile, released, same''⟩ := kfree_held rest'
    exact ⟨unnamed, undated, after, freedName, same.data, freedData, freedFile, released,
      same''.nodes.trans (same'.nodes.trans same.nodes)⟩

/-- `delete_file` releases the blocks of the node that it takes out. -/
theorem deleteFile_holds {state : State} (holds : Holds [] state) (path : Option CString) :
    ∃ status after, deleteFile path state = .ok (status, after) ∧ Holds [] after := by
  obtain ⟨kids, depth, tree⟩ := holds.tree
  obtain ⟨result, parsed, inside⟩ := tree.parsePath_total path
  unfold deleteFile
  rw [parsed]
  cases result with
  | error status => exact ⟨status, state, rfl, holds⟩
  | ok target =>
      obtain ⟨file, found⟩ := lookup_of_mem inside
      by_cases top : target = root
      · refine ⟨.permissionDenied, state, ?_, holds⟩
        simp only [bind, Except.bind, top, if_true]
        rfl
      · by_cases filled : file.isDirectory ∧ file.children ≠ 0
        · refine ⟨.dirNotEmpty, state, ?_, holds⟩
          simp only [bind, Except.bind, top, if_false, load_ok found]
          exact if_pos filled
        · have childless := tree.childless found filled
          have parentPresent := tree.nonzero (tree.parentLive found)
          obtain ⟨nodes, unlinked, removed⟩ := tree.unlinkChild_removed found top
          have sizes := removed_sizes removed
          have sizeHere : state.sizeOf target = some file.size := by
            rw [State.sizeOf, found]
            rfl
          have more : Extends { state with nodes := nodes.erase target } state target file.size := by
            refine ⟨?_, top, ?_, fun _ _ => rfl, fun _ _ => rfl⟩
            · exact (sizes target).trans (if_pos rfl)
            · intro address
              by_cases here : address = target
              · rw [if_pos here, here]
                exact sizeHere
              · rw [if_neg here]
                exact ((sizes address).trans (if_neg here)).symm
          have left := holds.remove more ⟨_, _, tree.removed found top childless removed⟩ rfl
          have empty : file.size = 0 → state.data target = 0 := fun none =>
            holds.empty target top (sizeHere.trans (congrArg some none))
          obtain ⟨unnamed, undated, after, freedName, dataKept, freedData, freedFile, released, kept⟩ :=
            kfree_nodeBlocks left empty
          have first := kfree_nodes freedName nodes
          have dataHere : state.data target = unnamed.data target := (congrFun dataKept target).symm
          have second := kfree_nodes (dataHere ▸ freedData) nodes
          have third := kfree_nodes freedFile nodes
          refine ⟨.success, after, ?_, released⟩
          simp only [bind, Except.bind, top, if_false, load_ok found, filled, parentPresent, unlinked,
            first, second, third]
          rw [show nodes.erase target = after.nodes from kept.symm]
          rfl

/-- `delete_folder` keeps the ownership of the blocks. -/
theorem deleteFolder_holds {state : State} (holds : Holds [] state) (path : Option CString) :
    ∃ status after, deleteFolder path state = .ok (status, after) ∧ Holds [] after := by
  rw [deleteFolder, relay_eq]
  exact deleteFile_holds holds path

/-- Nodes of the same sizes have the same blocks. -/
theorem Holds.resize {extra : List Nat} {state : State} (holds : Holds extra state) {nodes : Nodes}
    (tree : IsTree nodes)
    (sizes : ∀ address, (nodes.lookup address).map File.size =
      (state.nodes.lookup address).map File.size) :
    Holds extra { state with nodes := nodes } := by
  have has (role : Role) (address : Nat) :
      ({ state with nodes := nodes } : State).Has role address ↔ state.Has role address := by
    unfold State.Has State.sizeOf
    rw [sizes]
  have owns (block : Nat) :
      ({ state with nodes := nodes } : State).Owns block ↔ state.Owns block := by
    unfold State.Owns
    simp only [has]
    rfl
  refine ⟨tree, ?_, ?_, holds.distinct, ?_, ?_, holds.proper⟩
  · exact fun block => (holds.live block).trans (or_congr (owns block).symm Iff.rfl)
  · exact fun block member owned => holds.apart block member ((owns block).mp owned)
  · intro role role' address address' first second same
    exact holds.once role role' address address' ((has _ _).mp first) ((has _ _).mp second) same
  · intro address notRoot zero
    exact holds.empty address notRoot ((sizes address).symm.trans zero)

/-- `write_file_content` changes the data of a node, not its size. -/
theorem writeFileContent_holds {state : State} (holds : Holds [] state) (path : Option CString)
    (buffer : Buffer) (bufSize : Nat) :
    ∃ status after, writeFileContent path buffer bufSize state = .ok (status, after) ∧
      Holds [] after := by
  obtain ⟨status, fs, result, effect⟩ := writeFileContent_cases
    (show IsTree (⟨state.nodes, state.calls⟩ : Fs).nodes from holds.tree) path buffer bufSize
  refine ⟨status, { state with nodes := fs.nodes }, ?_, ?_⟩
  · rw [writeFileContent, result]
    rfl
  · rcases effect with ⟨_, rfl⟩ | ⟨_, target, file, writes⟩
    · exact holds
    · obtain ⟨kids, depth, tree⟩ := holds.tree
      refine holds.resize ⟨kids, depth, writes.tree tree⟩ ?_
      intro address
      rw [writes.written]
      by_cases here : address = target
      · rw [here, AList.lookup_insert]
        exact (congrArg (Option.map File.size) writes.found).symm
      · rw [AList.lookup_insert_ne here]

/-- The calls of clients. -/
inductive Operation where
  | createFile (path : Option CString) (data : Buffer) (size flags : Nat)
  | createFolder (path : Option CString)
  | deleteFile (path : Option CString)
  | deleteFolder (path : Option CString)
  | writeFileContent (path : Option CString) (buffer : Buffer) (bufSize : Nat)
  | readFileContent (path : Option CString) (buffer : Buffer) (bufSize : Nat)
  | parseCpioDisk (disk : Option Archive) (stack : Nat → Nat → UInt8)

/-- The state after a call. -/
def Operation.run (answers : Nat → Option Nat) (state : State) : Operation → Outcome State
  | .createFile path data size flags =>
      (OwnedFiles.createFile answers path data size flags state).map Prod.snd
  | .createFolder path => (OwnedFiles.createFolder answers path state).map Prod.snd
  | .deleteFile path => (OwnedFiles.deleteFile path state).map Prod.snd
  | .deleteFolder path => (OwnedFiles.deleteFolder path state).map Prod.snd
  | .writeFileContent path buffer bufSize =>
      (OwnedFiles.writeFileContent path buffer bufSize state).map Prod.snd
  | .readFileContent path buffer bufSize =>
      (OwnedFiles.readFileContent path buffer bufSize state).map fun _ => state
  | .parseCpioDisk disk stack => ((ownedFiles answers).parseCpioDisk disk stack state).map Prod.snd

/-- A fault ends the run. -/
def step (answers : Nat → Option Nat) (state : Outcome State) (operation : Operation) :
    Outcome State := do
  let state ← state
  operation.run answers state

/-- `read_file_content` returns. -/
theorem readFileContent_returns {state : State} (holds : Holds [] state) (path : Option CString)
    (buffer : Buffer) (bufSize : Nat) :
    ∃ result, readFileContent path buffer bufSize state = .ok result := by
  have tree : IsTree (⟨state.nodes, state.calls⟩ : Fs).nodes := holds.tree
  obtain ⟨status, bytes, result, _⟩ := readFileContent_cases tree path buffer bufSize
  exact ⟨(status, bytes), result⟩

/-- The calls of the reader keep the ownership of the blocks. -/
theorem ownedFiles_holds (answers : Nat → Option Nat) :
    (ownedFiles answers).Keeps (Holds []) where
  folder := fun path _ holds => createFolder_holds answers holds (some path)
  file := fun path data size _ _ holds => createFile_holds answers holds (some path) data size 0

/-- Every call returns and leaves exactly the blocks of the nodes. -/
theorem Operation.run_holds (answers : Nat → Option Nat) {state : State} (holds : Holds [] state)
    (operation : Operation) : ∃ after, operation.run answers state = .ok after ∧ Holds [] after := by
  cases operation with
  | createFile path data size flags =>
      obtain ⟨status, after, result, held⟩ := createFile_holds answers holds path data size flags
      exact ⟨after, by rw [Operation.run, result]; rfl, held⟩
  | createFolder path =>
      obtain ⟨status, after, result, held⟩ := createFolder_holds answers holds path
      exact ⟨after, by rw [Operation.run, result]; rfl, held⟩
  | deleteFile path =>
      obtain ⟨status, after, result, held⟩ := deleteFile_holds holds path
      exact ⟨after, by rw [Operation.run, result]; rfl, held⟩
  | deleteFolder path =>
      obtain ⟨status, after, result, held⟩ := deleteFolder_holds holds path
      exact ⟨after, by rw [Operation.run, result]; rfl, held⟩
  | writeFileContent path buffer bufSize =>
      obtain ⟨status, after, result, held⟩ := writeFileContent_holds holds path buffer bufSize
      exact ⟨after, by rw [Operation.run, result]; rfl, held⟩
  | readFileContent path buffer bufSize =>
      obtain ⟨result, returned⟩ := readFileContent_returns holds path buffer bufSize
      exact ⟨state, by rw [Operation.run, returned]; rfl, holds⟩
  | parseCpioDisk disk stack =>
      obtain ⟨code, after, result, held⟩ :=
        Files.parseCpioDisk_keeps (ownedFiles_holds answers) disk stack holds
      exact ⟨after, by rw [Operation.run, result]; rfl, held⟩

/-- The first state owns the block of the root. -/
theorem initState_holds : Holds [] initState := by
  have rootOnly (address size : Nat) (found : initState.sizeOf address = some size) :
      address = root := by
    rw [State.sizeOf, Option.map_eq_some_iff] at found
    obtain ⟨file, look, _⟩ := found
    have live := mem_of_lookup look
    simpa [initState, initFs, AList.mem_keys] using live
  have hasNone (role : Role) (address : Nat) : ¬ initState.Has role address := by
    rintro ⟨notRoot, size, found, _⟩
    exact notRoot (rootOnly address size found)
  have ownsNone (block : Nat) : ¬ initState.Owns block := by
    rintro ⟨role, address, has, _⟩
    exact hasNone role address has
  refine ⟨initFs_tree, ?_, by simp, List.nodup_nil, ?_, fun _ _ _ => rfl, ?_⟩
  · intro block
    have noBlock : block ∉ initState.live := Finset.notMem_empty block
    simp [ownsNone, noBlock]
  · exact fun role _ address _ has => absurd has (hasNone role address)
  · simp [initState]

/-- In every run, whatever the allocator answers, each call returns, no block is freed that is not
allocated, and the allocated blocks are the node, the name and, for a nonzero size, the data of every
node but the root, each block for one purpose. -/
theorem ownership_run (answers : Nat → Option Nat) (operations : List Operation) :
    ∀ reached ∈ visited (step answers) (.ok initState) operations, ∃ state, reached = .ok state ∧
      (∀ block, block ∈ state.live ↔ state.Owns block) ∧
      ∀ role role' address address', state.Has role address → state.Has role' address' →
        state.block role address = state.block role' address' → role = role' ∧ address = address' := by
  intro reached member
  have keeps (state : Outcome State) (operation : Operation)
      (inside : ∃ now, state = .ok now ∧ Holds [] now) :
      ∃ now, step answers state operation = .ok now ∧ Holds [] now := by
    obtain ⟨now, rfl, holds⟩ := inside
    exact operation.run_holds answers holds
  obtain ⟨state, same, holds⟩ :=
    visited_always keeps ⟨initState, rfl, initState_holds⟩ operations reached member
  refine ⟨state, same, ?_, holds.once⟩
  intro block
  rw [holds.live block]
  simp

/-- A folder is created and owns its blocks. -/
theorem ownership_run_folder :
    let reached := step (fun call => some (call + 2)) (.ok initState) (.createFolder (some [97]))
    reached.map State.live = .ok {4, 3} ∧ ∃ state, reached = .ok state ∧
      (∀ block, block ∈ state.live ↔ state.Owns block) ∧
      ∀ role role' address address', state.Has role address → state.Has role' address' →
        state.block role address = state.block role' address' → role = role' ∧ address = address' :=
  ⟨rfl, ownership_run (fun call => some (call + 2)) [.createFolder (some [97])] _ (by simp [visited])⟩

end ArchaOS.OwnedFiles
