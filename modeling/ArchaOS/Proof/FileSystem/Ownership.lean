import ArchaOS.Construction.OwnedFiles
import ArchaOS.Library.Runs
import ArchaOS.Proof.FileSystem.ReaderRule

namespace ArchaOS.OwnedFiles

open FileSystem Library

/-- The blocks of a node: its struct, its name and its data. -/
inductive Role where
  | node
  | name
  | data
  deriving DecidableEq, Repr

def State.block (state : State) : Role → Nat → Nat
  | .node, address => address
  | .name, address => state.name address
  | .data, address => state.data address

/-- The size of the node at an address, when there is one. -/
def State.sizeOf (state : State) (address : Nat) : Option Nat :=
  (state.nodes.lookup address).map File.size

/-- A node other than the root has a struct and a name, and data when its size is not zero. -/
def State.Has (state : State) (role : Role) (address : Nat) : Prop :=
  address ≠ root ∧ ∃ size, state.sizeOf address = some size ∧ (role = .data → size ≠ 0)

/-- A block belongs to a node. -/
def State.Owns (state : State) (block : Nat) : Prop :=
  ∃ role address, state.Has role address ∧ state.block role address = block

/-- The allocated blocks are those of the nodes and some extra ones that a call holds, and no block
has two purposes. -/
structure Holds (extra : List Nat) (state : State) : Prop where
  tree : IsTree state.nodes
  live : ∀ block, block ∈ state.live ↔ state.Owns block ∨ block ∈ extra
  apart : ∀ block ∈ extra, ¬ state.Owns block
  distinct : extra.Nodup
  once : ∀ role role' address address', state.Has role address → state.Has role' address' →
    state.block role address = state.block role' address' → role = role' ∧ address = address'
  empty : ∀ address, address ≠ root → state.sizeOf address = some 0 → state.data address = 0
  proper : ∀ block ∈ state.live, block ≠ 0 ∧ block ≠ root

/-- The order of the further blocks does not matter. -/
theorem Holds.perm {extra extra' : List Nat} {state : State} (holds : Holds extra state)
    (order : extra.Perm extra') : Holds extra' state where
  tree := holds.tree
  live := fun block => (holds.live block).trans (or_congr Iff.rfl order.mem_iff)
  apart := fun block member => holds.apart block (order.mem_iff.mpr member)
  distinct := order.nodup_iff.mp holds.distinct
  once := holds.once
  empty := holds.empty
  proper := holds.proper

/-- The heap calls change no node. -/
structure SameNodes (before after : State) : Prop where
  nodes : after.nodes = before.nodes
  name : after.name = before.name
  data : after.data = before.data

/-- The same nodes have the same blocks. -/
theorem SameNodes.has {before after : State} (same : SameNodes before after) (role : Role)
    (address : Nat) : after.Has role address ↔ before.Has role address := by
  unfold State.Has State.sizeOf
  rw [same.nodes]

/-- The same nodes have their blocks at the same addresses. -/
theorem SameNodes.block {before after : State} (same : SameNodes before after) (role : Role)
    (address : Nat) : after.block role address = before.block role address := by
  cases role with
  | node => rfl
  | name => exact congrFun same.name address
  | data => exact congrFun same.data address

/-- The same nodes own the same blocks. -/
theorem SameNodes.owns {before after : State} (same : SameNodes before after) (block : Nat) :
    after.Owns block ↔ before.Owns block := by
  unfold State.Owns
  simp only [same.has, same.block]

/-- Other allocated blocks under the same nodes. -/
theorem Holds.relive {extra extra' : List Nat} {before after : State} (holds : Holds extra before)
    (same : SameNodes before after)
    (live : ∀ block, block ∈ after.live ↔ before.Owns block ∨ block ∈ extra')
    (apart : ∀ block ∈ extra', ¬ before.Owns block) (distinct : extra'.Nodup)
    (proper : ∀ block ∈ after.live, block ≠ 0 ∧ block ≠ root) : Holds extra' after where
  tree := by
    rw [same.nodes]
    exact holds.tree
  live := fun block => (live block).trans (or_congr (same.owns block).symm Iff.rfl)
  apart := fun block member owned => apart block member ((same.owns block).mp owned)
  distinct := distinct
  once := by
    intro role role' address address' first second equal
    rw [same.block, same.block] at equal
    exact holds.once _ _ _ _ ((same.has _ _).mp first) ((same.has _ _).mp second) equal
  empty := by
    intro address notRoot zero
    rw [congrFun same.data address]
    refine holds.empty address notRoot ?_
    rw [← zero, State.sizeOf, State.sizeOf, same.nodes]
  proper := proper

/-- `kmalloc` fails, or it adds a new block to the ones that the call holds. -/
theorem kmalloc_cases (answers : Nat → Option Nat) {extra : List Nat} {state : State}
    (holds : Holds extra state) :
    (∃ after, kmalloc answers state = (none, after) ∧ Holds extra after ∧ SameNodes state after) ∨
      ∃ block after, kmalloc answers state = (some block, after) ∧ Holds (block :: extra) after ∧
        SameNodes state after := by
  have still : Holds extra { state with calls := state.calls + 1 } :=
    holds.relive ⟨rfl, rfl, rfl⟩ holds.live holds.apart holds.distinct holds.proper
  unfold kmalloc
  cases answers state.calls with
  | none => exact Or.inl ⟨_, rfl, still, ⟨rfl, rfl, rfl⟩⟩
  | some block =>
      dsimp only
      by_cases used : block = 0 ∨ block = root ∨ block ∈ state.live
      · rw [if_pos used]
        exact Or.inl ⟨_, rfl, still, ⟨rfl, rfl, rfl⟩⟩
      · rw [if_neg used]
        rw [not_or, not_or, holds.live block, not_or] at used
        obtain ⟨nonzero, notRoot, fresh⟩ := used
        refine Or.inr ⟨block, _, rfl, ?_, ⟨rfl, rfl, rfl⟩⟩
        refine holds.relive ⟨rfl, rfl, rfl⟩ ?_ ?_ ?_ ?_
        · intro other
          rw [Finset.mem_insert, holds.live other, List.mem_cons]
          tauto
        · intro other member
          rcases List.mem_cons.mp member with rfl | old
          · exact fresh.1
          · exact holds.apart other old
        · exact List.nodup_cons.mpr ⟨fresh.2, holds.distinct⟩
        · intro other member
          rcases Finset.mem_insert.mp member with rfl | old
          · exact ⟨nonzero, notRoot⟩
          · exact holds.proper other old

/-- `kfree` of a block that the call holds. -/
theorem kfree_held {block : Nat} {extra : List Nat} {state : State}
    (holds : Holds (block :: extra) state) :
    ∃ after, kfree block state = .ok after ∧ Holds extra after ∧ SameNodes state after := by
  have member : block ∈ state.live := (holds.live block).mpr (Or.inr List.mem_cons_self)
  have nonzero := (holds.proper block member).1
  obtain ⟨absent, distinct⟩ := List.nodup_cons.mp holds.distinct
  have free := holds.apart block List.mem_cons_self
  refine ⟨{ state with live := state.live.erase block },
    by rw [kfree, if_neg nonzero, if_pos member], ?_, ⟨rfl, rfl, rfl⟩⟩
  refine holds.relive ⟨rfl, rfl, rfl⟩ ?_ ?_ distinct ?_
  · intro other
    rw [Finset.mem_erase, holds.live other, List.mem_cons]
    constructor
    · rintro ⟨different, owned | rfl | held⟩
      · exact Or.inl owned
      · exact absurd rfl different
      · exact Or.inr held
    · rintro (owned | held)
      · exact ⟨fun same => free (same ▸ owned), Or.inl owned⟩
      · exact ⟨fun same => absent (same ▸ held), Or.inr (Or.inr held)⟩
  · exact fun other held => holds.apart other (List.mem_cons_of_mem _ held)
  · exact fun other held => holds.proper other (Finset.mem_of_mem_erase held)

/-- The size of each node after a new node has been linked. -/
theorem placed_sizes {nodes nodes' : Nodes} {parent child : Nat} {file : File}
    (placed : Placed nodes nodes' parent child file) (address : Nat) :
    (nodes'.lookup address).map File.size =
      if address = child then some file.size else (nodes.lookup address).map File.size := by
  by_cases new : address = child
  · obtain ⟨_, _, _, found⟩ := placed.directory
    rw [if_pos new, new, found]
    rfl
  · rw [if_neg new]
    cases old : nodes.lookup address with
    | some other =>
        rw [placed.old old, Option.map_some, Option.map_some]
        split <;> rfl
    | none =>
        have absent : address ∉ nodes' := by
          rw [placed.mem, not_or]
          exact ⟨new, AList.lookup_eq_none.mp old⟩
        rw [AList.lookup_eq_none.mpr absent]

/-- The size of each node after one has been taken out. -/
theorem removed_sizes {nodes nodes' : Nodes} {kids : Nat → List Nat} {parent target : Nat}
    (removed : Removed nodes nodes' kids parent target) (address : Nat) :
    (nodes'.lookup address).map File.size =
      if address = target then none else (nodes.lookup address).map File.size := by
  by_cases gone : address = target
  · rw [if_pos gone, gone, AList.lookup_eq_none.mpr removed.gone]
    rfl
  · rw [if_neg gone]
    cases old : nodes.lookup address with
    | some other =>
        obtain ⟨after, found, same, _⟩ := removed.kept address gone other old
        rw [found, Option.map_some, Option.map_some, same.size]
    | none =>
        have absent : address ∉ nodes' := fun live =>
          AList.lookup_eq_none.mp old (removed.old address live)
        rw [AList.lookup_eq_none.mpr absent]

/-- The blocks of one node, for its size. -/
def nodeBlocks (file nameBlock dataBlock size : Nat) : List Nat :=
  file :: nameBlock :: if size = 0 then [] else [dataBlock]

section Nodes

variable {state after : State} {file size : Nat}

/-- The blocks of a node are those of its roles. -/
theorem mem_nodeBlocks (block : Nat) :
    block ∈ nodeBlocks file (state.name file) (state.data file) size ↔
      ∃ role, (role = .data → size ≠ 0) ∧ state.block role file = block := by
  unfold nodeBlocks
  constructor
  · intro member
    rcases List.mem_cons.mp member with rfl | rest
    · exact ⟨.node, by simp, rfl⟩
    · rcases List.mem_cons.mp rest with rfl | last
      · exact ⟨.name, by simp, rfl⟩
      · by_cases none : size = 0
        · rw [if_pos none] at last
          cases last
        · rw [if_neg none, List.mem_singleton] at last
          exact ⟨.data, fun _ => none, last.symm⟩
  · rintro ⟨role, sized, rfl⟩
    cases role with
    | node => simp [State.block]
    | name => simp [State.block]
    | data => simp [State.block, sized rfl]

/-- Different roles of a node whose blocks are distinct have different blocks. -/
theorem nodeBlocks_once (distinct : (nodeBlocks file (state.name file) (state.data file) size).Nodup)
    {role role' : Role} (sized : role = .data → size ≠ 0) (sized' : role' = .data → size ≠ 0)
    (same : state.block role file = state.block role' file) : role = role' := by
  unfold nodeBlocks at distinct
  rw [List.nodup_cons, List.nodup_cons] at distinct
  cases role <;> cases role' <;> simp_all [State.block]

/-- The nodes of one state are those of another and one more. -/
structure Extends (state after : State) (file size : Nat) : Prop where
  fresh : state.sizeOf file = none
  notRoot : file ≠ root
  sizes : ∀ address, after.sizeOf address = if address = file then some size else state.sizeOf address
  name : ∀ address, address ≠ file → after.name address = state.name address
  data : ∀ address, address ≠ file → after.data address = state.data address

/-- The new file brings its own blocks only. -/
theorem Extends.has (more : Extends state after file size) (role : Role) (address : Nat) :
    after.Has role address ↔
      (address = file ∧ (role = .data → size ≠ 0)) ∨ state.Has role address := by
  unfold State.Has
  rw [more.sizes]
  by_cases new : address = file
  · subst new
    simp [more.fresh, more.notRoot]
  · simp [new]

/-- The old files keep their blocks. -/
theorem Extends.block (more : Extends state after file size) (role : Role) {address : Nat}
    (old : address ≠ file) : after.block role address = state.block role address := by
  cases role with
  | node => rfl
  | name => exact more.name address old
  | data => exact more.data address old

/-- The new file had no block. -/
theorem Extends.old (more : Extends state after file size) {role : Role} {address : Nat}
    (has : state.Has role address) : address ≠ file := by
  rintro rfl
  obtain ⟨_, size, found, _⟩ := has
  rw [more.fresh] at found
  cases found

/-- The blocks of the larger state are those of the smaller one and of the new node. -/
theorem Extends.owns (more : Extends state after file size) (block : Nat) :
    after.Owns block ↔ state.Owns block ∨
      block ∈ nodeBlocks file (after.name file) (after.data file) size := by
  rw [mem_nodeBlocks]
  constructor
  · rintro ⟨role, address, has, same⟩
    rcases (more.has role address).mp has with ⟨rfl, sized⟩ | old
    · exact Or.inr ⟨role, sized, same⟩
    · rw [more.block role (more.old old)] at same
      exact Or.inl ⟨role, address, old, same⟩
  · rintro (⟨role, address, has, same⟩ | ⟨role, sized, same⟩)
    · refine ⟨role, address, (more.has role address).mpr (Or.inr has), ?_⟩
      rw [more.block role (more.old has)]
      exact same
    · exact ⟨role, file, (more.has role file).mpr (Or.inl ⟨rfl, sized⟩), same⟩

/-- Blocks that a call holds become the blocks of a new node. -/
theorem Holds.place (more : Extends state after file size)
    (holds : Holds (nodeBlocks file (after.name file) (after.data file) size) state)
    (tree : IsTree after.nodes) (live : after.live = state.live)
    (empty : size = 0 → after.data file = 0) : Holds [] after where
  tree := tree
  live := by
    intro block
    rw [live, holds.live block, more.owns block]
    simp
  apart := by simp
  distinct := List.nodup_nil
  once := by
    intro role role' address address' first second same
    have held {role : Role} (sized : role = .data → size ≠ 0) : ¬ state.Owns (after.block role file) :=
      holds.apart _ ((mem_nodeBlocks _).mpr ⟨role, sized, rfl⟩)
    rcases (more.has role address).mp first with ⟨rfl, sized⟩ | old
    · rcases (more.has role' address').mp second with ⟨rfl, sized'⟩ | old'
      · exact ⟨nodeBlocks_once holds.distinct sized sized' same, rfl⟩
      · rw [more.block role' (more.old old')] at same
        exact absurd ⟨role', address', old', same.symm⟩ (held sized)
    · rcases (more.has role' address').mp second with ⟨rfl, sized'⟩ | old'
      · rw [more.block role (more.old old)] at same
        exact absurd ⟨role, address, old, same⟩ (held sized')
      · rw [more.block role (more.old old), more.block role' (more.old old')] at same
        exact holds.once role role' address address' old old' same
  empty := by
    intro address notRoot zero
    rw [more.sizes] at zero
    by_cases new : address = file
    · rw [if_pos new] at zero
      rw [new]
      exact empty (Option.some.inj zero)
    · rw [if_neg new] at zero
      rw [more.data address new]
      exact holds.empty address notRoot zero
  proper := by
    rw [live]
    exact holds.proper

/-- The blocks of a node that has been taken out are left to the call. -/
theorem Holds.remove (more : Extends state after file size) (holds : Holds [] after)
    (tree : IsTree state.nodes) (live : state.live = after.live) :
    Holds (nodeBlocks file (after.name file) (after.data file) size) state where
  tree := tree
  live := by
    intro block
    rw [live, holds.live block, more.owns block]
    simp
  apart := by
    intro block member owned
    obtain ⟨role, sized, same⟩ := (mem_nodeBlocks block).mp member
    obtain ⟨role', address, has, same'⟩ := owned
    have old := more.old has
    rw [← more.block role' old, ← same] at same'
    have equal := holds.once role' role address file ((more.has role' address).mpr (Or.inr has))
      ((more.has role file).mpr (Or.inl ⟨rfl, sized⟩)) same'
    exact old equal.2
  distinct := by
    have different {role role' : Role} (sized : role = .data → size ≠ 0)
        (sized' : role' = .data → size ≠ 0) (apart : role ≠ role') :
        after.block role file ≠ after.block role' file := fun same =>
      apart (holds.once role role' file file ((more.has role file).mpr (Or.inl ⟨rfl, sized⟩))
        ((more.has role' file).mpr (Or.inl ⟨rfl, sized'⟩)) same).1
    have nodeName : after.block .node file ≠ after.block .name file :=
      different (by simp) (by simp) (by simp)
    unfold nodeBlocks
    by_cases none : size = 0
    · rw [if_pos none]
      exact List.nodup_cons.mpr ⟨fun member => nodeName (List.mem_singleton.mp member),
        List.nodup_singleton _⟩
    · have nodeData : after.block .node file ≠ after.block .data file :=
        different (by simp) (fun _ => none) (by simp)
      have nameData : after.block .name file ≠ after.block .data file :=
        different (by simp) (fun _ => none) (by simp)
      rw [if_neg none, List.nodup_cons, List.nodup_cons, List.mem_cons, List.mem_singleton,
        List.mem_singleton, not_or]
      exact ⟨⟨nodeName, nodeData⟩, nameData, List.nodup_singleton _⟩
  once := by
    intro role role' address address' first second same
    rw [← more.block role (more.old first), ← more.block role' (more.old second)] at same
    exact holds.once role role' address address' ((more.has role address).mpr (Or.inr first))
      ((more.has role' address').mpr (Or.inr second)) same
  empty := by
    intro address notRoot zero
    have old : address ≠ file := by
      rintro rfl
      rw [more.fresh] at zero
      cases zero
    rw [← more.data address old]
    refine holds.empty address notRoot ?_
    rw [more.sizes, if_neg old]
    exact zero
  proper := by
    rw [live]
    exact holds.proper

end Nodes

end ArchaOS.OwnedFiles
