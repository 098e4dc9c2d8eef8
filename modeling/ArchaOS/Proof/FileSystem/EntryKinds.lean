import ArchaOS.Library.Outcome
import ArchaOS.Proof.FileSystem.Acceptance
import ArchaOS.Proof.FileSystem.RoundTrip

namespace ArchaOS.FileSystem

open Library

/-- An entry of an archive before the trailer: its mode, its name without leading `./`, and its data. -/
structure Item where
  mode : Nat
  name : CString
  data : List UInt8
  deriving DecidableEq, Repr

def Item.isDirectory (item : Item) : Prop := item.mode &&& typeMask = typeDirectory

def Item.isRegular (item : Item) : Prop := item.mode &&& typeMask = typeRegular

/-- The types that the reader stores as files. -/
def Item.isFile (item : Item) : Prop :=
  item.mode &&& typeMask = typeRegular ∨ item.mode &&& typeMask = typeLink ∨
    item.mode &&& typeMask = 0

instance (item : Item) : Decidable item.isDirectory := inferInstanceAs (Decidable (_ = _))

instance (item : Item) : Decidable item.isRegular := inferInstanceAs (Decidable (_ = _))

instance (item : Item) : Decidable item.isFile := inferInstanceAs (Decidable (_ ∨ _))

/-- The entry is not the root entry of the archive. -/
def Item.named (item : Item) : Prop := item.name ≠ [] ∧ item.name ≠ [dot]

instance (item : Item) : Decidable item.named := inferInstanceAs (Decidable (_ ∧ _))

/-- The components of the path that the entry names. -/
def Item.path (item : Item) : List CString := components (trimSlashes item.name)

def Item.content (item : Item) : Content :=
  if item.isDirectory then .folder else .regular item.data

/-- The entries of the archive from a record on, up to the trailer or a record that cannot be read. -/
def itemsFrom (disk : Archive) (stack : Nat → Nat → UInt8) : Nat → Nat → List Item
  | 0, _ => []
  | bound + 1, offset =>
      match parseHeader disk offset with
      | .ok (.ok header) =>
          match parseName disk (stack offset) (add64 offset 110) header.namesize with
          | .ok (.ok (name, start)) =>
              match cString name 0 with
              | .ok text =>
                  if text = trailer then []
                  else
                    ⟨header.mode, cleanName text, disk.slice start header.filesize⟩ ::
                      itemsFrom disk stack bound
                        (start + header.filesize + padding (start + header.filesize))
              | .error _ => []
          | _ => []
      | _ => []

/-- The entries of the archive before its trailer. -/
def archiveItems (disk : Archive) (stack : Nat → Nat → UInt8) : List Item :=
  itemsFrom disk stack (disk.size / 110 + 1) 0

/-- The entry makes a node of its own. -/
def Item.places (item : Item) : Prop := item.named ∧ (item.isDirectory ∨ item.isFile)

instance (item : Item) : Decidable item.places := inferInstanceAs (Decidable (_ ∧ _))

/-- The first entry that stands at a path or below it. -/
def firstAt (items : List Item) (path : List CString) : Option Item :=
  items.find? fun item => decide (item.places ∧ path <+: item.path)

/-- The abstract filesystem that accepted entries leave: the first entry at or below a path decides
what stands there. -/
def firstStore (items : List Item) : Store := fun path =>
  if path = [] then some .folder
  else (firstAt items path).map fun item => if item.path = path then item.content else .folder

/-- A slash at the end is trimmed. -/
theorem trimSlashes_concat (front : CString) :
    trimSlashes (front ++ [slash]) = trimSlashes front := by
  rw [trimSlashes, List.rdropWhile_concat_pos _ _ _ (by simp)]
  rfl

/-- One trailing slash is all there is when the rest ends with none. -/
theorem trimSlash_eq {text : CString} (last : (trimSlash text).getLast? ≠ some slash) :
    trimSlashes text = trimSlash text := by
  by_cases ends : text.getLast? = some slash
  · rw [trimSlash, if_pos ends] at last ⊢
    have split : text = text.dropLast ++ [slash] := by
      have present : text ≠ [] := by
        rintro rfl
        simp at ends
      have tail : text.getLast present = slash := by
        rw [List.getLast?_eq_some_getLast present] at ends
        exact Option.some.inj ends
      rw [← tail, List.dropLast_append_getLast present]
    rw [split, trimSlashes_concat, trimSlashes_self last, ← split]
  · rw [trimSlash, if_neg ends]
    exact trimSlashes_self ends

section Steps

variable {allocator : Allocator} {fs fs' : Fs} {store : Store} {above : Content}
  (stores : Stores fs.nodes store) (top : store [] = some above)
include stores top

/-- A directory entry that is accepted adds a folder at its path. -/
theorem directoryEntry_adds {text : CString}
    (result : directoryEntry allocator text fs = .ok (none, fs')) :
    (∀ component ∈ components (trimSlashes text), LegalName component) ∧
      Stores fs'.nodes (store.add (components (trimSlashes text)) .folder) := by
  rw [directoryEntry_eq] at result
  rcases placed_cases (by decide) result with
    ⟨_, impossible, _⟩ | ⟨_, between, status, ensure, call, accepted⟩
  · cases impossible
  · rw [createFolder_eq] at call
    refine createFile_adds stores top ?_ ensure call accepted
    intro name
    change fsIsDirectory % 2 ^ 16 &&& fsIsDirectory ≠ 0
    decide

/-- A regular entry that is accepted adds a file at its path. -/
theorem regularEntry_adds {text : CString} {data : List UInt8}
    (result : regularEntry allocator text data data.length fs = .ok (none, fs')) :
    (∀ component ∈ components (trimSlash text), LegalName component) ∧
      Stores fs'.nodes (store.add (components (trimSlash text)) (.regular data)) := by
  rw [regularEntry_eq] at result
  rcases placed_cases (by decide) result with
    ⟨_, impossible, _⟩ | ⟨_, between, status, ensure, call, accepted⟩
  · cases impossible
  · exact createFile_adds stores top (fun name => newFile_shows name data) ensure call accepted

end Steps

/-- A last item is the first at a path only when no other is. -/
theorem firstAt_snoc (items : List Item) (item : Item) (path : List CString) :
    firstAt (items ++ [item]) path =
      (firstAt items path).or (if item.places ∧ path <+: item.path then some item else none) := by
  unfold firstAt
  rw [List.find?_append]
  by_cases touches : item.places ∧ path <+: item.path
  · rw [if_pos touches, List.find?_cons_of_pos (by simpa using touches)]
  · rw [if_neg touches, List.find?_cons_of_neg (by simpa using touches), List.find?_nil]

/-- An entry that makes no node leaves the filesystem as it is. -/
theorem firstStore_skip (items : List Item) {item : Item} (skipped : ¬ item.places) :
    firstStore (items ++ [item]) = firstStore items := by
  funext path
  unfold firstStore
  have untouched : ¬ (item.places ∧ path <+: item.path) := fun both => skipped both.1
  rw [firstAt_snoc, if_neg untouched, Option.or_none]

/-- An accepted entry fills the places that no earlier entry has filled. -/
theorem firstStore_add (items : List Item) {item : Item} (places : item.places) :
    (firstStore items).add item.path item.content = firstStore (items ++ [item]) := by
  funext path
  have some : item.path ≠ [] := components_ne_nil _
  unfold Store.add Store.offer Store.pave
  by_cases root : path = []
  · subst root
    have off : [] ∉ ancestors [] item.path := fun way => (mem_ancestors_root.mp way).1 rfl
    rw [if_neg (Ne.symm some), if_neg off, firstStore, firstStore, if_pos rfl, if_pos rfl]
  · simp only [firstStore, if_neg root, firstAt_snoc]
    cases found : firstAt items path with
    | some first =>
        rw [Option.some_or]
        simp only [Option.map_some, Option.getD_some, ite_self]
    | none =>
        simp only [Option.map_none, Option.getD_none, Option.none_or]
        by_cases here : path = item.path
        · have off : item.path ∉ ancestors [] item.path :=
            fun way => (mem_ancestors_root.mp way).2.2 rfl
          rw [if_pos here, here, if_neg off, if_pos ⟨places, List.prefix_rfl⟩]
          simp
        · rw [if_neg here]
          by_cases below : path <+: item.path
          · have way : path ∈ ancestors [] item.path := mem_ancestors_root.mpr ⟨root, below, here⟩
            rw [if_pos way, if_pos ⟨places, below⟩, Option.map_some, if_neg (Ne.symm here)]
          · have off : path ∉ ancestors [] item.path :=
              fun way => below (mem_ancestors_root.mp way).2.1
            rw [if_neg off, if_neg (fun both => below both.2), Option.map_none]

/-- An entry that is refused has an error code. -/
theorem placed_code {allocator : Allocator} {text : CString} {missed code : Int}
    {create : Fs → Outcome (FsReturn × Fs)} {fs fs' : Fs} (failure : missed ≠ 0)
    (result : placed allocator text missed create fs = .ok (some code, fs')) : code ≠ 0 := by
  rcases placed_cases failure result with ⟨number, same, nonzero⟩ | ⟨impossible, _⟩
  · rw [Option.some.inj same]
    exact nonzero
  · cases impossible

/-- An entry that fails ends the reading with an error code. -/
theorem entryEffect_code {allocator : Allocator} {header : Header} {text : CString}
    {data : List UInt8} {fs fs' : Fs} {code : Int}
    (result : entryEffect allocator header text data fs = .ok (some code, fs')) : code ≠ 0 := by
  unfold entryEffect at result
  dsimp only at result
  split at result
  · rw [directoryEntry_eq] at result
    exact placed_code (by decide) result
  · split at result
    · rw [regularEntry_eq] at result
      exact placed_code (by decide) result
    · cases Except.ok.inj result

/-- The accepted entries so far have legal paths and decide what the filesystem holds. -/
structure Taken (items : List Item) (fs : Fs) : Prop where
  stores : Stores fs.nodes (firstStore items)
  legal : ∀ item ∈ items, item.places → ∀ component ∈ item.path, LegalName component

/-- An item that places nothing changes nothing. -/
theorem Taken.skip {items : List Item} {item : Item} {fs : Fs} (taken : Taken items fs)
    (skipped : ¬ item.places) : Taken (items ++ [item]) fs where
  stores := by
    rw [firstStore_skip items skipped]
    exact taken.stores
  legal := by
    intro other member places
    rcases List.mem_append.mp member with old | new
    · exact taken.legal other old places
    · rw [List.mem_singleton.mp new] at places
      exact absurd places skipped

/-- An item that is placed is taken. -/
theorem Taken.add {items : List Item} {item : Item} {fs fs' : Fs} (taken : Taken items fs)
    (places : item.places) (legal : ∀ component ∈ item.path, LegalName component)
    (stores : Stores fs'.nodes ((firstStore items).add item.path item.content)) :
    Taken (items ++ [item]) fs' where
  stores := by
    rw [← firstStore_add items places]
    exact stores
  legal := by
    intro other member otherPlaces
    rcases List.mem_append.mp member with old | new
    · exact taken.legal other old otherPlaces
    · rw [List.mem_singleton.mp new]
      exact legal

/-- The effect of an accepted entry. -/
theorem Taken.entry {allocator : Allocator} {items : List Item} {item : Item} {fs fs' : Fs}
    {namesize : Nat} (taken : Taken items fs) (named : item.named)
    (result : entryEffect allocator ⟨item.mode, item.data.length, namesize⟩ item.name item.data fs =
      .ok (none, fs')) : Taken (items ++ [item]) fs' := by
  have top : firstStore items [] = some .folder := if_pos rfl
  unfold entryEffect at result
  dsimp only at result
  split at result
  · rename_i directory
    obtain ⟨legal, stores⟩ := directoryEntry_adds taken.stores top result
    have content : item.content = .folder := if_pos directory
    refine taken.add ⟨named, Or.inl directory⟩ legal ?_
    rw [content]
    exact stores
  · rename_i notDirectory
    split at result
    · rename_i file
      obtain ⟨legal, stores⟩ := regularEntry_adds taken.stores top result
      have last := (joinPath_ends legal (components_ne_nil _)).2
      rw [joinPath_components] at last
      have content : item.content = .regular item.data := if_neg notDirectory
      have path : item.path = components (trimSlash item.name) := by
        rw [Item.path, trimSlash_eq last]
      refine taken.add ⟨named, Or.inr file⟩ ?_ ?_
      · rw [path]
        exact legal
      · rw [content, path]
        exact stores
    · rename_i notFile
      obtain ⟨_, rfl⟩ := Prod.mk.inj (Except.ok.inj result)
      refine taken.skip ?_
      rintro ⟨_, directory | file⟩
      · exact notDirectory directory
      · exact notFile file

/-- The empty filesystem has taken no item. -/
theorem initFs_taken (calls : Nat) : Taken [] { initFs with calls := calls } where
  stores := by
    have same : firstStore [] = expected [] := by
      funext path
      rw [expected_other (by simp)]
      simp [firstStore, firstAt]
    rw [same]
    exact initFs_stores
  legal := fun item member => by cases member

/-- The end of a round moves on to the next record or ends with an error code. -/
theorem finishRecord_cases {disk : Archive} {offset filesize : Nat}
    (inside : offset + filesize ≤ disk.size) (fs : Fs) :
    (∃ code, code ≠ 0 ∧ finishRecord disk offset filesize fs = .finished code fs) ∨
      (offset + filesize + padding (offset + filesize) ≤ disk.size ∧
        finishRecord disk offset filesize fs =
          .next (offset + filesize + padding (offset + filesize)) fs) := by
  rw [finishRecord, Archive.add64_inside inside, skipPadding_ok inside]
  by_cases short : disk.size < offset + filesize + padding (offset + filesize)
  · rw [if_pos short]
    exact Or.inl ⟨-5, by decide, rfl⟩
  · rw [if_neg short]
    exact Or.inr ⟨by omega, rfl⟩

/-- What the part of a round behind the name leads to. -/
theorem bodyEffect_taken {allocator : Allocator} {disk : Archive} {header : Header} {offset : Nat}
    {text : CString} {items : List Item} {fs : Fs} {progress : Progress} (taken : Taken items fs)
    (result : bodyEffect allocator disk header offset text fs = .ok progress) :
    (text = trailer ∧ progress = .finished 0 fs) ∨
      (∃ code fs', code ≠ 0 ∧ progress = .finished code fs') ∨
      (text ≠ trailer ∧ ∃ fs', progress =
          .next (offset + header.filesize + padding (offset + header.filesize)) fs' ∧
        offset + header.filesize + padding (offset + header.filesize) ≤ disk.size ∧
        Taken (items ++ [⟨header.mode, cleanName text, disk.slice offset header.filesize⟩]) fs') := by
  unfold bodyEffect at result
  by_cases last : text = trailer
  · rw [if_pos last] at result
    exact Or.inl ⟨last, (Except.ok.inj result).symm⟩
  · right
    rw [if_neg last] at result
    split at result
    · exact Or.inl ⟨-3, fs, by decide, (Except.ok.inj result).symm⟩
    · split at result
      · exact Or.inl ⟨-4, fs, by decide, (Except.ok.inj result).symm⟩
      · rename_i room
        have inside : offset + header.filesize ≤ disk.size := by omega
        have finish {after : Fs} {goal : Progress}
            (moved : finishRecord disk offset header.filesize after = goal)
            (done : Taken (items ++
              [⟨header.mode, cleanName text, disk.slice offset header.filesize⟩]) after) :
            (∃ code fs', code ≠ 0 ∧ goal = .finished code fs') ∨
              (text ≠ trailer ∧ ∃ fs', goal =
                  .next (offset + header.filesize + padding (offset + header.filesize)) fs' ∧
                offset + header.filesize + padding (offset + header.filesize) ≤ disk.size ∧
                Taken (items ++
                  [⟨header.mode, cleanName text, disk.slice offset header.filesize⟩]) fs') := by
          rcases finishRecord_cases inside after with ⟨code, nonzero, same⟩ | ⟨next, same⟩
          · exact Or.inl ⟨code, after, nonzero, moved.symm.trans same⟩
          · exact Or.inr ⟨last, after, moved.symm.trans same, next, done⟩
        split at result
        · rename_i unnamed
          refine finish (Except.ok.inj result) (taken.skip ?_)
          rintro ⟨⟨nonempty, notDot⟩, _⟩
          rcases unnamed with empty | single
          · exact nonempty empty
          · exact notDot single
        · rename_i named
          rcases effect : entryEffect allocator header (cleanName text)
              (disk.slice offset header.filesize) fs with fault | ⟨_ | code, after⟩
          · rw [effect] at result
            cases result
          · simp only [effect, bind, Except.bind] at result
            refine finish (Except.ok.inj result) ?_
            have sized : entryEffect allocator ⟨header.mode,
                (disk.slice offset header.filesize).length, header.namesize⟩ (cleanName text)
                (disk.slice offset header.filesize) fs = .ok (none, after) := by
              rw [slice_length inside]
              exact effect
            refine taken.entry ?_ sized
            exact ⟨fun empty => named (Or.inl empty), fun single => named (Or.inr single)⟩
          · simp only [effect, bind, Except.bind] at result
            exact Or.inl ⟨code, after, entryEffect_code effect, (Except.ok.inj result).symm⟩

/-- A header that is refused has an error code. -/
theorem parseHeader_code {disk : Archive} {offset : Nat} {code : Int}
    (result : parseHeader disk offset = .ok (.error code)) : code ≠ 0 := by
  unfold parseHeader at result
  split at result
  · cases Except.ok.inj result
    decide
  · obtain ⟨start, _, result⟩ := bind_eq_ok.mp result
    split at result
    · cases Except.ok.inj result
      decide
    · obtain ⟨fields, _, result⟩ := bind_eq_ok.mp result
      cases fields with
      | none =>
          cases Except.ok.inj result
          decide
      | some fields => cases Except.ok.inj result

/-- A name that is refused has an error code. -/
theorem parseName_code {disk : Archive} {stack : Nat → UInt8} {offset namesize : Nat} {code : Int}
    (result : parseName disk stack offset namesize = .ok (.error code)) : code ≠ 0 := by
  unfold parseName at result
  split at result
  · cases Except.ok.inj result
    decide
  · split at result
    · cases Except.ok.inj result
      decide
    · obtain ⟨bytes, _, result⟩ := bind_eq_ok.mp result
      obtain ⟨name, _, result⟩ := bind_eq_ok.mp result
      obtain ⟨last, _, result⟩ := bind_eq_ok.mp result
      split at result
      · cases Except.ok.inj result
        decide
      · obtain ⟨text, _, result⟩ := bind_eq_ok.mp result
        split at result
        · cases Except.ok.inj result
          decide
        · unfold skipPadding at result
          split at result
          · rename_i failed
            split at failed
            · cases Except.error.inj failed
              cases Except.ok.inj result
              decide
            · cases failed
          · cases Except.ok.inj result

/-- When the reader returns 0, it has taken every entry before the trailer. -/
theorem parseRecords_taken {allocator : Allocator} {disk : Archive} {stack : Nat → Nat → UInt8}
    {bound offset : Nat} {items : List Item} {fs fs' : Fs} (taken : Taken items fs)
    (result : parseRecords allocator disk stack bound offset fs = .ok (0, fs')) :
    Taken (items ++ itemsFrom disk stack bound offset) fs' := by
  induction bound generalizing offset items fs with
  | zero => cases result
  | succ bound ih =>
      have refuse {code : Int} {after : Fs} (nonzero : code ≠ 0)
          (returned : (.ok (code, after) : Outcome (Int × Fs)) = .ok (0, fs')) : False := by
        cases Except.ok.inj returned
        exact nonzero rfl
      obtain ⟨head, headResult, room⟩ := parseHeader_ok disk offset
      rw [parseRecords_succ, parseRecord, Files.parseRecord, headResult] at result
      rw [itemsFrom, headResult]
      cases head with
      | error code => exact (refuse (parseHeader_code headResult) result).elim
      | ok header =>
          have inside := room header rfl
          have total := Archive.add64_inside inside
          obtain ⟨name, nameResult, terminated⟩ :=
            parseName_ok disk (stack offset) header.namesize inside
          simp only [bind, Except.bind, total, nameResult] at result ⊢
          cases name with
          | error code => exact (refuse (parseName_code nameResult) result).elim
          | ok pair =>
              obtain ⟨name, start⟩ := pair
              obtain ⟨⟨text, held⟩, low, high⟩ := terminated name start rfl
              have whole := held.cString 0 (Nat.zero_le _)
              rw [List.drop_zero] at whole
              dsimp only at result
              rw [parseBody_eq allocator fs held high] at result
              simp only [whole]
              cases body : bodyEffect allocator disk header start text fs with
              | error fault =>
                  rw [body] at result
                  cases result
              | ok progress =>
                  rw [body] at result
                  rcases bodyEffect_taken taken body with
                    ⟨last, rfl⟩ | ⟨code, after, nonzero, rfl⟩ | ⟨more, after, rfl, next, done⟩
                  · cases Except.ok.inj result
                    rw [if_pos last, List.append_nil]
                    exact taken
                  · exact (refuse nonzero result).elim
                  · rw [if_neg more]
                    have rest := ih done result
                    rwa [List.append_assoc, List.singleton_append] at rest

/-- Trailing slashes are all that `trimSlashes` removes. -/
theorem trimSlashes_append (text : CString) :
    ∃ count, text = trimSlashes text ++ List.replicate count slash := by
  induction text using List.reverseRecOn with
  | nil => exact ⟨0, rfl⟩
  | append_singleton front byte ih =>
      by_cases ends : byte = slash
      · obtain ⟨count, split⟩ := ih
        refine ⟨count + 1, ?_⟩
        rw [ends, trimSlashes_concat, List.replicate_succ', ← List.append_assoc, ← split]
      · refine ⟨0, ?_⟩
        rw [trimSlashes_self (by simpa using ends)]
        simp

/-- A node shows one content only. -/
theorem Shows.unique {file : File} {left right : Content} (one : Shows file left)
    (two : Shows file right) : left = right := by
  cases left with
  | folder =>
      cases right with
      | folder => rfl
      | regular data => exact absurd one two.1
  | regular data =>
      cases right with
      | folder => exact absurd two one.1
      | regular other =>
          have size : data.length = other.length := one.2.1.symm.trans two.2.1
          have bytes := one.2.2.symm.trans two.2.2
          by_cases empty : data.length = 0
          · have none : data = [] := List.length_eq_zero_iff.mp empty
            have none' : other = [] := List.length_eq_zero_iff.mp (size ▸ empty)
            rw [none, none']
          · rw [if_neg empty, if_neg (size ▸ empty)] at bytes
            rw [Option.some.inj bytes]

/-- The content that the first entry at or below the path of an entry leaves there. -/
def Item.shown (item first : Item) : Content :=
  if first.path = item.path then first.content else .folder

/-- An accepted entry leads to the node that the first entry at or below its path has made. -/
theorem Taken.resolves {items : List Item} {item : Item} {fs : Fs} (taken : Taken items fs)
    (member : item ∈ items) (places : item.places) :
    ∃ first address file, firstAt items item.path = some first ∧
      parsePath fs.nodes (some item.name) = .ok (.ok address) ∧
      fs.nodes.lookup address = some file ∧ Shows file (item.shown first) := by
  have legal := taken.legal item member places
  have more : item.path ≠ [] := components_ne_nil _
  cases found : firstAt items item.path with
  | none =>
      have missing := List.find?_eq_none.mp found item member
      simp [places] at missing
  | some first =>
      have value : firstStore items item.path = some (item.shown first) := by
        rw [firstStore, if_neg more, found]
        rfl
      obtain ⟨address, file, there, look, shows_⟩ := taken.stores.present _ _ value
      obtain ⟨kids, depth, tree⟩ := taken.stores.tree
      refine ⟨first, address, file, rfl, ?_, look, shows_⟩
      obtain ⟨count, split⟩ := trimSlashes_append item.name
      have whole : joinPath item.path = trimSlashes item.name := joinPath_components _
      rw [split, ← whole, parsePath_slashes legal more, ← parsePath_join legal]
      exact tree.parsePath_at legal there

/-- Every directory entry leads to a directory, and every regular entry to a file that holds the data
of a regular entry of its path. -/
def KindsKept (nodes : Nodes) (items : List Item) : Prop :=
  ∀ item ∈ items, item.named →
    (item.isDirectory → ∃ address file, parsePath nodes (some item.name) = .ok (.ok address) ∧
      nodes.lookup address = some file ∧ file.isDirectory) ∧
    (item.isRegular → ∃ address file, parsePath nodes (some item.name) = .ok (.ok address) ∧
      nodes.lookup address = some file ∧ ¬ file.isDirectory ∧
      ∃ other ∈ items, other.named ∧ other.isRegular ∧ other.path = item.path ∧
        Shows file (.regular other.data))

/-- The first entry at or below the path of a directory entry is not a file at that path, and the
first one at or below the path of a regular entry is a file at that path with the data of a regular
entry of it. -/
def FirstDecides (items : List Item) : Prop :=
  ∀ item ∈ items, item.named → ∀ first, firstAt items item.path = some first →
    (item.isDirectory → first.path = item.path → first.isDirectory) ∧
    (item.isRegular → first.path = item.path ∧ ¬ first.isDirectory ∧
      ∃ other ∈ items, other.named ∧ other.isRegular ∧ other.path = item.path ∧
        other.data = first.data)

/-- An item is shown as a folder when the first item at its path is one. -/
theorem Item.shown_folder_iff (item first : Item) :
    item.shown first = .folder ↔ (first.path = item.path → first.isDirectory) := by
  unfold Item.shown Item.content
  split
  · split <;> simp_all
  · simp_all

/-- An item is shown as a file with the data of the first item at its path. -/
theorem Item.shown_regular_iff (item first : Item) (data : List UInt8) :
    item.shown first = .regular data ↔
      first.path = item.path ∧ ¬ first.isDirectory ∧ data = first.data := by
  unfold Item.shown Item.content
  split
  · split <;> simp_all [eq_comm]
  · simp_all

/-- The entries of an archive that the reader accepts end up with their kinds exactly if the first
entry at or below each path agrees with the later ones. -/
theorem kindsKept_iff {allocator : Allocator} {disk : Archive} {stack : Nat → Nat → UInt8}
    {calls : Nat} {fs : Fs}
    (accepted : parseCpioDisk allocator (some disk) stack { initFs with calls := calls } =
      .ok (0, fs)) :
    KindsKept fs.nodes (archiveItems disk stack) ↔ FirstDecides (archiveItems disk stack) := by
  have taken : Taken (archiveItems disk stack) fs := by
    have done := parseRecords_taken (initFs_taken calls) accepted
    rwa [List.nil_append] at done
  generalize archiveItems disk stack = items at taken ⊢
  constructor
  · intro kept item member named first found
    have shown {address : Nat} {file : File} (places : item.places)
        (parsed : parsePath fs.nodes (some item.name) = .ok (.ok address))
        (look : fs.nodes.lookup address = some file) : Shows file (item.shown first) := by
      obtain ⟨other, address', file', found', parsed', look', shows_⟩ := taken.resolves member places
      rw [found] at found'
      obtain rfl := Option.some.inj found'
      rw [parsed] at parsed'
      obtain rfl := Except.ok.inj (Except.ok.inj parsed')
      rw [look] at look'
      rw [Option.some.inj look']
      exact shows_
    refine ⟨?_, ?_⟩
    · intro directory
      obtain ⟨address, file, parsed, look, folder⟩ := (kept item member named).1 directory
      have shows_ := shown ⟨named, Or.inl directory⟩ parsed look
      have isFolder : Shows file .folder := folder
      exact (item.shown_folder_iff first).mp (shows_.unique isFolder)
    · intro regular
      obtain ⟨address, file, parsed, look, _, other, otherMember, otherNamed, otherRegular, samePath,
        otherShows⟩ := (kept item member named).2 regular
      have shows_ := shown ⟨named, Or.inr (Or.inl regular)⟩ parsed look
      obtain ⟨here, notDirectory, data⟩ :=
        (item.shown_regular_iff first other.data).mp (shows_.unique otherShows)
      exact ⟨here, notDirectory, other, otherMember, otherNamed, otherRegular, samePath, data⟩
  · intro decides item member named
    refine ⟨?_, ?_⟩
    · intro directory
      obtain ⟨first, address, file, found, parsed, look, shows_⟩ :=
        taken.resolves member ⟨named, Or.inl directory⟩
      have folder := (item.shown_folder_iff first).mpr ((decides item member named first found).1 directory)
      rw [folder] at shows_
      exact ⟨address, file, parsed, look, shows_⟩
    · intro regular
      obtain ⟨first, address, file, found, parsed, look, shows_⟩ :=
        taken.resolves member ⟨named, Or.inr (Or.inl regular)⟩
      obtain ⟨here, notDirectory, other, otherMember, otherNamed, otherRegular, samePath, data⟩ :=
        (decides item member named first found).2 regular
      rw [(item.shown_regular_iff first other.data).mpr ⟨here, notDirectory, data⟩] at shows_
      exact ⟨address, file, parsed, look, shows_.1, other, otherMember, otherNamed, otherRegular,
        samePath, shows_⟩

/-- A file that precedes its directory. -/
theorem kindsKept_iff_sample :
    ∃ fs, parseCpioDisk bumpAllocator (some sampleDisk) (fun _ _ => 0) { initFs with calls := 0 } =
        .ok (0, fs) ∧
      (KindsKept fs.nodes (archiveItems sampleDisk fun _ _ => 0) ↔
        FirstDecides (archiveItems sampleDisk fun _ _ => 0)) := by
  have never : NeverFails bumpAllocator := fun _ _ => ⟨_, rfl⟩
  have written : sampleDisk.bytes = encode sampleEntries (fun _ => 0) (fun _ _ => true) := rfl
  obtain ⟨fs, accepted, _⟩ :=
    parseCpioDisk_stores never sampleEntries_wellFormed written (fun _ _ => 0) 0
  exact ⟨fs, accepted, kindsKept_iff accepted⟩

/-- A directory and a file of the same name. -/
def clashEntries : List Entry :=
  [⟨[[97]], 0o040755, [], false, fun _ => 0, fun _ _ => false⟩,
    ⟨[[97]], 0o100644, [1], false, fun _ => 0, fun _ _ => false⟩]

def clashDisk : Archive :=
  ⟨encode clashEntries (fun _ => 0) (fun _ _ => false), by decide +kernel⟩

/-- The archive holds a directory and a file of the same name. -/
theorem clashDisk_items : archiveItems clashDisk (fun _ _ => 0) =
    [⟨0o040755, [97], []⟩, ⟨0o100644, [97], [1]⟩] := by
  decide +kernel

/-- The archive is accepted. -/
theorem clashDisk_accepted : ∃ fs, parseCpioDisk bumpAllocator (some clashDisk) (fun _ _ => 0)
    { initFs with calls := 0 } = .ok (0, fs) := by
  have code : ((parseCpioDisk bumpAllocator (some clashDisk) (fun _ _ => 0)
      { initFs with calls := 0 }).map Prod.fst).toOption = some 0 := by
    decide +kernel
  cases result : parseCpioDisk bumpAllocator (some clashDisk) (fun _ _ => 0)
      { initFs with calls := 0 } with
  | error fault =>
      rw [result] at code
      cases code
  | ok answer =>
      rw [result] at code
      obtain ⟨number, fs⟩ := answer
      have zero : number = 0 := Option.some.inj code
      exact ⟨fs, by rw [zero]⟩

/-- The reader accepts a directory and a file of the same name, and they cannot both be kept. -/
theorem kindsKept_fails : ∃ fs, parseCpioDisk bumpAllocator (some clashDisk) (fun _ _ => 0)
      { initFs with calls := 0 } = .ok (0, fs) ∧
    ¬ KindsKept fs.nodes (archiveItems clashDisk fun _ _ => 0) := by
  obtain ⟨fs, accepted⟩ := clashDisk_accepted
  refine ⟨fs, accepted, ?_⟩
  rw [clashDisk_items]
  intro kept
  obtain ⟨address, file, parsed, look, directory⟩ :=
    (kept ⟨0o040755, [97], []⟩ (by simp) ⟨by decide, by decide⟩).1 (by decide)
  obtain ⟨address', file', parsed', look', notDirectory, _⟩ :=
    (kept ⟨0o100644, [97], [1]⟩ (by simp) ⟨by decide, by decide⟩).2 (by decide)
  rw [parsed] at parsed'
  obtain rfl := Except.ok.inj (Except.ok.inj parsed')
  rw [look] at look'
  obtain rfl := Option.some.inj look'
  exact notDirectory directory

end ArchaOS.FileSystem
