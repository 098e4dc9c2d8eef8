import ArchaOS.Construction.PathScanner
import ArchaOS.Proof.FileSystem.Resolution
import ArchaOS.Proof.FileSystem.TreeRun

namespace ArchaOS.FileSystem

/-- The string at a pointer ends after so many bytes. -/
def EndsAt (path : Text) (size : Nat) : Prop := path size = 0 ∧ ∀ index < size, path index ≠ 0

/-- The string from an index of the path on. -/
def bytesFrom (path : Text) (size index : Nat) : CString := (List.range' index (size - index)).map path

/-- No name holds a terminator. -/
def PlainNames (nodes : Nodes) : Prop := ∀ address file, nodes.lookup address = some file → 0 ∉ file.name

/-- Inside a text there is a next byte. -/
theorem bytesFrom_cons {path : Text} {size index : Nat} (inside : index < size) :
    bytesFrom path size index = path index :: bytesFrom path size (index + 1) := by
  have count : size - index = (size - (index + 1)) + 1 := by omega
  rw [bytesFrom, count, List.range'_succ]
  rfl

/-- At the end of a text no byte is left. -/
theorem bytesFrom_end (path : Text) (size : Nat) : bytesFrom path size size = [] := by
  rw [bytesFrom, Nat.sub_self]
  rfl

/-- The bytes left of a text are counted from the index. -/
theorem bytesFrom_length (path : Text) (size index : Nat) :
    (bytesFrom path size index).length = size - index := by
  rw [bytesFrom, List.length_map, List.length_range']

section Scanning

variable {path : Text} {size index bound : Nat} (terminated : EndsAt path size)
include terminated

/-- The first loop stops behind the slashes. -/
theorem passSlashes_spec (inside : index ≤ size) (enough : size - index < bound) :
    ∃ next, passSlashes path bound index = .ok next ∧ index ≤ next ∧ next ≤ size ∧
      bytesFrom path size next = skipSlashes (bytesFrom path size index) := by
  induction bound generalizing index with
  | zero => omega
  | succ bound ih =>
      rw [passSlashes]
      rcases Nat.lt_or_eq_of_le inside with below | last
      · rw [bytesFrom_cons below]
        by_cases same : path index = slash
        · have fewer : size - (index + 1) < bound := by omega
          obtain ⟨next, result, after, within, left⟩ := ih below fewer
          refine ⟨next, by rw [if_pos same, result], by omega, within, ?_⟩
          rw [left]
          simp [skipSlashes, same]
        · refine ⟨index, by rw [if_neg same], le_rfl, inside, ?_⟩
          rw [bytesFrom_cons below]
          simp [skipSlashes, same]
      · rw [last, bytesFrom_end, if_neg (by rw [terminated.1]; decide)]
        exact ⟨size, rfl, le_rfl, le_rfl, by rw [bytesFrom_end]; rfl⟩

/-- The second loop stops behind the component. -/
theorem passComponent_spec (inside : index ≤ size) (enough : size - index < bound) :
    ∃ stop, passComponent path bound index = .ok stop ∧ index ≤ stop ∧ stop ≤ size ∧
      bytesFrom path size stop = (bytesFrom path size index).dropWhile (· ≠ slash) ∧
      (List.range' index (stop - index)).map path =
        (bytesFrom path size index).takeWhile (· ≠ slash) := by
  induction bound generalizing index with
  | zero => omega
  | succ bound ih =>
      rw [passComponent]
      rcases Nat.lt_or_eq_of_le inside with below | last
      · have present := terminated.2 index below
        rw [bytesFrom_cons below]
        by_cases same : path index = slash
        · refine ⟨index, by rw [if_neg (fun both => both.2 same)], le_rfl, inside, ?_, ?_⟩
          · rw [bytesFrom_cons below]
            simp [same]
          · simp [same]
        · have fewer : size - (index + 1) < bound := by omega
          obtain ⟨stop, result, after, within, left, taken⟩ := ih below fewer
          refine ⟨stop, by rw [if_pos ⟨present, same⟩, result], by omega, within, ?_, ?_⟩
          · rw [left]
            simp [same]
          · have count : stop - index = (stop - (index + 1)) + 1 := by omega
            rw [count, List.range'_succ, List.map_cons, taken]
            simp [same]
      · rw [last, bytesFrom_end, if_neg (fun both => both.1 terminated.1)]
        exact ⟨size, rfl, le_rfl, le_rfl, by rw [bytesFrom_end]; rfl, by simp⟩

end Scanning

/-- `strlen` finds the end of a text. -/
theorem strlenFrom_ends {str : Text} {size : Nat} (ends : EndsAt str size) {bound len : Nat}
    (inside : len ≤ size) (enough : size - len < bound) : strlenFrom str bound len = .ok size := by
  induction bound generalizing len with
  | zero => omega
  | succ bound ih =>
      rw [strlenFrom]
      rcases Nat.lt_or_eq_of_le inside with below | last
      · rw [if_pos (ends.2 len below)]
        exact ih below (by omega)
      · rw [last, if_neg (fun present => present ends.1)]

/-- `strlen` counts the bytes before the terminator. -/
theorem strlen_ends {str : Text} {size bound : Nat} (ends : EndsAt str size) (enough : size < bound) :
    strlen str bound = .ok size :=
  strlenFrom_ends ends (Nat.zero_le _) enough

/-- The string that the bytes of a name spell. -/
def spelled (name : List UInt8) : CString := name.takeWhile (· ≠ 0)

/-- A name without zeros is spelled as it is. -/
theorem spelled_plain {name : List UInt8} (plain : 0 ∉ name) : spelled name = name := by
  rw [spelled, List.takeWhile_eq_self_iff]
  intro byte member
  rw [decide_eq_true_eq]
  rintro rfl
  exact plain member

/-- A name is not spelled longer than it is. -/
theorem spelled_length_le (name : List UInt8) : (spelled name).length ≤ name.length :=
  (List.takeWhile_prefix _).length_le

/-- The text of a name ends behind its spelling. -/
theorem text_ends (name : List UInt8) : EndsAt (text name) (spelled name).length := by
  induction name with
  | nil => exact ⟨rfl, fun index below => absurd below (Nat.not_lt_zero index)⟩
  | cons byte rest ih =>
      by_cases last : byte = 0
      · rw [spelled, List.takeWhile_cons_of_neg (by simp [last])]
        exact ⟨last, fun index below => absurd below (Nat.not_lt_zero index)⟩
      · rw [spelled, List.takeWhile_cons_of_pos (by simp [last]), List.length_cons]
        refine ⟨ih.1, ?_⟩
        intro index below
        cases index with
        | zero => exact last
        | succ index => exact ih.2 index (Nat.lt_of_succ_lt_succ below)

/-- The text of a name has the bytes of its spelling. -/
theorem text_spelled (name : List UInt8) {index : Nat} (below : index < (spelled name).length) :
    text name index = (spelled name)[index] := by
  have inside : index < name.length := below.trans_le (spelled_length_le name)
  have same : (spelled name)[index] = name[index] := (List.takeWhile_prefix _).getElem below
  rw [same]
  simp [text, inside]

/-- `strlen` measures the string that a name spells. -/
theorem strlen_text (name : List UInt8) :
    strlen (text name) (name.length + 1) = .ok (spelled name).length :=
  strlen_ends (text_ends name) (Nat.lt_succ_of_le (spelled_length_le name))

/-- `memcmp` gives zero exactly for equal bytes. -/
theorem memcmpFrom_zero {a b : Text} {index n : Nat} :
    memcmpFrom a b index n = 0 ↔ ∀ offset < n, a (index + offset) = b (index + offset) := by
  induction n generalizing index with
  | zero => simp [memcmpFrom]
  | succ n ih =>
      rw [memcmpFrom]
      by_cases same : a index = b index
      · rw [if_neg (fun other => other same), ih]
        constructor
        · intro rest offset below
          cases offset with
          | zero => exact same
          | succ offset =>
              have equal := rest offset (by omega)
              rwa [Nat.add_right_comm] at equal
        · intro whole offset below
          have equal := whole (offset + 1) (by omega)
          rwa [← Nat.add_assoc, Nat.add_right_comm] at equal
      · rw [if_pos same]
        constructor
        · intro zero
          have equal : (a index).toNat = (b index).toNat := by omega
          exact absurd (UInt8.toNat_inj.mp equal) same
        · intro whole
          exact absurd (whole 0 (by omega)) same

/-- A name spells the bytes at a pointer exactly when it has as many and each is the same. -/
theorem spelled_eq_iff {name : List UInt8} {start : Text} {length : Nat} :
    spelled name = (List.range length).map start ↔
      (spelled name).length = length ∧ ∀ offset < length, text name offset = start offset := by
  constructor
  · intro same
    have size : (spelled name).length = length := by
      rw [same, List.length_map, List.length_range]
    refine ⟨size, ?_⟩
    intro offset below
    rw [text_spelled name (size ▸ below)]
    simp only [same, List.getElem_map, List.getElem_range]
  · rintro ⟨size, bytes⟩
    apply List.ext_getElem (by rw [size, List.length_map, List.length_range])
    intro index below _
    rw [← text_spelled name below, bytes index (size ▸ below), List.getElem_map, List.getElem_range]

/-- Comparing the lengths and then the bytes compares the names. -/
theorem memcmp_spelled {name : List UInt8} {start : Text} {length : Nat} :
    (spelled name).length = length ∧ memcmp (text name) start length = 0 ↔
      spelled name = (List.range length).map start := by
  rw [memcmp, memcmpFrom_zero, spelled_eq_iff]
  simp only [Nat.zero_add]

/-- On plain names the comparison of slices finds the child of the name. -/
theorem matchChildren_eq {nodes : Nodes} (plain : PlainNames nodes) (start : Text) (length : Nat)
    (bound child : Nat) :
    matchChildren nodes start length bound child =
      searchChildren nodes ((List.range length).map start) bound child := by
  induction bound generalizing child with
  | zero => rfl
  | succ bound ih =>
      rw [matchChildren, searchChildren]
      by_cases null : child = 0
      · rw [if_pos null, if_pos null]
      · rw [if_neg null, if_neg null, load]
        cases found : nodes.lookup child with
        | none => rfl
        | some file =>
            have names := @memcmp_spelled file.name start length
            rw [spelled_plain (plain child file found)] at names
            simp only [bind, Except.bind, strlen_text, spelled_plain (plain child file found), names, ih]

/-- The tests of the scan compare the component with one dot and with two. -/
theorem component_dots (path : Text) (index length : Nat) :
    (length = 1 ∧ path index = dot ↔ (List.range' index length).map path = [dot]) ∧
      (length = 2 ∧ path index = dot ∧ path (index + 1) = dot ↔
        (List.range' index length).map path = [dot, dot]) := by
  match length with
  | 0 => simp
  | 1 => simp
  | 2 => simp [List.range'_succ]
  | length + 3 => simp [List.range'_succ]

/-- The scan of the pointer takes the turns of the loop over the bytes that are left. -/
theorem scanPath_eq {nodes : Nodes} (plain : PlainNames nodes) {path : Text} {size limit : Nat}
    (terminated : EndsAt path size) (room : size < limit) {bound current index : Nat}
    (inside : index ≤ size) :
    scanPath nodes path limit bound current index =
      parseSteps nodes bound current (bytesFrom path size index) := by
  induction bound generalizing current index with
  | zero => rfl
  | succ bound ih =>
      rw [scanPath]
      rcases Nat.lt_or_eq_of_le inside with below | last
      · have present := terminated.2 index below
        have enough (start : Nat) : size - start < limit := by omega
        obtain ⟨stop, stopped, after, within, left, taken⟩ :=
          passComponent_spec terminated inside (enough index)
        obtain ⟨next, passed, _, nextInside, rest⟩ :=
          passSlashes_spec terminated within (enough stop)
        obtain ⟨oneDot, twoDots⟩ := component_dots path index (stop - index)
        have component : (List.range (stop - index)).map (fun offset => path (index + offset)) =
            (List.range' index (stop - index)).map path := by
          rw [List.range'_eq_map_range, List.map_map]
          rfl
        rw [if_neg present, stopped, bytesFrom_cons below, parseSteps, ← bytesFrom_cons below, ← taken,
          ← left, ← rest]
        simp only [bind, Except.bind, passed, oneDot, twoDots, matchChildren_eq plain, component,
          ih nextInside]
      · rw [last, bytesFrom_end, if_pos terminated.1]
        rfl

/-- The status of a resolution, with what `result` points at after it. -/
def delivered (result : Nat) : Except FsReturn Nat → FsReturn × Option Nat
  | .ok address => (.success, some address)
  | .error status => (status, some result)

section Trees

variable {nodes : Nodes} {kids : Nat → List Nat} {depth : Nat → Nat}

/-- The scan of a terminated path resolves its components and writes the result on success alone. -/
theorem Tree.parsePathAt_resolve (tree : Tree nodes kids depth) (plain : PlainNames nodes) {path : Text}
    {size limit : Nat} (result : Nat) (terminated : EndsAt path size) (room : size < limit) :
    parsePathAt nodes limit (some path) (some result) =
      .ok (delivered result (resolve nodes kids root (bytesFrom path size 0))) := by
  have enough : size - 0 < limit := by omega
  obtain ⟨start, skipped, _, inside, left⟩ := passSlashes_spec terminated (Nat.zero_le size) enough
  have short := bytesFrom_length path size start
  have scanned : scanPath nodes path limit limit root start =
      .ok (resolve nodes kids root (bytesFrom path size 0)) := by
    rw [scanPath_eq plain terminated room inside, tree.parseSteps_resolve tree.rootLive
      (by rw [left]; exact skipSlashes_first _) (by omega), left, resolve, pathNames_skipSlashes]
    rfl
  rw [parsePathAt]
  simp only [bind, Except.bind, skipped, scanned]
  cases resolve nodes kids root (bytesFrom path size 0) <;> rfl

/-- `parse_path` folds the components of the path from the root on; slashes only separate them, a path
goes on where the path before it ended, and the result is written on success alone. -/
theorem parsePath_componentwise (tree : Tree nodes kids depth) (plain : PlainNames nodes) :
    (∀ path size limit result, EndsAt path size → size < limit →
      parsePathAt nodes limit (some path) (some result) =
        .ok (delivered result (resolve nodes kids root (bytesFrom path size 0)))) ∧
    (∀ path, parsePath nodes (some path) = .ok (resolve nodes kids root path)) ∧
    (∀ before path after, resolve nodes kids root
        (List.replicate before slash ++ path ++ List.replicate after slash) =
      resolve nodes kids root path) ∧
    (∀ first count second, resolve nodes kids root (first ++ List.replicate (count + 1) slash ++ second) =
      resolve nodes kids root (first ++ slash :: second)) ∧
    ∀ first second, resolve nodes kids root (first ++ slash :: second) =
      resolve nodes kids root first >>= fun node => resolve nodes kids node second := by
  refine ⟨?_, tree.parsePath_resolve, ?_, ?_, resolve_append root⟩
  · intro path size limit result terminated room
    exact tree.parsePathAt_resolve plain result terminated room
  · intro before path after
    rw [resolve, pathNames_trailing, pathNames_leading]
    rfl
  · intro first count second
    rw [resolve, pathNames_repeated]
    rfl

end Trees

/-- The names of the sample have no zeros. -/
theorem sampleFs_plain : PlainNames sampleFs.nodes := by
  have names : ∀ entry ∈ sampleFs.nodes.entries, 0 ∉ entry.2.name := by decide
  intro address file found
  exact names ⟨address, file⟩ (AList.mem_lookup_iff.mp found)

/-- In a tree of folders and files, `//d///f/` and its parts. -/
theorem parsePath_componentwise_sample :
    ∃ kids depth, Tree sampleFs.nodes kids depth ∧ PlainNames sampleFs.nodes ∧
      (∀ path size limit result, EndsAt path size → size < limit →
        parsePathAt sampleFs.nodes limit (some path) (some result) =
          .ok (delivered result (resolve sampleFs.nodes kids root (bytesFrom path size 0)))) ∧
      (∃ file, parsePath sampleFs.nodes (some [slash, slash, 100, slash, slash, slash, 102, slash]) =
        .ok (.ok file) ∧ resolve sampleFs.nodes kids root [100, slash, 102] = .ok file) ∧
      resolve sampleFs.nodes kids root [100, slash, 102] =
        resolve sampleFs.nodes kids root [100] >>= fun node => resolve sampleFs.nodes kids node [102] := by
  obtain ⟨kids, depth, tree⟩ := sampleFs_tree
  obtain ⟨scanned, parsed, _, _, parts⟩ := parsePath_componentwise tree sampleFs_plain
  obtain ⟨file, leads, short⟩ : ∃ file,
      parsePath sampleFs.nodes (some [slash, slash, 100, slash, slash, slash, 102, slash]) = .ok (.ok file) ∧
        parsePath sampleFs.nodes (some [100, slash, 102]) = .ok (.ok file) := ⟨_, rfl, rfl⟩
  rw [parsed [100, slash, 102], Except.ok.injEq] at short
  exact ⟨kids, depth, tree, sampleFs_plain, scanned, ⟨file, leads, short⟩, parts [100] [102]⟩

end ArchaOS.FileSystem
