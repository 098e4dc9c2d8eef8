import ArchaOS.Construction.NameLookup
import ArchaOS.Proof.FileSystem.Scanner

namespace ArchaOS.FileSystem

/-- The node has a name that spells the string. -/
def Spells (nodes : Nodes) (string : CString) (child : Nat) : Bool :=
  decide ((nodes.lookup child).map (fun file => spelled file.name) = some string)

/-- The sign of a `char` does not matter for equality. -/
theorem char_inj {first second : UInt8} : char first = char second ↔ first = second := by
  rw [char, char, Int8.toInt_inj]
  constructor
  · intro same
    have back := congrArg Int8.toUInt8 same
    rwa [UInt8.toUInt8_toInt8, UInt8.toUInt8_toInt8] at back
  · exact congrArg UInt8.toInt8

/-- The character is zero exactly when the byte is. -/
theorem char_zero {byte : UInt8} : char byte = 0 ↔ byte = 0 := by
  have zero : char 0 = 0 := rfl
  rw [← zero, char_inj]

/-- `strcmp` stops at the terminator of its first string at the latest, and from a position on it
gives zero exactly for equal bytes up to there. -/
theorem strcmpFrom_zero {a b : Text} {size : Nat} (ends : EndsAt a size) {bound index : Nat}
    (inside : index ≤ size) (enough : size - index < bound) :
    ∃ order, strcmpFrom a b bound index = .ok order ∧
      (order = 0 ↔ ∀ other, index ≤ other → other ≤ size → a other = b other) := by
  induction bound generalizing index with
  | zero => omega
  | succ bound ih =>
      rw [strcmpFrom]
      by_cases turn : char (a index) ≠ 0 ∧ char (a index) = char (b index)
      · have present : a index ≠ 0 := fun zero => turn.1 (char_zero.mpr zero)
        have below : index < size := by
          refine Nat.lt_of_le_of_ne inside ?_
          rintro rfl
          exact present ends.1
        have same : a index = b index := char_inj.mp turn.2
        obtain ⟨order, compared, equal⟩ := ih below (by omega)
        refine ⟨order, by rw [if_pos turn, compared], equal.trans ⟨?_, ?_⟩⟩
        · intro rest other lower upper
          rcases Nat.lt_or_eq_of_le lower with later | here
          · exact rest other later upper
          · rw [← here, same]
        · intro whole other lower upper
          exact whole other (by omega) upper
      · refine ⟨_, if_neg turn, ?_⟩
        have difference : ((a index).toNat : Int) - (b index).toNat = 0 ↔ a index = b index := by
          rw [← UInt8.toNat_inj]
          omega
        rw [difference]
        constructor
        · intro same other lower upper
          -- Equal bytes end the loop only at the terminator.
          have zero : a index = 0 := by
            by_contra present
            exact turn ⟨fun zero => present (char_zero.mp zero), char_inj.mpr same⟩
          have last : index = size := by
            by_contra other
            exact ends.2 index (by omega) zero
          rw [show other = index by omega, same]
        · intro whole
          exact whole index le_rfl inside

/-- `strcmp` gives zero exactly for strings of one length and the same bytes. -/
theorem strcmp_zero {a b : Text} {size length bound : Nat} (first : EndsAt a size)
    (second : EndsAt b length) (enough : size < bound) :
    ∃ order, strcmp a b bound = .ok order ∧
      (order = 0 ↔ size = length ∧ ∀ offset < length, a offset = b offset) := by
  obtain ⟨order, compared, equal⟩ := strcmpFrom_zero (b := b) first (Nat.zero_le size) enough
  refine ⟨order, compared, equal.trans ⟨?_, ?_⟩⟩
  · intro whole
    have size_eq : size = length := by
      rcases Nat.lt_trichotomy size length with shorter | same | longer
      · have ends := whole size (Nat.zero_le _) le_rfl
        rw [first.1] at ends
        exact absurd ends.symm (second.2 size shorter)
      · exact same
      · have ends := whole length (Nat.zero_le _) longer.le
        rw [second.1] at ends
        exact absurd ends (first.2 length longer)
    refine ⟨size_eq, ?_⟩
    intro offset below
    exact whole offset (Nat.zero_le _) (by omega)
  · rintro ⟨rfl, bytes⟩ other _ upper
    rcases Nat.lt_or_eq_of_le upper with below | last
    · exact bytes other below
    · rw [last, first.1, second.1]

/-- The copied name ends where it was cut. -/
theorem copiedName_ends {block slash : Text} {nameLen : Nat}
    (plain : ∀ offset < nameLen, slash offset ≠ 0) : EndsAt (copiedName block slash nameLen) nameLen := by
  refine ⟨by simp [copiedName], ?_⟩
  intro offset below
  rw [copiedName, if_pos below]
  exact plain offset below

section Lookup

variable {name start : Text} {length : Nat} (terminated : EndsAt name length)
include terminated

/-- The test of `find_child` asks whether the node's name spells the string. -/
theorem strcmp_spelled (stored : List UInt8) :
    ∃ order, strcmp (text stored) name (stored.length + 1) = .ok order ∧
      (order = 0 ↔ spelled stored = (List.range length).map name) := by
  obtain ⟨order, compared, equal⟩ := strcmp_zero (text_ends stored) terminated
    (Nat.lt_succ_of_le (spelled_length_le stored))
  exact ⟨order, compared, equal.trans spelled_eq_iff.symm⟩

/-- Both comparisons of names find the same child. -/
theorem compareChildren_eq (nodes : Nodes) (slice : ∀ offset < length, start offset = name offset)
    (bound child : Nat) :
    compareChildren nodes name bound child = matchChildren nodes start length bound child := by
  have bytes : (List.range length).map start = (List.range length).map name :=
    List.map_congr_left fun offset member => slice offset (List.mem_range.mp member)
  induction bound generalizing child with
  | zero => rfl
  | succ bound ih =>
      rw [compareChildren, matchChildren]
      by_cases null : child = 0
      · rw [if_pos null, if_pos null]
      · rw [if_neg null, if_neg null, load]
        cases found : nodes.lookup child with
        | none => rfl
        | some file =>
            obtain ⟨order, compared, equal⟩ := strcmp_spelled terminated file.name
            simp only [bind, Except.bind, compared, strlen_text, equal, memcmp_spelled, bytes, ih]

/-- `find_child` gives what the search of `parse_path` gives for the same bytes. -/
theorem findChildAt_eq (nodes : Nodes) (slice : ∀ offset < length, start offset = name offset)
    (dir : Nat) : findChildAt nodes dir name = findComponent nodes dir start length := by
  simp only [findChildAt, findComponent, compareChildren_eq terminated nodes slice]

/-- Along a list, `find_child` finds the first node whose name spells the string. -/
theorem compareChildren_find {nodes : Nodes} {first bound : Nat} {list : List Nat}
    (listed : Listed nodes first list) (enough : list.length < bound) :
    compareChildren nodes name bound first =
      .ok ((list.find? (Spells nodes ((List.range length).map name))).getD 0) := by
  induction list generalizing first bound with
  | nil =>
      cases bound with
      | zero => simp at enough
      | succ bound =>
          have null : first = 0 := listed
          rw [compareChildren, if_pos null]
          rfl
  | cons here rest ih =>
      cases bound with
      | zero => simp at enough
      | succ bound =>
          obtain ⟨address, present, file, found, later⟩ := listed
          obtain ⟨order, compared, equal⟩ := strcmp_spelled terminated file.name
          have step : compareChildren nodes name (bound + 1) first =
              if order = 0 then .ok here else compareChildren nodes name bound file.next := by
            rw [address, compareChildren, if_neg present, load_ok found]
            simp only [bind, Except.bind, compared]
          by_cases same : order = 0
          · have spells : Spells nodes ((List.range length).map name) here := by
              simp only [Spells, found, Option.map_some, equal.mp same, decide_true]
            rw [step, if_pos same, List.find?_cons_of_pos spells]
            rfl
          · have other : ¬ Spells nodes ((List.range length).map name) here := by
              simp only [Spells, found, Option.map_some, Option.some.injEq, decide_eq_true_eq]
              exact fun spells => same (equal.mpr spells)
            rw [step, if_neg same, List.find?_cons_of_neg other]
            exact ih later (by simpa using enough)

/-- The two lookups give the same answer in every directory: `name` is a terminated copy of the
component, as `create_file` makes one on whatever its block held, and `start` points at the component in
a path. Where the children form a list, the answer is the first of them with this name, or the null
pointer; on names without terminators it is the answer of `find_child` on whole names. -/
theorem lookups_agree (nodes : Nodes) (slice : ∀ offset < length, start offset = name offset)
    (dir : Nat) :
    findChildAt nodes dir name = findComponent nodes dir start length ∧
      (∀ block, findChildAt nodes dir (copiedName block start length) =
        findComponent nodes dir start length) ∧
      (∀ file kids, nodes.lookup dir = some file → Listed nodes file.children kids →
        findChildAt nodes dir name =
          .ok ((kids.find? (Spells nodes ((List.range length).map name))).getD 0)) ∧
      (PlainNames nodes →
        findChildAt nodes dir name = findChild nodes dir ((List.range length).map name)) := by
  have same := findChildAt_eq terminated nodes slice dir
  refine ⟨same, ?_, ?_, ?_⟩
  · intro block
    have ends : EndsAt (copiedName block start length) length :=
      copiedName_ends fun offset below => slice offset below ▸ terminated.2 offset below
    apply findChildAt_eq ends
    intro offset below
    rw [copiedName, if_pos below]
  · intro file kids found listed
    rw [findChildAt, load_ok found]
    exact compareChildren_find terminated listed (listed.bounded listed.nodup)
  · intro plain
    have bytes : (List.range length).map start = (List.range length).map name :=
      List.map_congr_left fun offset below => slice offset (List.mem_range.mp below)
    rw [same]
    simp only [findComponent, findChild, matchChildren_eq plain, bytes]

end Lookup

/-- A directory with the names `é` and its first byte. -/
def siblings : Nodes :=
  ((AList.singleton 1 ⟨0, [], 1, 2, 0, none, 0, fsIsDirectory⟩).insert 2
    ⟨0, [195, 169], 1, 0, 3, none, 0, 0⟩).insert 3 ⟨0, [195], 1, 0, 0, none, 0, 0⟩

/-- The name of one byte above 127, and the path in which it is followed by `/é`. -/
theorem lookups_agree_siblings :
    findChildAt siblings root (text [195]) =
        findComponent siblings root (text [195, slash, 195, 169]) 1 ∧
      ∀ file kids, siblings.lookup root = some file → Listed siblings file.children kids →
        findChildAt siblings root (text [195]) =
          .ok ((kids.find? (Spells siblings ((List.range 1).map (text [195])))).getD 0) :=
  have agree := lookups_agree ⟨rfl, by decide⟩ siblings (by decide) root
  ⟨agree.1, agree.2.2.1⟩

end ArchaOS.FileSystem
