import ArchaOS.Proof.FileSystem.Newc
import ArchaOS.Proof.FileSystem.Store
import ArchaOS.Proof.FileSystem.TreeRun

namespace ArchaOS.FileSystem

open Library

/-- An entry of an archive: its path, mode and data, whether its name starts with `./`, the values
of the fields that the reader ignores, and the letter case of each digit. -/
structure Entry where
  path : List CString
  mode : Nat
  data : List UInt8
  dotted : Bool
  ignored : Nat → Nat
  upper : Nat → Nat → Bool

def Entry.isDirectory (entry : Entry) : Prop := entry.mode &&& typeMask = typeDirectory

def Entry.isRegular (entry : Entry) : Prop := entry.mode &&& typeMask = typeRegular

instance (entry : Entry) : Decidable entry.isRegular := inferInstanceAs (Decidable (_ = _))

def Entry.name (entry : Entry) : CString :=
  (if entry.dotted then [dot, slash] else []) ++ joinPath entry.path

def Entry.fields (entry : Entry) (index : Nat) : Nat :=
  if index = 1 then entry.mode
  else if index = 6 then entry.data.length
  else if index = 11 then entry.name.length + 1
  else entry.ignored index

def Entry.encode (entry : Entry) : List UInt8 :=
  encodeRecord entry.fields entry.upper entry.name entry.data

/-- The last record of an archive; the reader uses no field of it but the length of the name. -/
def encodeTrailer (fields : Nat → Nat) (upper : Nat → Nat → Bool) : List UInt8 :=
  encodeRecord (fun index => if index = 11 then trailer.length + 1 else fields index) upper trailer []

/-- The archive with these entries. -/
def encode (entries : List Entry) (fields : Nat → Nat) (upper : Nat → Nat → Bool) : List UInt8 :=
  entries.flatMap Entry.encode ++ encodeTrailer fields upper

/-- An entry that a newc writer makes of a directory or a regular file. -/
structure Entry.WellFormed (entry : Entry) : Prop where
  path : entry.path ≠ []
  components : ∀ component ∈ entry.path, LegalName component ∧ 0 ∉ component
  short : entry.name.length ≤ maxPath
  notTrailer : joinPath entry.path ≠ trailer
  mode : entry.mode < 2 ^ 32
  kind : entry.isDirectory ∨ entry.isRegular
  data : entry.data.length < 2 ^ 32

/-- The entries of an archive: their paths differ, and no file stands on the way to another
entry. -/
structure WellFormedEntries (entries : List Entry) : Prop where
  each : ∀ entry ∈ entries, entry.WellFormed
  distinct : (entries.map Entry.path).Nodup
  files : ∀ entry ∈ entries, entry.isRegular → ∀ other ∈ entries,
    entry.path <+: other.path → entry.path = other.path

/-- A path of plain components has no zero. -/
theorem zero_not_mem_joinPath {path : List CString} (plain : ∀ component ∈ path, 0 ∉ component) :
    0 ∉ joinPath path := by
  induction path with
  | nil => simp [joinPath]
  | cons component rest ih =>
      cases rest with
      | nil => exact plain component (by simp)
      | cons next others =>
          rw [joinPath]
          intro member
          rcases List.mem_append.mp member with here | later
          · exact plain component (by simp) here
          · rcases List.mem_cons.mp later with separator | last
            · exact absurd separator (by decide)
            · exact ih (fun other inside => plain other (by simp [List.mem_cons.mp inside])) last

/-- The reader's name clean-up leaves a path of legal components alone. -/
theorem cleanName_join {path : List CString} (legal : ∀ component ∈ path, LegalName component) :
    cleanName (joinPath path) = joinPath path := by
  cases text : joinPath path with
  | nil => rfl
  | cons first rest =>
      cases rest with
      | nil => rfl
      | cons second tail =>
          rw [cleanName, if_neg]
          intro both
          obtain ⟨leading, following⟩ := both
          cases path with
          | nil => simp [joinPath] at text
          | cons component others =>
              obtain ⟨nonempty, plain, notDot, _⟩ := legal component (by simp)
              cases component with
              | nil => exact nonempty rfl
              | cons byte bytes =>
                  cases bytes with
                  | nil =>
                      cases others with
                      | nil => simp [joinPath] at text
                      | cons next more =>
                          simp only [joinPath, List.cons_append, List.nil_append, List.cons.injEq] at text
                          exact notDot (by rw [text.1, leading])
                  | cons byte' bytes' =>
                      have second' : byte' = second := by
                        cases others with
                        | nil =>
                            simp only [joinPath, List.cons.injEq] at text
                            exact text.2.1
                        | cons next more =>
                            simp only [joinPath, List.cons_append, List.cons.injEq] at text
                            exact text.2.1
                      exact plain (by simp [second', following])

section Entries

variable {entry : Entry} (wellFormed : entry.WellFormed)
include wellFormed

/-- The components of an entry are legal names. -/
theorem Entry.WellFormed.legal : ∀ component ∈ entry.path, LegalName component :=
  fun component member => (wellFormed.components component member).1

/-- The name of an entry has no zero. -/
theorem Entry.WellFormed.plain : 0 ∉ entry.name := by
  have path := zero_not_mem_joinPath fun component member => (wellFormed.components component member).2
  unfold Entry.name
  intro member
  rcases List.mem_append.mp member with lead | rest
  · split at lead
    · exact absurd lead (by decide)
    · simp at lead
  · exact path rest

/-- The cleaned name of an entry is its path. -/
theorem Entry.WellFormed.clean : cleanName entry.name = joinPath entry.path := by
  unfold Entry.name
  split
  · rw [List.cons_append, List.cons_append, List.nil_append, cleanName, if_pos ⟨rfl, rfl⟩,
      cleanName_join wellFormed.legal]
  · exact cleanName_join wellFormed.legal

/-- No entry is called like the trailer. -/
theorem Entry.WellFormed.notLast : entry.name ≠ trailer := by
  unfold Entry.name
  split
  · intro same
    have first := congrArg List.head? same
    simp [trailer, dot] at first
  · exact wellFormed.notTrailer

/-- The path of an entry does not start with a slash. -/
theorem Entry.WellFormed.notSlash : (joinPath entry.path).head? ≠ some slash := by
  have skip := skipSlashes_join wellFormed.legal
  intro first
  cases text : joinPath entry.path with
  | nil =>
      rw [text] at first
      simp at first
  | cons byte rest =>
      rw [text] at first skip
      have same : byte = slash := by simpa using first
      have shorter := skipSlashes_length rest
      have drop : skipSlashes (byte :: rest) = skipSlashes rest := by simp [skipSlashes, same]
      rw [drop] at skip
      rw [skip] at shorter
      simp at shorter

/-- The path of an entry is not a dot. -/
theorem Entry.WellFormed.notDot : joinPath entry.path ≠ [dot] := by
  have legal := wellFormed.legal
  cases path : entry.path with
  | nil => exact absurd path wellFormed.path
  | cons component rest =>
      rw [path] at legal
      obtain ⟨nonempty, plain, notDot, _⟩ := legal component (by simp)
      cases rest with
      | nil => exact notDot
      | cons next others =>
          intro same
          have slashIn : slash ∈ joinPath (component :: next :: others) := by simp [joinPath]
          rw [same] at slashIn
          exact absurd slashIn (by decide)

/-- The path of an entry has no slash at the end. -/
theorem Entry.WellFormed.trimmed :
    trimSlashes (joinPath entry.path) = joinPath entry.path ∧
      trimSlash (joinPath entry.path) = joinPath entry.path := by
  obtain ⟨_, last⟩ := joinPath_ends wellFormed.legal wellFormed.path
  constructor
  · exact trimSlashes_self last
  · rw [trimSlash, if_neg last]

end Entries

/-- The abstract filesystem after some entries: their files, and folders everywhere on the way to
them. -/
def expected (entries : List Entry) : Store := fun path =>
  match entries.find? fun entry => decide (entry.isRegular ∧ entry.path = path) with
  | some entry => some (.regular entry.data)
  | none => if path = [] ∨ ∃ entry ∈ entries, path <+: entry.path then some .folder else none

/-- The data of a regular entry is expected at its path. -/
theorem expected_regular {entries : List Entry} {entry : Entry} (distinct : (entries.map Entry.path).Nodup)
    (member : entry ∈ entries) (regular : entry.isRegular) :
    expected entries entry.path = some (.regular entry.data) := by
  have found : entries.find? (fun other => decide (other.isRegular ∧ other.path = entry.path)) =
      some entry := by
    cases search : entries.find? fun other => decide (other.isRegular ∧ other.path = entry.path) with
    | none =>
        have missing := List.find?_eq_none.mp search entry member
        simp [regular] at missing
    | some other =>
        have holds := List.find?_some search
        have inside := List.mem_of_find?_eq_some search
        simp only [decide_eq_true_eq] at holds
        rw [List.inj_on_of_nodup_map distinct inside member holds.2]
  rw [expected, found]

/-- At the other paths folders are expected above the entries. -/
theorem expected_other {entries : List Entry} {path : List CString}
    (other : ∀ entry ∈ entries, entry.isRegular → entry.path ≠ path) :
    expected entries path =
      if path = [] ∨ ∃ entry ∈ entries, path <+: entry.path then some .folder else none := by
  have search : entries.find? (fun entry => decide (entry.isRegular ∧ entry.path = path)) = none := by
    apply List.find?_eq_none.mpr
    intro entry member
    simp only [decide_eq_true_eq]
    exact fun both => other entry member both.1 both.2
  rw [expected, search]

/-- The folders on the way to an entry are there, and its content is not. -/
def readied (done : List Entry) (entry : Entry) : Store := fun path =>
  if path ∈ ancestors [] entry.path then some .folder else expected done path

/-- The content that an entry leaves at its path. -/
def Entry.content (entry : Entry) : Content :=
  if entry.isRegular then .regular entry.data else .folder

section Growing

variable {done later : List Entry} {entry : Entry} (all : WellFormedEntries (done ++ entry :: later))
include all

/-- The path of the next entry is not used yet. -/
theorem WellFormedEntries.path_unused {other : Entry} (member : other ∈ done) : other.path ≠ entry.path := by
  have distinct := all.distinct
  rw [List.map_append, List.map_cons] at distinct
  intro same
  have apart := (List.nodup_append.mp distinct).2.2 other.path (List.mem_map_of_mem member) entry.path
    (by simp)
  exact apart same

/-- No file stands on the way to an entry. -/
theorem WellFormedEntries.way_free {other : Entry} {path : List CString}
    (member : other ∈ done) (regular : other.isRegular) (way : path ∈ ancestors [] entry.path) :
    other.path ≠ path := by
  obtain ⟨_, inside, different⟩ := mem_ancestors_root.mp way
  intro same
  rw [← same] at inside different
  exact different (all.files other (by simp [member]) regular entry (by simp) inside)

/-- An entry adds its content and the folders on the way to it. -/
theorem expected_snoc :
    expected (done ++ [entry]) =
      Function.update (readied done entry) entry.path (some entry.content) := by
  unfold readied
  have distinctAll := all.distinct
  rw [List.map_append, List.map_cons] at distinctAll
  have distinctDone : (done.map Entry.path).Nodup := (List.nodup_append.mp distinctAll).1
  have distinct : ((done ++ [entry]).map Entry.path).Nodup := by
    rw [List.map_append, List.map_cons, List.map_nil]
    exact List.Nodup.sublist ((List.Sublist.refl _).append ((List.nil_sublist _).cons_cons _)) distinctAll
  funext path
  by_cases here : path = entry.path
  · subst here
    rw [Function.update_self]
    by_cases regular : entry.isRegular
    · rw [expected_regular distinct (by simp) regular, Entry.content, if_pos regular]
    · rw [expected_other, if_pos (Or.inr ⟨entry, by simp, List.prefix_rfl⟩), Entry.content, if_neg regular]
      intro other member otherRegular
      rcases List.mem_append.mp member with old | new
      · exact all.path_unused old
      · rw [List.mem_singleton.mp new] at otherRegular
        exact absurd otherRegular regular
  · rw [Function.update_of_ne here]
    by_cases file : ∃ other ∈ done, other.isRegular ∧ other.path = path
    · obtain ⟨other, member, regular, same⟩ := file
      have off : path ∉ ancestors [] entry.path := fun way => all.way_free member regular way same
      rw [if_neg off, ← same, expected_regular distinct (by simp [member]) regular,
        expected_regular distinctDone member regular]
    · have noneDone : ∀ other ∈ done, other.isRegular → other.path ≠ path := fun other member regular same =>
        file ⟨other, member, regular, same⟩
      have noneAll : ∀ other ∈ done ++ [entry], other.isRegular → other.path ≠ path := by
        intro other member regular
        rcases List.mem_append.mp member with old | new
        · exact noneDone other old regular
        · rw [List.mem_singleton.mp new]
          exact Ne.symm here
      rw [expected_other noneAll, expected_other noneDone]
      by_cases way : path ∈ ancestors [] entry.path
      · obtain ⟨_, inside, _⟩ := mem_ancestors_root.mp way
        rw [if_pos way, if_pos (Or.inr ⟨entry, by simp, inside⟩)]
      · rw [if_neg way]
        congr 1
        apply propext
        constructor
        · intro either
          rcases either with top | ⟨other, member, inside⟩
          · exact Or.inl top
          · rcases List.mem_append.mp member with old | new
            · exact Or.inr ⟨other, old, inside⟩
            · rw [List.mem_singleton.mp new] at inside
              by_cases top : path = []
              · exact Or.inl top
              · exact absurd (mem_ancestors_root.mpr ⟨top, inside, here⟩) way
        · intro either
          rcases either with top | ⟨other, member, inside⟩
          · exact Or.inl top
          · exact Or.inr ⟨other, by simp [member], inside⟩

/-- The root is expected to be a folder. -/
theorem expected_root : expected done [] = some .folder := by
  rw [expected_other, if_pos (Or.inl rfl)]
  intro other member _
  exact (all.each other (by simp [member])).path

/-- Without the entry its path holds no file. -/
theorem readied_self_ne (data : List UInt8) : readied done entry entry.path ≠ some (.regular data) := by
  have offWay : entry.path ∉ ancestors [] entry.path := fun way => (mem_ancestors_root.mp way).2.2 rfl
  unfold readied
  rw [if_neg offWay, expected_other fun other member _ => all.path_unused member]
  split <;> simp

/-- No earlier entry lies below a file, so its path holds nothing yet. -/
theorem readied_self (regular : entry.isRegular) : readied done entry entry.path = none := by
  have offWay : entry.path ∉ ancestors [] entry.path := fun way => (mem_ancestors_root.mp way).2.2 rfl
  unfold readied
  rw [if_neg offWay, expected_other fun other member _ => all.path_unused member, if_neg]
  rintro (top | ⟨other, member, inside⟩)
  · exact (all.each entry (by simp)).path top
  · exact all.path_unused member
      (all.files entry (by simp) regular other (by simp [member]) inside).symm

/-- The parent of an entry is a folder when the entry is placed. -/
theorem readied_parent {front : List CString} {name : CString} (same : entry.path = front ++ [name]) :
    readied done entry front = some .folder := by
  unfold readied
  by_cases top : front = []
  · rw [top, expected_root all]
    split <;> rfl
  · have way : front ∈ ancestors [] entry.path := by
      apply mem_ancestors_root.mpr
      refine ⟨top, ?_, ?_⟩
      · rw [same]
        exact List.prefix_append _ _
      · rw [same]
        simp
    rw [if_pos way]

section Reading

variable {allocator : Allocator} (never : NeverFails allocator) {fs : Fs}
  (stores : Stores fs.nodes (expected done))
include never stores

/-- The folders on the way to the entry are made. -/
theorem ensureFolders_readied :
    ∃ ensured, ensureFolders allocator (slashPrefixes [] (joinPath entry.path)) fs = .ok (true, ensured) ∧
      Stores ensured.nodes (readied done entry) := by
  have legal := (all.each entry (by simp)).legal
  have wayFree : ∀ path ∈ ancestors [] entry.path, ∀ data, expected done path ≠ some (.regular data) := by
    intro path way data
    rw [expected_other fun other member regular => all.way_free member regular way]
    split <;> simp
  have prefixes : slashPrefixes [] (joinPath entry.path) = (ancestors [] entry.path).map joinPath :=
    @slashPrefixes_join [] _ fun component member => (legal component member).2.1
  rw [prefixes]
  exact ensureFolders_refines never stores (by simpa using legal) (expected_root all) wayFree

/-- The entry stands in the last of these folders. -/
theorem entry_readied :
    ∃ ensured front name, entry.path = front ++ [name] ∧
      ensureFolders allocator (slashPrefixes [] (joinPath entry.path)) fs = .ok (true, ensured) ∧
      Stores ensured.nodes (readied done entry) ∧ readied done entry front = some .folder := by
  obtain ⟨ensured, ensure, ready⟩ := ensureFolders_readied all never stores
  rcases entry.path.eq_nil_or_concat with nil | ⟨front, name, same⟩
  · exact absurd nil (all.each entry (by simp)).path
  · rw [List.concat_eq_append] at same
    exact ⟨ensured, front, name, same, ensure, ready, readied_parent all same⟩

/-- A regular entry is placed with its data. -/
theorem regularEntry_expected (regular : entry.isRegular) :
    ∃ fs', regularEntry allocator (joinPath entry.path) entry.data entry.data.length fs =
        .ok (none, fs') ∧
      Stores fs'.nodes
        (Function.update (readied done entry) entry.path (some (.regular entry.data))) := by
  have wellFormed := all.each entry (by simp)
  obtain ⟨nonempty, _⟩ := joinPath_ends wellFormed.legal wellFormed.path
  obtain ⟨ensured, front, name, same, ensure, ready, parent⟩ := entry_readied all never stores
  have legal := wellFormed.legal
  have free := readied_self all regular
  rw [same] at legal free
  obtain ⟨fs', create, storesNew⟩ := createFile_refines never ready legal parent free entry.data
  rw [← same] at create storesNew
  refine ⟨fs', ?_, storesNew⟩
  simp only [regularEntry, wellFormed.trimmed.2, nonempty, if_false, ensure, bind, Except.bind,
    Bool.not_true, Bool.false_eq_true, create, ne_eq, not_true_eq_false, false_and]
  rfl

/-- A directory entry is placed as a folder. -/
theorem directoryEntry_expected :
    ∃ fs', directoryEntry allocator (joinPath entry.path) fs = .ok (none, fs') ∧
      Stores fs'.nodes (Function.update (readied done entry) entry.path (some .folder)) := by
  have wellFormed := all.each entry (by simp)
  obtain ⟨nonempty, _⟩ := joinPath_ends wellFormed.legal wellFormed.path
  obtain ⟨ensured, front, name, same, ensure, ready, parent⟩ := entry_readied all never stores
  have legal := wellFormed.legal
  have free := readied_self_ne all
  rw [same] at legal free
  obtain ⟨status, fs', create, fine, storesNew⟩ := createFolder_refines never ready legal parent free
  rw [← same] at create storesNew
  have goesOn : ¬ (status ≠ .success ∧ status ≠ .alrExist) := by
    intro both
    rcases fine with made | taken
    · exact both.1 made
    · exact both.2 taken
  refine ⟨fs', ?_, storesNew⟩
  simp only [directoryEntry, wellFormed.trimmed.1, nonempty, if_false, ensure, bind, Except.bind,
    Bool.not_true, Bool.false_eq_true, create, goesOn]
  rfl

/-- Reading an entry extends the filesystem by that entry. -/
theorem entryEffect_expected :
    ∃ fs', entryEffect allocator ⟨entry.mode, entry.data.length, entry.name.length + 1⟩
        (joinPath entry.path) entry.data fs = .ok (none, fs') ∧
      Stores fs'.nodes (expected (done ++ [entry])) := by
  rw [expected_snoc all, Entry.content]
  by_cases regular : entry.isRegular
  · have isRegular : entry.mode &&& typeMask = typeRegular := regular
    rw [if_pos regular, entryEffect, isRegular]
    exact regularEntry_expected all never stores regular
  · have isDirectory : entry.mode &&& typeMask = typeDirectory :=
      (all.each entry (by simp)).kind.resolve_right regular
    rw [if_neg regular, entryEffect, isDirectory]
    exact directoryEntry_expected all never stores

end Reading

end Growing

/-- The padding leads to the next multiple of four. -/
theorem padding_eq (offset : Nat) : padding offset = (4 - offset % 4) % 4 := by
  have mask (value : Nat) : value &&& 3 = value % 4 := Nat.and_two_pow_sub_one_eq_mod value 2
  rw [padding, mask, mask]

/-- The padding behind an aligned offset depends on the length only. -/
theorem padding_aligned {offset : Nat} (count : Nat) (aligned : offset % 4 = 0) :
    padding (offset + count) = padding count := by
  rw [padding_eq, padding_eq]
  omega

/-- An encoded record has the length of its padded parts. -/
theorem encodeRecord_length (fields : Nat → Nat) (upper : Nat → Nat → Bool) (name : CString)
    (data : List UInt8) :
    (encodeRecord fields upper name data).length =
      110 + (name.length + 1 + padding (110 + (name.length + 1))) + (data.length + padding data.length) := by
  simp only [encodeRecord, magic, zeros, List.length_append, encodeFields_length, List.length_replicate,
    List.length_cons, List.length_nil]

/-- An encoded record ends at a multiple of four. -/
theorem encodeRecord_aligned (fields : Nat → Nat) (upper : Nat → Nat → Bool) (name : CString)
    (data : List UInt8) : (encodeRecord fields upper name data).length % 4 = 0 := by
  rw [encodeRecord_length, padding_eq, padding_eq]
  omega

section Records

variable {allocator : Allocator} {disk : Archive} {offset : Nat} {fields : Nat → Nat}
  {upper : Nat → Nat → Bool} {name : CString} {data : List UInt8} {fs : Fs}

/-- The reader passes the header and the name of an encoded record. -/
theorem parseRecord_encode (stack : Nat → Nat → UInt8)
    (here : Continues disk offset (encodeRecord fields upper name data)) (start : offset ≤ disk.size)
    (aligned : offset % 4 = 0) (plain : 0 ∉ name) (short : name.length ≤ maxPath)
    (length : fields 11 = name.length + 1) :
    parseRecord allocator disk stack offset fs =
      bodyEffect allocator disk ⟨fields 1 % 2 ^ 32, fields 6 % 2 ^ 32, name.length + 1⟩
        (offset + (110 + (name.length + 1 + padding (110 + (name.length + 1))))) name fs := by
  have headLength : (magic ++ encodeFields fields upper 0 13).length = 110 := by simp [magic]
  have inside := here.inside start
  rw [encodeRecord_length] at inside
  have head := here.left.left
  have nameHere := here.left.right
  rw [headLength] at nameHere
  have samePadding : padding (offset + 110 + (name.length + 1)) = padding (110 + (name.length + 1)) := by
    rw [Nat.add_assoc]
    exact padding_aligned _ aligned
  rw [← samePadding] at nameHere
  have smallName : (name.length + 1) % 2 ^ 32 = name.length + 1 := by
    unfold maxPath at short
    omega
  have total : add64 offset 110 = offset + 110 := disk.add64_inside (by omega)
  obtain ⟨buffer, named, held⟩ := parseName_encode (stack offset) plain short nameHere (by omega)
  have next : offset + 110 + (name.length + 1) + padding (offset + 110 + (name.length + 1)) =
      offset + (110 + (name.length + 1 + padding (110 + (name.length + 1)))) := by
    rw [samePadding]
    omega
  rw [next] at named
  simp only [parseRecord, Files.parseRecord, parseHeader_encode head start, length, smallName, total, named, bind,
    Except.bind]
  exact parseBody_eq allocator fs held (by omega)

/-- The reader stops at the trailer. -/
theorem parseRecord_trailer (stack : Nat → Nat → UInt8)
    (here : Continues disk offset (encodeTrailer fields upper)) (start : offset ≤ disk.size)
    (aligned : offset % 4 = 0) :
    parseRecord allocator disk stack offset fs = .ok (.finished 0 fs) := by
  rw [parseRecord_encode stack here start aligned (by decide) (by decide) rfl, bodyEffect, if_pos rfl]

/-- The reader takes one entry and moves on to the next record. -/
theorem parseRecord_entry {done later : List Entry} {entry : Entry}
    (all : WellFormedEntries (done ++ entry :: later)) (never : NeverFails allocator)
    (stack : Nat → Nat → UInt8) (stores : Stores fs.nodes (expected done))
    (here : Continues disk offset entry.encode) (start : offset ≤ disk.size) (aligned : offset % 4 = 0) :
    ∃ fs', parseRecord allocator disk stack offset fs = .ok (.next (offset + entry.encode.length) fs') ∧
      Stores fs'.nodes (expected (done ++ [entry])) := by
  have wellFormed := all.each entry (by simp)
  obtain ⟨fs', effect, stores'⟩ := entryEffect_expected all never stores
  refine ⟨fs', ?_, stores'⟩
  have inside := here.inside start
  rw [Entry.encode, encodeRecord_length] at inside
  obtain ⟨nonempty, _⟩ := joinPath_ends wellFormed.legal wellFormed.path
  rw [Entry.encode, parseRecord_encode stack here start aligned wellFormed.plain wellFormed.short rfl,
    encodeRecord_length]
  have mode : entry.fields 1 % 2 ^ 32 = entry.mode := Nat.mod_eq_of_lt wellFormed.mode
  have size : entry.fields 6 % 2 ^ 32 = entry.data.length := Nat.mod_eq_of_lt wellFormed.data
  have nameLead : (magic ++ encodeFields entry.fields entry.upper 0 13 ++ (entry.name ++ [0] ++
      zeros (padding (110 + (entry.name.length + 1))))).length =
      110 + (entry.name.length + 1 + padding (110 + (entry.name.length + 1))) := by
    simp only [magic, zeros, List.length_append, encodeFields_length, List.length_replicate,
      List.length_cons, List.length_nil]
  have dataHere := here.right.left
  rw [nameLead] at dataHere
  have slice := dataHere.slice
  have notTrailer : entry.name ≠ trailer := wellFormed.notLast
  generalize lead : 110 + (entry.name.length + 1 + padding (110 + (entry.name.length + 1))) = skipped at *
  have enough : ¬ disk.size < offset + skipped + entry.data.length := by omega
  have leadAligned : (offset + skipped) % 4 = 0 := by
    rw [← lead, padding_eq]
    omega
  have total : add64 (offset + skipped) entry.data.length = offset + skipped + entry.data.length :=
    disk.add64_inside (by omega)
  have finish : finishRecord disk (offset + skipped) entry.data.length fs' =
      .next (offset + (skipped + (entry.data.length + padding entry.data.length))) fs' := by
    rw [finishRecord, total, skipPadding_ok (by omega), padding_aligned _ leadAligned, if_neg (by omega)]
    dsimp only
    congr 1
    omega
  have notRootEntry : ¬ (joinPath entry.path = [] ∨ joinPath entry.path = [dot]) := by
    intro either
    rcases either with empty | single
    · exact nonempty empty
    · exact wellFormed.notDot single
  simp only [bodyEffect, notTrailer, if_false, wellFormed.clean, wellFormed.notSlash, mode, size, enough,
    notRootEntry, slice, effect, bind, Except.bind]
  rw [finish]
  rfl

/-- The reader takes all entries of an archive. -/
theorem parseRecords_entries {later : List Entry} (never : NeverFails allocator)
    (stack : Nat → Nat → UInt8) {bound : Nat} {done : List Entry}
    (all : WellFormedEntries (done ++ later)) (stores : Stores fs.nodes (expected done))
    (here : Continues disk offset (encode later fields upper)) (start : offset ≤ disk.size)
    (aligned : offset % 4 = 0) (enough : later.length < bound) :
    ∃ fs', parseRecords allocator disk stack bound offset fs = .ok (0, fs') ∧
      Stores fs'.nodes (expected (done ++ later)) := by
  induction later generalizing bound done offset fs with
  | nil =>
      cases bound with
      | zero => simp at enough
      | succ bound =>
          refine ⟨fs, ?_, by simpa using stores⟩
          rw [parseRecords_succ, parseRecord_trailer stack here start aligned]
          rfl
  | cons entry rest ih =>
      cases bound with
      | zero => simp at enough
      | succ bound =>
          have split : encode (entry :: rest) fields upper = entry.encode ++ encode rest fields upper := by
            simp [encode]
          rw [split] at here
          obtain ⟨fs', result, stores'⟩ := parseRecord_entry all never stack stores here.left start aligned
          have inside := here.left.inside start
          have entryAligned := encodeRecord_aligned entry.fields entry.upper entry.name entry.data
          have allRest : WellFormedEntries ((done ++ [entry]) ++ rest) := by simpa using all
          have nextAligned : (offset + entry.encode.length) % 4 = 0 := by
            rw [Entry.encode]
            omega
          obtain ⟨fs'', result', stores''⟩ := ih allRest stores' here.right inside nextAligned
            (by simpa using enough)
          refine ⟨fs'', ?_, by simpa using stores''⟩
          rw [parseRecords_succ, result]
          exact result'

end Records

/-- An encoded entry is at least as long as its header. -/
theorem Entry.encode_length (entry : Entry) : 110 ≤ entry.encode.length := by
  rw [Entry.encode, encodeRecord_length]
  omega

/-- A record of 110 bytes at least stands for each entry. -/
theorem encode_length (entries : List Entry) (fields : Nat → Nat) (upper : Nat → Nat → Bool) :
    110 * entries.length ≤ (encode entries fields upper).length := by
  induction entries with
  | nil => simp
  | cons entry rest ih =>
      have here := entry.encode_length
      rw [encode, List.flatMap_cons, List.append_assoc, List.length_append, List.length_cons]
      rw [encode] at ih
      omega

/-- The empty filesystem holds what no entry leads to expect. -/
theorem initFs_stores : Stores initFs.nodes (expected []) := by
  refine ⟨initFs_tree, ?_, ?_⟩
  · intro path content value
    rw [expected_other (by simp)] at value
    split at value
    · rename_i top
      have empty : path = [] := by simpa using top
      rw [empty, ← Option.some.inj value]
      exact ⟨root, _, rfl, rfl, by unfold Shows File.isDirectory; decide⟩
    · simp at value
  · intro path value address there
    rw [expected_other (by simp)] at value
    split at value
    · simp at value
    · rename_i below
      rcases path.eq_nil_or_concat with nil | ⟨front, name, same⟩
      · exact below (Or.inl nil)
      · rw [List.concat_eq_append] at same
        subst same
        obtain ⟨notRoot, file, found, _⟩ := (at_snoc _ _ _ _).mp there
        exact notRoot (initFs_node found).1

section Results

variable {fs : Fs} {entries : List Entry} (wellFormed : WellFormedEntries entries)
  (stores : Stores fs.nodes (expected entries))
include wellFormed stores

/-- A stored file reads back as the data of its entry. -/
theorem readFileContent_entry {entry : Entry} (member : entry ∈ entries) (regular : entry.isRegular)
    (buffer : Buffer) (bufSize : Nat) (given : buffer.null = false) (room : entry.data.length ≤ bufSize) :
    readFileContent (some (joinPath entry.path)) buffer bufSize fs = .ok (.success, entry.data) := by
  obtain ⟨address, file, there, found, notDirectory, size, data⟩ := stores.present entry.path _
    (expected_regular wellFormed.distinct member regular)
  obtain ⟨kids, depth, tree⟩ := stores.tree
  have parsed := tree.parsePath_at (wellFormed.each entry member).legal there
  have fits : ¬ bufSize < file.size := by omega
  have filled : ¬ (file.size ≠ 0 ∧ file.data = none) := by
    rw [size, data]
    intro both
    rw [if_neg both.1] at both
    simp at both
  have notNull : ¬ (file.size ≠ 0 ∧ buffer.null = true) := by simp [given]
  simp only [readFileContent, parsed, bind, Except.bind, load_ok found, notDirectory, if_false, fits, filled,
    notNull]
  rw [size, data]
  split
  · rename_i empty
    rw [List.length_eq_zero_iff.mp empty]
    rfl
  · rw [Option.getD_some, List.take_length]
    rfl

/-- What stands at the path of a directory entry, or on the way to an entry, is a directory. -/
theorem directory_entry {entry : Entry} {path : List CString} (member : entry ∈ entries)
    (inside : path <+: entry.path) (kind : path = entry.path → ¬ entry.isRegular) :
    ∃ address file, parsePath fs.nodes (some (joinPath path)) = .ok (.ok address) ∧
      fs.nodes.lookup address = some file ∧ file.isDirectory := by
  have folder : expected entries path = some .folder := by
    rw [expected_other, if_pos (Or.inr ⟨entry, member, inside⟩)]
    intro other otherMember regular same
    have equal := wellFormed.files other otherMember regular entry member (same ▸ inside)
    have identical := List.inj_on_of_nodup_map wellFormed.distinct otherMember member equal
    rw [identical] at regular same
    exact kind same.symm regular
  obtain ⟨address, file, there, found, directory⟩ := stores.present path .folder folder
  obtain ⟨kids, depth, tree⟩ := stores.tree
  have legal : ∀ component ∈ path, LegalName component := fun component part =>
    (wellFormed.each entry member).legal component (inside.subset part)
  exact ⟨address, file, tree.parsePath_at legal there, found, directory⟩

/-- Every node stands on the way to an entry. -/
theorem node_entry {address : Nat} (live : address ∈ fs.nodes) :
    address = root ∨ ∃ entry ∈ entries, ∃ path, path <+: entry.path ∧
      parsePath fs.nodes (some (joinPath path)) = .ok (.ok address) := by
  obtain ⟨kids, depth, tree⟩ := stores.tree
  obtain ⟨path, there⟩ := tree.at_exists live
  obtain ⟨content, value⟩ := stores.taken there
  by_cases top : path = []
  · left
    rw [top] at there
    exact there
  · right
    have found : ∃ entry ∈ entries, path <+: entry.path := by
      by_cases file : ∃ entry ∈ entries, entry.isRegular ∧ entry.path = path
      · obtain ⟨entry, member, _, same⟩ := file
        exact ⟨entry, member, by rw [same]⟩
      · rw [expected_other fun entry member regular same => file ⟨entry, member, regular, same⟩] at value
        split at value
        · rename_i either
          exact either.resolve_left top
        · simp at value
    obtain ⟨entry, member, inside⟩ := found
    have legal : ∀ component ∈ path, LegalName component := fun component part =>
      (wellFormed.each entry member).legal component (inside.subset part)
    exact ⟨entry, member, path, inside, tree.parsePath_at legal there⟩

end Results

/-- Reading an encoded archive leaves exactly the expected filesystem. -/
theorem parseCpioDisk_stores {allocator : Allocator} (never : NeverFails allocator)
    {entries : List Entry} (wellFormed : WellFormedEntries entries) {fields : Nat → Nat}
    {upper : Nat → Nat → Bool} {disk : Archive} (written : disk.bytes = encode entries fields upper)
    (stack : Nat → Nat → UInt8) (calls : Nat) :
    ∃ fs, parseCpioDisk allocator (some disk) stack { initFs with calls := calls } = .ok (0, fs) ∧
      Stores fs.nodes (expected entries) := by
  have here : Continues disk 0 (encode entries fields upper) := by
    rw [Continues, List.drop_zero, written]
  have length := encode_length entries fields upper
  have size : disk.size = (encode entries fields upper).length := by rw [Archive.size, written]
  have start : Stores ({ initFs with calls := calls } : Fs).nodes (expected []) := initFs_stores
  have all : WellFormedEntries ([] ++ entries) := by simpa using wellFormed
  have enough : entries.length < disk.size / 110 + 1 := by omega
  exact parseRecords_entries never stack all start here (Nat.zero_le _) rfl enough

/-- Reading an encoded archive into a filesystem with the root alone gives back its entries: every
file holds its data, every directory entry is a directory, and every node other than the root is
an entry or a directory on the way to one. -/
theorem parseCpioDisk_encode (allocator : Allocator) (never : NeverFails allocator) (entries : List Entry)
    (wellFormed : WellFormedEntries entries) (fields : Nat → Nat) (upper : Nat → Nat → Bool)
    (disk : Archive) (written : disk.bytes = encode entries fields upper) (stack : Nat → Nat → UInt8)
    (calls : Nat) :
    ∃ fs, parseCpioDisk allocator (some disk) stack { initFs with calls := calls } = .ok (0, fs) ∧
      (∀ entry ∈ entries, entry.isRegular → ∀ buffer bufSize, buffer.null = false →
        entry.data.length ≤ bufSize →
        readFileContent (some (joinPath entry.path)) buffer bufSize fs = .ok (.success, entry.data)) ∧
      (∀ entry ∈ entries, entry.isDirectory → ∃ address file,
        parsePath fs.nodes (some (joinPath entry.path)) = .ok (.ok address) ∧
        fs.nodes.lookup address = some file ∧ file.isDirectory) ∧
      ∀ address ∈ fs.nodes, address = root ∨ ∃ entry ∈ entries, ∃ path, path <+: entry.path ∧
        parsePath fs.nodes (some (joinPath path)) = .ok (.ok address) ∧
        (path ≠ entry.path → ∃ file, fs.nodes.lookup address = some file ∧ file.isDirectory) := by
  obtain ⟨fs, result, stores⟩ := parseCpioDisk_stores never wellFormed written stack calls
  refine ⟨fs, result, ?_, ?_, ?_⟩
  · intro entry member regular buffer bufSize given room
    exact readFileContent_entry wellFormed stores member regular buffer bufSize given room
  · intro entry member directory
    apply directory_entry wellFormed stores member List.prefix_rfl
    intro _ regular
    rw [Entry.isRegular, directory] at regular
    exact absurd regular (by decide)
  · intro address live
    rcases node_entry wellFormed stores live with top | ⟨entry, member, path, inside, parsed⟩
    · exact Or.inl top
    · refine Or.inr ⟨entry, member, path, inside, parsed, ?_⟩
      intro proper
      obtain ⟨other, file, parsed', found, directory⟩ := directory_entry wellFormed stores member inside
        (fun same => absurd same proper)
      rw [parsed] at parsed'
      have same : address = other := Except.ok.inj (Except.ok.inj parsed')
      rw [same]
      exact ⟨file, found, directory⟩

/-- A file that precedes its directory. -/
def sampleEntries : List Entry :=
  [⟨[[97], [98]], 0o100644, [1, 2], true, fun _ => 0, fun _ _ => true⟩,
    ⟨[[97]], 0o040755, [], false, fun _ => 0, fun _ _ => false⟩]

def sampleDisk : Archive := ⟨encode sampleEntries (fun _ => 0) (fun _ _ => true), by decide +kernel⟩

/-- The sample entries are well formed. -/
theorem sampleEntries_wellFormed : WellFormedEntries sampleEntries where
  each := by
    intro entry member
    simp only [sampleEntries, List.mem_cons, List.not_mem_nil, or_false] at member
    rcases member with file | folder
    · subst file
      exact ⟨by decide, by unfold LegalName; decide, by decide, by decide, by decide, Or.inr (by rfl),
        by decide⟩
    · subst folder
      exact ⟨by decide, by unfold LegalName; decide, by decide, by decide, by decide, Or.inl (by rfl),
        by decide⟩
  distinct := by decide
  files := by
    intro entry member regular other otherMember inside
    simp only [sampleEntries, List.mem_cons, List.not_mem_nil, or_false] at member otherMember
    rcases member with file | folder
    · rcases otherMember with same | folder
      · rw [file, same]
      · subst file folder
        exact absurd inside (by decide)
    · subst folder
      exact absurd regular (by decide)

/-- The sample archive is read into the expected tree. -/
theorem parseCpioDisk_encode_sample :
    NeverFails bumpAllocator ∧ WellFormedEntries sampleEntries ∧
      ∃ fs, parseCpioDisk bumpAllocator (some sampleDisk) (fun _ _ => 0) { initFs with calls := 0 } =
          .ok (0, fs) ∧
        readFileContent (some [97, 47, 98]) ⟨false, fun _ => 0⟩ 2 fs = .ok (.success, [1, 2]) := by
  have never : NeverFails bumpAllocator := fun _ _ => ⟨_, rfl⟩
  obtain ⟨fs, result, files, _⟩ := parseCpioDisk_encode bumpAllocator never sampleEntries
    sampleEntries_wellFormed (fun _ => 0) (fun _ _ => true) sampleDisk rfl (fun _ _ => 0) 0
  exact ⟨never, sampleEntries_wellFormed, fs, result,
    files _ List.mem_cons_self rfl ⟨false, fun _ => 0⟩ 2 rfl (by decide)⟩

end ArchaOS.FileSystem
