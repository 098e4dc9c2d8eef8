import ArchaOS.Proof.FileSystem.ReaderRule
import ArchaOS.Proof.FileSystem.RoundTrip

namespace ArchaOS.FileSystem

open Library

/-- A directory has no data. -/
def BareFolders (nodes : Nodes) : Prop :=
  ∀ address file, nodes.lookup address = some file → file.isDirectory →
    file.size = 0 ∧ file.data = none

/-- A new node that is a file or has no data keeps the directories bare. -/
theorem Placed.bareFolders {nodes nodes' : Nodes} {parent child : Nat} {name : CString}
    {data : Buffer} {size flags : Nat}
    (placed : Placed nodes nodes' parent child (newFile name data size flags))
    (bare : BareFolders nodes) (plain : size = 0 ∨ flags % 2 ^ 16 &&& fsIsDirectory = 0) :
    BareFolders nodes' := by
  intro address file found directory
  obtain ⟨held, origin, flagged, sized, stored⟩ := placed.contents found
  rw [File.isDirectory, flagged] at directory
  rw [sized, stored]
  rcases origin with rfl | old
  · rcases plain with empty | notDirectory
    · exact ⟨empty, if_pos empty⟩
    · exact absurd notDirectory directory
  · exact bare address held old directory

/-- A creation without data in a folder keeps every folder without data. -/
theorem createFile_bareFolders (allocator : Allocator) {fs : Fs} (tree : IsTree fs.nodes)
    (bare : BareFolders fs.nodes) (path : Option CString) (data : Buffer) {size flags : Nat}
    (plain : size = 0 ∨ flags % 2 ^ 16 &&& fsIsDirectory = 0) :
    ∃ status fs', createFile allocator path data size flags fs = .ok (status, fs') ∧
      IsTree fs'.nodes ∧ BareFolders fs'.nodes := by
  obtain ⟨kids, depth, shape⟩ := tree
  obtain ⟨status, fs', result, effect⟩ := createFile_cases allocator shape path data size flags
  refine ⟨status, fs', result, ?_⟩
  rcases effect with ⟨_, same⟩ | ⟨_, name, parent, child, _, creates⟩
  · rw [same]
    exact ⟨⟨kids, depth, shape⟩, bare⟩
  · exact ⟨⟨_, _, creates.tree shape⟩, creates.placed.bareFolders bare plain⟩

/-- The calls of the reader keep the tree and its bare directories. -/
theorem nodeFiles_bareFolders (allocator : Allocator) :
    (nodeFiles allocator).Keeps fun fs => IsTree fs.nodes ∧ BareFolders fs.nodes where
  folder := by
    intro path fs holds
    have empty : 0 = 0 ∨ fsIsDirectory % 2 ^ 16 &&& fsIsDirectory = 0 := Or.inl rfl
    simp only [nodeFiles, createFolder_eq]
    exact createFile_bareFolders allocator holds.1 holds.2 (some path) ⟨true, fun _ => 0⟩ empty
  file := by
    intro path data size fs _ holds
    exact createFile_bareFolders allocator holds.1 holds.2 (some path) data (Or.inr rfl)

/-- The root has no data. -/
theorem initFs_bareFolders : BareFolders initFs.nodes := by
  intro address file found _
  rw [(initFs_node found).2]
  exact ⟨rfl, rfl⟩

/-- After an archive no folder has data. -/
theorem parseCpioDisk_bareFolders {allocator : Allocator} {disk : Option Archive}
    {stack : Nat → Nat → UInt8} {calls : Nat} {code : Int} {fs : Fs}
    (result : parseCpioDisk allocator disk stack { initFs with calls := calls } = .ok (code, fs)) :
    BareFolders fs.nodes := by
  have start : IsTree ({ initFs with calls := calls } : Fs).nodes ∧
      BareFolders ({ initFs with calls := calls } : Fs).nodes := ⟨initFs_tree, initFs_bareFolders⟩
  obtain ⟨code', fs', returned, kept⟩ :=
    Files.parseCpioDisk_keeps (nodeFiles_bareFolders allocator) disk stack start
  rw [parseCpioDisk] at result
  rw [result] at returned
  obtain ⟨_, rfl⟩ := Prod.mk.inj (Except.ok.inj returned)
  exact kept.2

/-- Every path of the first filesystem leads to a node of the same type and data in the second. -/
def Within (left right : Nodes) : Prop :=
  ∀ path address file, At left path address → left.lookup address = some file →
    ∃ address' file', At right path address' ∧ right.lookup address' = some file' ∧
      (file'.isDirectory ↔ file.isDirectory) ∧ file'.size = file.size ∧ file'.data = file.data

/-- Two trees are equal up to the order of siblings. -/
def SameTree (left right : Nodes) : Prop := Within left right ∧ Within right left

/-- Nodes that hold the same abstract filesystem agree at every path. -/
theorem Stores.within {left right : Nodes} {store : Store} (one : Stores left store)
    (two : Stores right store) (oneBare : BareFolders left) (twoBare : BareFolders right) :
    Within left right := by
  intro path address file there found
  cases value : store path with
  | none => exact absurd there (one.absent path value address)
  | some content =>
      obtain ⟨kids, depth, tree⟩ := one.tree
      obtain ⟨first, firstFile, firstAt, firstFound, firstShows⟩ := one.present path content value
      obtain ⟨second, secondFile, secondAt, secondFound, secondShows⟩ :=
        two.present path content value
      obtain rfl := tree.at_unique there firstAt
      rw [found] at firstFound
      obtain rfl := Option.some.inj firstFound
      refine ⟨second, secondFile, secondAt, secondFound, ?_⟩
      cases content with
      | folder =>
          have left := oneBare address file found firstShows
          have right := twoBare second secondFile secondFound secondShows
          exact ⟨iff_of_true secondShows firstShows, right.1.trans left.1.symm,
            right.2.trans left.2.symm⟩
      | regular data =>
          exact ⟨iff_of_false secondShows.1 firstShows.1,
            secondShows.2.1.trans firstShows.2.1.symm,
            secondShows.2.2.trans firstShows.2.2.symm⟩

section Permutation

variable {entries permuted : List Entry} (order : entries.Perm permuted)
include order

/-- The entries are well formed in any order. -/
theorem WellFormedEntries.perm (wellFormed : WellFormedEntries entries) :
    WellFormedEntries permuted where
  each := fun entry member => wellFormed.each entry (order.mem_iff.mpr member)
  distinct := (order.map Entry.path).nodup_iff.mp wellFormed.distinct
  files := fun entry member regular other otherMember => wellFormed.files entry
    (order.mem_iff.mpr member) regular other (order.mem_iff.mpr otherMember)

/-- The expected filesystem does not depend on the order of the entries. -/
theorem expected_perm (wellFormed : WellFormedEntries entries) :
    expected entries = expected permuted := by
  funext path
  by_cases file : ∃ entry ∈ entries, entry.isRegular ∧ entry.path = path
  · obtain ⟨entry, member, regular, same⟩ := file
    rw [← same, expected_regular wellFormed.distinct member regular,
      expected_regular (wellFormed.perm order).distinct (order.mem_iff.mp member) regular]
  · have noneLeft : ∀ entry ∈ entries, entry.isRegular → entry.path ≠ path :=
      fun entry member regular same => file ⟨entry, member, regular, same⟩
    have noneRight : ∀ entry ∈ permuted, entry.isRegular → entry.path ≠ path :=
      fun entry member regular same =>
        file ⟨entry, order.mem_iff.mpr member, regular, same⟩
    have way : (∃ entry ∈ entries, path <+: entry.path) ↔ ∃ entry ∈ permuted, path <+: entry.path :=
      exists_congr fun entry => and_congr order.mem_iff Iff.rfl
    rw [expected_other noneLeft, expected_other noneRight]
    simp only [way]

end Permutation

/-- The order of the entries of an archive does not matter to the filesystem that it leaves. -/
theorem parseCpioDisk_perm {first second : Allocator} (firstNever : NeverFails first)
    (secondNever : NeverFails second) {entries permuted : List Entry}
    (order : entries.Perm permuted) (wellFormed : WellFormedEntries entries)
    {fields fields' : Nat → Nat} {upper upper' : Nat → Nat → Bool} {disk disk' : Archive}
    (written : disk.bytes = encode entries fields upper)
    (written' : disk'.bytes = encode permuted fields' upper') (stack stack' : Nat → Nat → UInt8)
    (calls calls' : Nat) :
    ∃ fs fs', parseCpioDisk first (some disk) stack { initFs with calls := calls } = .ok (0, fs) ∧
      parseCpioDisk second (some disk') stack' { initFs with calls := calls' } = .ok (0, fs') ∧
      SameTree fs.nodes fs'.nodes := by
  obtain ⟨fs, result, stores⟩ := parseCpioDisk_stores firstNever wellFormed written stack calls
  obtain ⟨fs', result', stores'⟩ :=
    parseCpioDisk_stores secondNever (wellFormed.perm order) written' stack' calls'
  rw [← expected_perm order wellFormed] at stores'
  have bare := parseCpioDisk_bareFolders result
  have bare' := parseCpioDisk_bareFolders result'
  exact ⟨fs, fs', result, result', stores.within stores' bare bare',
    stores'.within stores bare' bare⟩

/-- The archive of the sample entries with the directory first. -/
def reversedDisk : Archive :=
  ⟨encode sampleEntries.reverse (fun _ => 0) (fun _ _ => true), by decide +kernel⟩

/-- The sample archive in reverse order leaves the same tree. -/
theorem parseCpioDisk_perm_sample :
    NeverFails bumpAllocator ∧ WellFormedEntries sampleEntries ∧
      ∃ fs fs', parseCpioDisk bumpAllocator (some sampleDisk) (fun _ _ => 0)
            { initFs with calls := 0 } = .ok (0, fs) ∧
        parseCpioDisk bumpAllocator (some reversedDisk) (fun _ _ => 0)
            { initFs with calls := 0 } = .ok (0, fs') ∧
        SameTree fs.nodes fs'.nodes := by
  have never : NeverFails bumpAllocator := fun _ _ => ⟨_, rfl⟩
  have order : sampleEntries.Perm sampleEntries.reverse := (List.reverse_perm sampleEntries).symm
  refine ⟨never, sampleEntries_wellFormed, ?_⟩
  exact parseCpioDisk_perm never never order sampleEntries_wellFormed rfl rfl (fun _ _ => 0)
    (fun _ _ => 0) 0 0

end ArchaOS.FileSystem
