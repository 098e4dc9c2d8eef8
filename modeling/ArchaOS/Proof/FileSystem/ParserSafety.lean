import ArchaOS.Proof.FileSystem.RoundTrip

namespace ArchaOS.FileSystem

open Library

/-- The offsets and filesystems at the heads of the records that the reader visits. -/
inductive RecordHead (allocator : Allocator) (disk : Archive) (stack : Nat → Nat → UInt8) (fs : Fs) :
    Nat → Fs → Prop
  | first : RecordHead allocator disk stack fs 0 fs
  | next {offset next : Nat} {before after : Fs} :
      RecordHead allocator disk stack fs offset before →
      parseRecord allocator disk stack offset before = .ok (.next next after) →
      RecordHead allocator disk stack fs next after

/-- The reader returns without a fault, so no access leaves the archive or the name buffer and
every string it uses is terminated; each record starts inside the archive, and the next one at
least a header further. -/
structure SafeParse (allocator : Allocator) (disk : Archive) (stack : Nat → Nat → UInt8) (fs : Fs) :
    Prop where
  returns : ∃ code fs', parseCpioDisk allocator (some disk) stack fs = .ok (code, fs')
  rounds : ∀ offset before, RecordHead allocator disk stack fs offset before →
    ∃ progress, parseRecord allocator disk stack offset before = .ok progress
  inside : ∀ offset before, RecordHead allocator disk stack fs offset before → offset ≤ disk.size
  grows : ∀ offset before next after, RecordHead allocator disk stack fs offset before →
    parseRecord allocator disk stack offset before = .ok (.next next after) → offset + 110 ≤ next

/-- A round meets no fault, and it moves on by a whole header at least. -/
theorem parseRecord_sound (allocator : Allocator) {fs : Fs} (tree : IsTree fs.nodes) (disk : Archive)
    (stack : Nat → Nat → UInt8) (offset : Nat) :
    ∃ progress, parseRecord allocator disk stack offset fs = .ok progress ∧
      progress.Sound (fun after => IsTree after.nodes) disk (offset + 110) :=
  Files.parseRecord_keeps (keeps_tree allocator).files disk stack offset tree

/-- Every record starts inside the archive and on a tree. -/
theorem recordHead_sound {allocator : Allocator} {disk : Archive} {stack : Nat → Nat → UInt8} {fs : Fs}
    (tree : IsTree fs.nodes) {offset : Nat} {before : Fs}
    (head : RecordHead allocator disk stack fs offset before) :
    IsTree before.nodes ∧ offset ≤ disk.size := by
  induction head with
  | first => exact ⟨tree, Nat.zero_le _⟩
  | next previous result ih =>
      obtain ⟨progress, returned, sound⟩ := parseRecord_sound allocator ih.1 disk stack _
      rw [result] at returned
      rw [← Except.ok.inj returned] at sound
      exact ⟨sound.1, sound.2.2⟩

/-- From a tree the reader is safe. -/
theorem safeParse_of_tree (allocator : Allocator) (disk : Archive) (stack : Nat → Nat → UInt8) {fs : Fs}
    (tree : IsTree fs.nodes) : SafeParse allocator disk stack fs where
  returns := by
    obtain ⟨code, fs', result, _⟩ :=
      Files.parseCpioDisk_keeps (keeps_tree allocator).files (some disk) stack tree
    exact ⟨code, fs', result⟩
  rounds := by
    intro offset before head
    obtain ⟨progress, result, _⟩ :=
      parseRecord_sound allocator (recordHead_sound tree head).1 disk stack offset
    exact ⟨progress, result⟩
  inside := fun _ _ head => (recordHead_sound tree head).2
  grows := by
    intro offset before next after head result
    obtain ⟨progress, returned, sound⟩ :=
      parseRecord_sound allocator (recordHead_sound tree head).1 disk stack offset
    rw [result] at returned
    rw [← Except.ok.inj returned] at sound
    exact sound.2.1

/-- The reader is safe on every archive, from every state that a run of calls reaches. -/
theorem parseCpioDisk_safe (allocator : Allocator) (operations : List Operation) (disk : Archive)
    (stack : Nat → Nat → UInt8) :
    ∀ reached ∈ visited (step allocator) (.ok initFs) operations,
      ∃ fs, reached = .ok fs ∧ SafeParse allocator disk stack fs := by
  intro reached member
  obtain ⟨fs, same, tree⟩ := visited_tree allocator operations reached member
  exact ⟨fs, same, safeParse_of_tree allocator disk stack tree⟩

/-- An archive of folders and files is read into a filesystem that already has some. -/
theorem parseCpioDisk_safe_sample :
    ∃ fs, sampleOperations.foldl (step bumpAllocator) (.ok initFs) = .ok fs ∧
      SafeParse bumpAllocator sampleDisk (fun _ _ => 0) fs :=
  parseCpioDisk_safe bumpAllocator sampleOperations sampleDisk (fun _ _ => 0) _
    (visited_last (step bumpAllocator) (.ok initFs) sampleOperations)

end ArchaOS.FileSystem
