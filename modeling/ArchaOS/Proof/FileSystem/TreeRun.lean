import ArchaOS.Library.Runs
import ArchaOS.Proof.FileSystem.ReaderRule

namespace ArchaOS.FileSystem

open Library

/-- The calls of clients. -/
inductive Operation where
  | createFile (path : Option CString) (data : Buffer) (size flags : Nat)
  | createFolder (path : Option CString)
  | deleteFile (path : Option CString)
  | deleteFolder (path : Option CString)
  | writeFileContent (path : Option CString) (buffer : Buffer) (bufSize : Nat)
  | parseCpioDisk (disk : Option Archive) (stack : Nat → Nat → UInt8)

/-- The result of one call and the filesystem after it. -/
def Operation.run (allocator : Allocator) (fs : Fs) : Operation → Outcome ((FsReturn ⊕ Int) × Fs)
  | .createFile path data size flags =>
      (FileSystem.createFile allocator path data size flags fs).map fun result => (.inl result.1, result.2)
  | .createFolder path =>
      (FileSystem.createFolder allocator path fs).map fun result => (.inl result.1, result.2)
  | .deleteFile path => (FileSystem.deleteFile path fs).map fun result => (.inl result.1, result.2)
  | .deleteFolder path => (FileSystem.deleteFolder path fs).map fun result => (.inl result.1, result.2)
  | .writeFileContent path buffer bufSize =>
      (FileSystem.writeFileContent path buffer bufSize fs).map fun result => (.inl result.1, result.2)
  | .parseCpioDisk disk stack =>
      (FileSystem.parseCpioDisk allocator disk stack fs).map fun result => (.inr result.1, result.2)

/-- The filesystem after a call; a fault ends the run. -/
def step (allocator : Allocator) (state : Outcome Fs) (operation : Operation) : Outcome Fs := do
  let fs ← state
  let result ← operation.run allocator fs
  return result.2

/-- The calls that change the filesystem return and keep a property of it. -/
structure Keeps (allocator : Allocator) (invariant : Fs → Prop) : Prop where
  create : ∀ fs path data size flags, invariant fs →
    ∃ status fs', createFile allocator path data size flags fs = .ok (status, fs') ∧ invariant fs'
  delete : ∀ fs path, invariant fs →
    ∃ status fs', deleteFile path fs = .ok (status, fs') ∧ invariant fs'
  write : ∀ fs path buffer bufSize, invariant fs →
    ∃ status fs', writeFileContent path buffer bufSize fs = .ok (status, fs') ∧ invariant fs'

section Keeping

variable {allocator : Allocator} {invariant : Fs → Prop} (keeps : Keeps allocator invariant)
include keeps

/-- `create_folder` keeps the invariant. -/
theorem Keeps.folder (fs : Fs) (path : Option CString) (holds : invariant fs) :
    ∃ status fs', createFolder allocator path fs = .ok (status, fs') ∧ invariant fs' := by
  rw [createFolder_eq]
  exact keeps.create fs path ⟨true, fun _ => 0⟩ 0 fsIsDirectory holds

/-- The calls of the reader keep the invariant. -/
theorem Keeps.files : (nodeFiles allocator).Keeps invariant where
  folder := fun path fs holds => keeps.folder fs (some path) holds
  file := fun path data size fs _ holds => keeps.create fs (some path) data size 0 holds

/-- Every call of a client returns and keeps the property. -/
theorem Keeps.run {fs : Fs} (holds : invariant fs) (operation : Operation) :
    ∃ result, operation.run allocator fs = .ok result ∧ invariant result.2 := by
  cases operation with
  | createFile path data size flags =>
      obtain ⟨status, fs', result, after⟩ := keeps.create fs path data size flags holds
      exact ⟨(.inl status, fs'), by rw [Operation.run, result]; rfl, after⟩
  | createFolder path =>
      obtain ⟨status, fs', result, after⟩ := keeps.folder fs path holds
      exact ⟨(.inl status, fs'), by rw [Operation.run, result]; rfl, after⟩
  | deleteFile path =>
      obtain ⟨status, fs', result, after⟩ := keeps.delete fs path holds
      exact ⟨(.inl status, fs'), by rw [Operation.run, result]; rfl, after⟩
  | deleteFolder path =>
      obtain ⟨status, fs', result, after⟩ := keeps.delete fs path holds
      exact ⟨(.inl status, fs'), by rw [Operation.run, deleteFolder_eq, result]; rfl, after⟩
  | writeFileContent path buffer bufSize =>
      obtain ⟨status, fs', result, after⟩ := keeps.write fs path buffer bufSize holds
      exact ⟨(.inl status, fs'), by rw [Operation.run, result]; rfl, after⟩
  | parseCpioDisk disk stack =>
      obtain ⟨code, fs', result, after⟩ := Files.parseCpioDisk_keeps keeps.files disk stack holds
      exact ⟨(.inr code, fs'), by rw [Operation.run, FileSystem.parseCpioDisk, result]; rfl, after⟩

/-- One operation keeps the invariant. -/
theorem Keeps.step (state : Outcome Fs) (operation : Operation)
    (inside : ∃ fs, state = .ok fs ∧ invariant fs) :
    ∃ fs, step allocator state operation = .ok fs ∧ invariant fs := by
  obtain ⟨fs, same, holds⟩ := inside
  obtain ⟨result, returned, after⟩ := keeps.run holds operation
  refine ⟨result.2, ?_, after⟩
  simp only [FileSystem.step, same, returned, bind, Except.bind, pure, Except.pure]

/-- The property holds in the states of every run. -/
theorem Keeps.visited (initial : invariant initFs) (operations : List Operation) :
    ∀ reached ∈ visited (FileSystem.step allocator) (.ok initFs) operations,
      ∃ fs, reached = .ok fs ∧ invariant fs :=
  visited_always keeps.step ⟨initFs, rfl, initial⟩ operations

end Keeping

/-- Every call keeps the tree. -/
theorem keeps_tree (allocator : Allocator) : Keeps allocator fun fs => IsTree fs.nodes where
  create := fun _ path data size flags tree => createFile_tree allocator tree path data size flags
  delete := by
    intro fs path tree
    obtain ⟨status, fs', result, _, tree'⟩ := deleteFile_tree tree path
    exact ⟨status, fs', result, tree'⟩
  write := fun _ path buffer bufSize tree => writeFileContent_tree tree path buffer bufSize

/-- The states of every run hold a tree. -/
theorem visited_tree (allocator : Allocator) (operations : List Operation) :
    ∀ reached ∈ visited (step allocator) (.ok initFs) operations,
      ∃ fs, reached = .ok fs ∧ IsTree fs.nodes :=
  (keeps_tree allocator).visited initFs_tree operations

/-- Every run of calls keeps the nodes a finite tree below the root, and `delete_file` never
reports a damaged filesystem. -/
theorem filesystem_run (allocator : Allocator) (operations : List Operation) :
    ∀ reached ∈ visited (step allocator) (.ok initFs) operations, ∃ fs, reached = .ok fs ∧
      (∃ kids depth, Tree fs.nodes kids depth) ∧
      ∀ path, ∃ status fs', deleteFile path fs = .ok (status, fs') ∧ status ≠ .invalidFs := by
  intro reached member
  obtain ⟨fs, same, tree⟩ := visited_tree allocator operations reached member
  refine ⟨fs, same, tree, ?_⟩
  intro path
  obtain ⟨status, fs', result, valid, _⟩ := deleteFile_tree tree path
  exact ⟨status, fs', result, valid⟩

/-- A member of a list is at most its maximum. -/
theorem le_foldr_max {list : List Nat} {value : Nat} (member : value ∈ list) :
    value ≤ list.foldr max 0 := by
  induction list with
  | nil => simp at member
  | cons head rest ih =>
      rw [List.foldr_cons]
      rcases List.mem_cons.mp member with same | old
      · omega
      · have bound := ih old
        omega

/-- An allocator that hands out ever higher addresses. -/
def bumpAllocator : Allocator where
  pick nodes _ := some (nodes.keys.foldr max 0 + 1)
  fresh := by
    intro nodes call address picked
    have value := Option.some.inj picked
    refine ⟨by omega, ?_⟩
    intro live
    have bound := le_foldr_max (AList.mem_keys.mp live)
    omega

/-- The folder `d` with the folder `e` and a file `f` of two bytes in it, beside a file `a` of three. -/
def sampleOperations : List Operation :=
  [.createFolder (some [100]), .createFolder (some [100, 47, 101]),
    .createFile (some [100, 47, 102]) ⟨false, fun index => (7 + index).toUInt8⟩ 2 0,
    .createFile (some [97]) ⟨false, fun index => (1 + index).toUInt8⟩ 3 0]

def sampleFs : Fs :=
  (sampleOperations.foldl (step bumpAllocator) (.ok initFs)).toOption.getD initFs

/-- The operations of the sample lead to the sample. -/
theorem sampleFs_run : sampleOperations.foldl (step bumpAllocator) (.ok initFs) = .ok sampleFs := rfl

/-- The sample is a tree. -/
theorem sampleFs_tree : IsTree sampleFs.nodes := by
  have member := visited_last (step bumpAllocator) (.ok initFs) sampleOperations
  obtain ⟨fs, same, tree⟩ := visited_tree bumpAllocator sampleOperations _ member
  cases sampleFs_run.symm.trans same
  exact tree

/-- After `create_folder` every `delete_file` returns without `INVALID_FS`. -/
theorem filesystem_run_folder :
    ∃ fs, step bumpAllocator (.ok initFs) (.createFolder (some [97])) = .ok fs ∧
      (∃ kids depth, Tree fs.nodes kids depth) ∧
      ∀ path, ∃ status fs', deleteFile path fs = .ok (status, fs') ∧ status ≠ .invalidFs :=
  filesystem_run bumpAllocator [.createFolder (some [97])] _ (by simp [visited])

end ArchaOS.FileSystem
