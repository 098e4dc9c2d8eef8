import ArchaOS.Construction.FileRequests
import ArchaOS.Proof.FileSystem.TreeRun

namespace ArchaOS.FileSystem

/-- The caller sees the same nodes, the same bytes in its buffer and the same list pointer. -/
structure SameView (before after : Caller) : Prop where
  nodes : after.fs.nodes = before.fs.nodes
  buffer : after.buffer = before.buffer
  list : after.list = before.list

/-- A call returns, and unless it succeeds the caller sees no change. -/
def Atomic (caller : Caller) (call : Outcome (FsReturn × Caller)) : Prop :=
  ∃ status after, call = .ok (status, after) ∧ (status ≠ .success → SameView caller after)

@[simp] theorem Buffer.store_nil (buffer : Buffer) : buffer.store [] = buffer := rfl

/-- A call that changes the filesystem alone is atomic if its failures change no node. -/
theorem Caller.update_atomic (caller : Caller) {call : Outcome (FsReturn × Fs)}
    (returns : ∃ status fs', call = .ok (status, fs') ∧
      (status ≠ .success → fs'.nodes = caller.fs.nodes)) : Atomic caller (caller.update call) := by
  obtain ⟨status, fs', result, same⟩ := returns
  refine ⟨status, { caller with fs := fs' }, ?_, fun failed => ⟨same failed, rfl, rfl⟩⟩
  rw [Caller.update, result]
  rfl

section Calls

variable {fs : Fs} (tree : IsTree fs.nodes)
include tree

/-- `create_file` returns, and changes no node when it fails. -/
theorem createFile_failed (allocator : Allocator) (path : Option CString) (data : Buffer)
    (size flags : Nat) : ∃ status fs', createFile allocator path data size flags fs = .ok (status, fs') ∧
      (status ≠ .success → fs'.nodes = fs.nodes) := by
  obtain ⟨kids, depth, tree⟩ := tree
  obtain ⟨status, fs', result, effect⟩ := createFile_cases allocator tree path data size flags
  refine ⟨status, fs', result, ?_⟩
  intro failed
  rcases effect with ⟨_, same⟩ | ⟨success, _⟩
  · exact same
  · exact absurd success failed

/-- `delete_file` returns, and changes no node when it fails. -/
theorem deleteFile_failed (path : Option CString) : ∃ status fs', deleteFile path fs = .ok (status, fs') ∧
    (status ≠ .success → fs'.nodes = fs.nodes) := by
  obtain ⟨kids, depth, tree⟩ := tree
  obtain ⟨status, fs', result, _, effect⟩ := deleteFile_cases tree path
  refine ⟨status, fs', result, ?_⟩
  intro failed
  rcases effect with ⟨_, same⟩ | ⟨success, _⟩
  · rw [same]
  · exact absurd success failed

/-- `write_file_content` returns, and changes no node when it fails. -/
theorem writeFileContent_failed (path : Option CString) (buffer : Buffer) (bufSize : Nat) :
    ∃ status fs', writeFileContent path buffer bufSize fs = .ok (status, fs') ∧
      (status ≠ .success → fs'.nodes = fs.nodes) := by
  obtain ⟨status, fs', result, effect⟩ := writeFileContent_cases tree path buffer bufSize
  refine ⟨status, fs', result, ?_⟩
  intro failed
  rcases effect with ⟨_, same⟩ | ⟨success, _⟩
  · rw [same]
  · exact absurd success failed

/-- `list_files` returns, and leaves the list when it fails. -/
theorem listFiles_failed (path : Option CString) (list : Option Nat) :
    ∃ status list', listFiles path list fs = .ok (status, list') ∧ (status ≠ .success → list' = list) := by
  obtain ⟨kids, depth, tree⟩ := tree
  cases list with
  | none => exact ⟨.invArg, none, rfl, fun _ => rfl⟩
  | some old =>
      obtain ⟨result, parsed, inside⟩ := tree.parsePath_total path
      cases result with
      | error status =>
          refine ⟨status, some old, ?_, fun _ => rfl⟩
          simp only [listFiles, parsed, bind, Except.bind]
          rfl
      | ok target =>
          obtain ⟨file, found⟩ := lookup_of_mem inside
          refine ⟨.success, some file.children, ?_, fun failed => absurd rfl failed⟩
          simp only [listFiles, parsed, bind, Except.bind, load_ok found]
          rfl

end Calls

/-- Every filesystem call on a tree returns, and a call that does not succeed changes nothing that its
caller can see, wherever an allocation fails. -/
theorem request_atomic (allocator : Allocator) {caller : Caller} (tree : IsTree caller.fs.nodes)
    (request : Request) : ∃ status after, request.run allocator caller = .ok (status, after) ∧
      (status ≠ .success → SameView caller after) := by
  cases request with
  | createFile path size flags =>
      exact caller.update_atomic (createFile_failed tree allocator path caller.buffer size flags)
  | createFolder path =>
      apply caller.update_atomic
      rw [createFolder_eq]
      exact createFile_failed tree allocator path ⟨true, fun _ => 0⟩ 0 fsIsDirectory
  | deleteFile path => exact caller.update_atomic (deleteFile_failed tree path)
  | deleteFolder path =>
      apply caller.update_atomic
      rw [deleteFolder_eq]
      exact deleteFile_failed tree path
  | writeFileContent path bufSize =>
      exact caller.update_atomic (writeFileContent_failed tree path caller.buffer bufSize)
  | readFileContent path bufSize =>
      obtain ⟨status, bytes, result, nothing⟩ := readFileContent_cases tree path caller.buffer bufSize
      refine ⟨status, { caller with buffer := caller.buffer.store bytes }, ?_, ?_⟩
      · rw [Request.run, result]
        rfl
      · intro failed
        rw [nothing failed, Buffer.store_nil]
        exact ⟨rfl, rfl, rfl⟩
  | listFiles path =>
      obtain ⟨status, list, result, same⟩ := listFiles_failed tree path caller.list
      refine ⟨status, { caller with list := list }, ?_, fun failed => ⟨rfl, rfl, same failed⟩⟩
      rw [Request.run, result]
      rfl

/-- A heap without room. -/
def emptyHeap : Allocator where
  pick _ _ := none
  fresh := by simp

/-- The creation of a file in a heap without room. -/
theorem request_atomic_root : ∃ after,
    Request.run emptyHeap ⟨initFs, ⟨false, fun _ => 7⟩, none⟩ (.createFile (some [97]) 3 0) =
      .ok (.fail, after) ∧ SameView ⟨initFs, ⟨false, fun _ => 7⟩, none⟩ after := by
  obtain ⟨status, after, result, same⟩ := request_atomic emptyHeap
    (show IsTree (⟨initFs, ⟨false, fun _ => 7⟩, none⟩ : Caller).fs.nodes from initFs_tree)
    (.createFile (some [97]) 3 0)
  have failed : Request.run emptyHeap ⟨initFs, ⟨false, fun _ => 7⟩, none⟩ (.createFile (some [97]) 3 0) =
      .ok (.fail, ⟨⟨initFs.nodes, 1⟩, ⟨false, fun _ => 7⟩, none⟩) := rfl
  obtain ⟨rfl, rfl⟩ := Prod.mk.inj (Except.ok.inj (failed.symm.trans result))
  exact ⟨_, failed, same (by decide)⟩

end ArchaOS.FileSystem
