import ArchaOS.Proof.FileSystem.Resolution
import ArchaOS.Proof.FileSystem.TreeRun

namespace ArchaOS.FileSystem

section Links

variable {nodes nodes' : Nodes} (same : SameLinks nodes nodes')
include same

/-- No node is added. -/
theorem SameLinks.missing {address : Nat} (look : nodes.lookup address = none) :
    nodes'.lookup address = none := by
  rw [AList.lookup_eq_none, same.live, ← AList.lookup_eq_none]
  exact look

/-- Every component leads where it did. -/
theorem SameLinks.enter (kids : Nat → List Nat) : enter nodes' kids = enter nodes kids := by
  funext current component
  by_cases stay : component = [dot]
  · rw [FileSystem.enter, FileSystem.enter, if_pos stay, if_pos stay]
  · cases look : nodes.lookup current with
    | none =>
        rw [FileSystem.enter, FileSystem.enter, if_neg stay, if_neg stay, same.missing look, look]
    | some before =>
        obtain ⟨after, look', parent, _, flags, _⟩ := same.kept current before look
        have kind : after.isDirectory ↔ before.isDirectory := by
          unfold File.isDirectory
          rw [flags]
        rw [enter_live look' stay, enter_live look stay, parent]
        simp only [kind, same.name]

/-- Every path leads where it did. -/
theorem SameLinks.parsePath {kids : Nat → List Nat} {depth : Nat → Nat} (tree : Tree nodes kids depth)
    (path : Option CString) : parsePath nodes' path = parsePath nodes path := by
  cases path with
  | none => rfl
  | some path =>
      rw [tree.parsePath_resolve, (tree.sameLinks same).parsePath_resolve, resolve, resolve,
        same.enter kids]

end Links

/-- The bytes that a read gives after the first ones have been overwritten. -/
theorem take_overwritten {bytes : List UInt8} {size : Nat} (old : List UInt8) (fits : bytes.length ≤ size) :
    (bytes ++ old.drop bytes.length).take size = bytes ++ (old.take size).drop bytes.length := by
  rw [List.take_append, List.take_of_length_le fits, List.drop_take]

/-- A read of a regular file shows the bytes that have been written, and behind them the old ones. -/
theorem readAnswer_overwritten {file : File} {bufSize : Nat} (buffer : Buffer)
    (fits : bufSize ≤ file.size) (stored : bufSize ≠ 0 → file.data ≠ none) (out : Buffer)
    (outSize : Nat) : ∃ status old new, readAnswer file out outSize = (status, old) ∧
      readAnswer { file with data := file.data.map fun old => buffer.copy bufSize ++ old.drop bufSize }
        out outSize = (status, new) ∧
      (status = .success → new = buffer.copy bufSize ++ old.drop bufSize) ∧
      (status ≠ .success → new = old) := by
  have length := buffer.copy_length bufSize
  have contents : ((file.data.map fun old => buffer.copy bufSize ++ old.drop bufSize).getD []).take
      file.size = buffer.copy bufSize ++ ((file.data.getD []).take file.size).drop bufSize := by
    cases block : file.data with
    | none =>
        have empty : bufSize = 0 := by
          by_contra filled
          exact stored filled block
        simp [empty, Buffer.copy]
    | some old =>
        have joined := take_overwritten old (length.symm ▸ fits)
        rw [length] at joined
        exact joined
  have kind (data : Option (List UInt8)) :
      File.isDirectory { file with data := data } ↔ file.isDirectory := Iff.rfl
  simp only [readAnswer, kind, Option.map_eq_none_iff, contents]
  split_ifs
  · exact ⟨_, _, _, rfl, rfl, fun success => FsReturn.noConfusion success, fun _ => rfl⟩
  · exact ⟨_, _, _, rfl, rfl, fun success => FsReturn.noConfusion success, fun _ => rfl⟩
  · exact ⟨_, _, _, rfl, rfl, fun success => FsReturn.noConfusion success, fun _ => rfl⟩
  · exact ⟨_, _, _, rfl, rfl, fun success => FsReturn.noConfusion success, fun _ => rfl⟩
  · exact ⟨_, _, _, rfl, rfl, fun _ => rfl, fun failed => absurd rfl failed⟩

/-- After a write every read gives the status that it gave before. A read of the written file shows the
new bytes and behind them the old ones, every other read shows what it did, and no size changes. -/
theorem writeFileContent_visible {fs fs' : Fs} (tree : IsTree fs.nodes) (path : Option CString)
    (buffer : Buffer) (bufSize : Nat)
    (written : writeFileContent path buffer bufSize fs = .ok (.success, fs')) :
    ∃ target, parsePath fs.nodes path = .ok (.ok target) ∧
      (∀ address, (fs'.nodes.lookup address).map File.size = (fs.nodes.lookup address).map File.size) ∧
      ∀ other out outSize, ∃ status old new,
        readFileContent other out outSize fs = .ok (status, old) ∧
        readFileContent other out outSize fs' = .ok (status, new) ∧
        (parsePath fs.nodes other = .ok (.ok target) → status = .success →
          new = buffer.copy bufSize ++ old.drop bufSize) ∧
        (parsePath fs.nodes other ≠ .ok (.ok target) ∨ status ≠ .success → new = old) := by
  obtain ⟨target, file, writes⟩ := writeFileContent_success tree written
  obtain ⟨kids, depth, tree⟩ := tree
  have here : fs'.nodes.lookup target = some { file with
      data := file.data.map fun old => buffer.copy bufSize ++ old.drop bufSize } := by
    rw [writes.written, AList.lookup_insert]
  have elsewhere {address : Nat} (away : address ≠ target) :
      fs'.nodes.lookup address = fs.nodes.lookup address := by
    rw [writes.written, AList.lookup_insert_ne away]
  refine ⟨target, writes.parsed, ?_, ?_⟩
  · intro address
    by_cases same : address = target
    · rw [same, here, writes.found]
      rfl
    · rw [elsewhere same]
  · intro other out outSize
    have leads := writes.links.parsePath tree other
    obtain ⟨answer, parsed, inside⟩ := tree.parsePath_total other
    cases answer with
    | error status =>
        refine ⟨status, [], [], readFileContent_error parsed out outSize,
          readFileContent_error (leads.trans parsed) out outSize, ?_, fun _ => rfl⟩
        intro impossible
        rw [parsed] at impossible
        cases Except.ok.inj impossible
    | ok found =>
        obtain ⟨entry, look⟩ := lookup_of_mem inside
        have before := readFileContent_answer parsed look out outSize
        by_cases same : found = target
        · subst same
          obtain rfl : entry = file := Option.some.inj (look.symm.trans writes.found)
          have later := readFileContent_answer (leads.trans parsed) here out outSize
          obtain ⟨status, old, new, first, second, changed, kept⟩ :=
            readAnswer_overwritten buffer writes.fits writes.stored out outSize
          rw [first] at before
          rw [second] at later
          refine ⟨status, old, new, before, later, fun _ => changed, ?_⟩
          intro either
          rcases either with away | failed
          · exact absurd parsed away
          · exact kept failed
        · refine ⟨_, _, _, before, ?_, ?_, fun _ => rfl⟩
          · exact readFileContent_answer (leads.trans parsed) ((elsewhere same).trans look) out outSize
          · intro led
            exact absurd (Except.ok.inj (Except.ok.inj (parsed.symm.trans led))) same

/-- The first byte of a file of two bytes is overwritten. -/
theorem writeFileContent_visible_file : ∃ fs fs',
    createFile bumpAllocator (some [97]) ⟨false, fun _ => 1⟩ 2 0 initFs = .ok (.success, fs) ∧
    writeFileContent (some [97]) ⟨false, fun _ => 7⟩ 1 fs = .ok (.success, fs') ∧
    ∃ status old new, readFileContent (some [97]) ⟨false, fun _ => 0⟩ 2 fs = .ok (status, old) ∧
      readFileContent (some [97]) ⟨false, fun _ => 0⟩ 2 fs' = .ok (status, new) := by
  obtain ⟨fs, fs', created, written⟩ : ∃ fs fs',
      createFile bumpAllocator (some [97]) ⟨false, fun _ => 1⟩ 2 0 initFs = .ok (.success, fs) ∧
      writeFileContent (some [97]) ⟨false, fun _ => 7⟩ 1 fs = .ok (.success, fs') :=
    ⟨_, _, rfl, rfl⟩
  obtain ⟨status, after, result, tree⟩ :=
    createFile_tree bumpAllocator initFs_tree (some [97]) ⟨false, fun _ => 1⟩ 2 0
  obtain ⟨rfl, rfl⟩ := Prod.mk.inj (Except.ok.inj (result.symm.trans created))
  obtain ⟨target, _, _, reads⟩ := writeFileContent_visible tree (some [97]) _ _ written
  obtain ⟨status, old, new, before, later, _⟩ := reads (some [97]) ⟨false, fun _ => 0⟩ 2
  exact ⟨after, fs', created, written, status, old, new, before, later⟩

end ArchaOS.FileSystem
