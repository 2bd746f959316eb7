import ClassScope.Invocation.Reader
import ClassScope.Proofs.Run.Effect

/-! Runs that end with a fault. What is found before a file is read leaves no trace; edits that
cross leave the log; a file that cannot be written leaves the log and all that was put out before
it. -/
namespace ClassScope.Run
open FileTree

variable {i : Invocation} {settings : Settings} {tree tree' : FileTree} {files : List SourceFile}
  {s : State} {fault : Fault}

def Untouched (tree tree' : FileTree) : Prop :=
  ∀ place, tree'.entryAt? place = tree.entryAt? place

/-- A tree is untouched if no folder was made and what was last written to a file is what it
held. -/
theorem untouched_iff {made : List Place} {writes : List (Place × Content)}
    (h : Evolves tree tree' made writes) :
    Untouched tree tree' ↔ made = [] ∧ ∀ place content, latest? writes place = some content →
      tree.entryAt? place = some (.file content) := by
  constructor
  · intro hsame
    constructor
    · refine List.eq_nil_iff_forall_not_mem.mpr fun place hplace => ?_
      obtain ⟨hnone, hfolder⟩ := h.made_folder place hplace
      rw [hsame, hnone] at hfolder
      cases hfolder
    · intro place content hlast
      rw [← hsame, (h.written place content hlast).2]
  · rintro ⟨rfl, hsame⟩ place
    cases hlast : latest? writes place with
    | none => exact h.kept place List.not_mem_nil hlast
    | some content => rw [(h.written place content hlast).2, hsame place content hlast]

/-- The output stopped at `path` when the texts of the files `before` had been put out: there the
text of the next file was to go, or there was to be its folder. -/
def StopsAt (destination : Destination) (done before : List (SourceFile × Processed))
    (path : Path) : Prop :=
  ∃ item after out, done = before ++ item :: after ∧ output? destination item = some out ∧
    (path = out.1 ∨ out.1.parent? = some path)

/-- A run that ends with a fault does nothing if it gets to no file. If the edits of a file cross,
the log stays and nothing else. Otherwise the fault is a path that could not be written, and the log
and the texts of all files in front stay: then the tree is untouched only if they are what it held
before. -/
theorem fault_leaves_what_was_written (hrun : run i tree = (s, .error fault)) :
    (prepare i tree = .error fault ∧ fault ≠ .crossing ∧ (∀ path, fault ≠ .write path) ∧
        s = ⟨tree, []⟩) ∨
      (fault = .crossing ∧ ∃ settings files logged, prepare i tree = .ok (settings, files) ∧
        (processAll i settings tree files).2 = none ∧ s.printed = [] ∧
        Effect i settings [] tree s.tree [] logged []) ∨
      ∃ path settings files done before made logged writes,
        fault = .write path ∧ prepare i tree = .ok (settings, files) ∧
        (processAll i settings tree files).2 = some done ∧
        StopsAt i.destination done before path ∧
        Effect i settings (outputs i.destination before) tree s.tree made logged writes ∧
        (Untouched tree s.tree ↔ made = [] ∧
          ∀ place content, latest? (logged ++ writes) place = some content →
            tree.entryAt? place = some (.file content)) := by
  rcases prepare_cases i tree with
    ⟨settings, _, files, -, hprepare⟩ | ⟨other, herror, hcrossing, hwrite⟩
  · cases hall : (processAll i settings tree files).2 with
    | none =>
      rw [run_of_crossing hprepare hall] at hrun
      cases hrun
      obtain ⟨logged, hevolves, hlog⟩ := evolves_processAll i settings tree files
      have heffect : Effect i settings [] tree (processAll i settings tree files).1 [] logged [] :=
        ⟨by rwa [List.append_nil], hlog, fun _ => rfl, .nil⟩
      exact .inr (.inl ⟨rfl, settings, files, logged, hprepare, hall, rfl, heffect⟩)
    | some done =>
      obtain ⟨stop, hemission, hresult⟩ := emission_run hprepare hall hrun
      cases hemission with
      | all => cases hresult
      | @stopped before after item out path hdone hout hpath hemitted =>
        cases hresult
        obtain ⟨made, logged, writes, heffect⟩ := effect_of_emitted hemitted
        exact .inr (.inr ⟨path, settings, files, done, before, made, logged, writes, rfl, hprepare,
          hall, ⟨item, after, out, hdone, hout, hpath⟩, heffect, untouched_iff heffect.evolves⟩)
  · rw [run, herror] at hrun
    cases hrun
    exact .inl ⟨herror, hcrossing, hwrite, rfl⟩

def crossed : Invocation :=
  Invocation.Draft.invocation
    { paths := ["a.jsx", "b.jsx"].map String.toList, switches := [.write, .debugging]
      values := [(.debugLog, "log".toList)] }

/-- In the second file a segment is looked for behind the mark, and found inside another. -/
def crossedTree : FileTree where
  here := []
  entries :=
    [(["a.jsx".toList], .file (.text "<i className=\"a\" />;".toList)),
      (["b.jsx".toList],
        .file (.text "\uFEFF<i className=\x7b`$\x7b``\x7d$\x7b`$\x7bx\x7d\x7da`\x7da`\x7d/>".toList))]

example : (run crossed crossedTree).2 = .error .crossing ∧
    (run crossed crossedTree).1.tree.find? "a.jsx".toList = crossedTree.find? "a.jsx".toList ∧
    (run crossed crossedTree).1.tree.find? "log".toList =
      some (.file (.text "Original: \"a\" => Updated: \"app-a\"\n\n".toList)) := by
  decide +kernel

def obstructed : Invocation :=
  Invocation.Draft.invocation
    { paths := ["a.jsx", "b.jsx"].map String.toList, values := [(.outFolder, "out".toList)] }

def obstructedTree : FileTree where
  here := []
  entries :=
    [(["a.jsx".toList], .file (.text "<i className=\"a\" />;".toList)),
      (["b.jsx".toList], .file (.text "<i className=\"b\" />;".toList)),
      (["out".toList], .folder), (["out".toList, "b.jsx".toList], .folder)]

theorem obstructed_run_leaves_first_file :
    (run obstructed obstructedTree).2 = .error (.write "out/b.jsx".toList) ∧
      obstructedTree.find? "out/a.jsx".toList = none ∧
      (run obstructed obstructedTree).1.tree.find? "out/a.jsx".toList =
        some (.file (.text "<i className=\"app-a\" />;".toList)) ∧
      ∃ settings files done before,
        prepare obstructed obstructedTree = .ok (settings, files) ∧
        (processAll obstructed settings obstructedTree files).2 = some done ∧
        StopsAt obstructed.destination done before "out/b.jsx".toList ∧
        ¬ Untouched obstructedTree (run obstructed obstructedTree).1.tree := by
  have hfault : (run obstructed obstructedTree).2 = .error (.write "out/b.jsx".toList) := by
    decide +kernel
  have hnone : obstructedTree.entryAt? ["out".toList, "a.jsx".toList] = none := by decide +kernel
  have hsome : (run obstructed obstructedTree).1.tree.entryAt? ["out".toList, "a.jsx".toList] =
      some (.file (.text "<i className=\"app-a\" />;".toList)) := by decide +kernel
  have htouched : ¬ Untouched obstructedTree (run obstructed obstructedTree).1.tree := by
    intro hsame
    rw [hsame, hnone] at hsome
    cases hsome
  refine ⟨hfault, by decide +kernel, by decide +kernel, ?_⟩
  clear hsome
  generalize hrun : run obstructed obstructedTree = outcome at hfault htouched ⊢
  obtain ⟨s, result⟩ := outcome
  obtain rfl : result = .error (.write "out/b.jsx".toList) := hfault
  rcases fault_leaves_what_was_written hrun with ⟨-, -, hwrite, -⟩ | ⟨hcrossing, -⟩ | hstopped
  · exact absurd rfl (hwrite _)
  · cases hcrossing
  · obtain ⟨path, settings, files, done, before, _, _, _, hpath, hprepare, hall, hstop, -⟩ :=
      hstopped
    cases hpath
    exact ⟨settings, files, done, before, hprepare, hall, hstop, htouched⟩

end ClassScope.Run
