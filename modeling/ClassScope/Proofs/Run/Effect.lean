import Mathlib.Data.List.Forall2
import ClassScope.Proofs.Discovery
import ClassScope.Run

/-! What a run does to the file tree. While files are processed only the log is written; then their
new texts are put out one after the other, up to the first that cannot be written. -/
namespace ClassScope.Run
open FileTree

variable {i : Invocation} {settings : Settings} {tree tree' : FileTree}

/-! Processing. -/

/-- The place of the log, if there is one to be kept. -/
def IsLog (i : Invocation) (settings : Settings) (tree : FileTree) (place : Place) : Prop :=
  settings.debugging = true ∧ tree.target? i.debugLog = some place

theorem isLog_iff {writes : List (Place × Content)} (h : Evolves tree tree' [] writes)
    {place : Place} : IsLog i settings tree' place ↔ IsLog i settings tree place := by
  rw [IsLog, IsLog, h.target?_eq]

theorem evolves_addAll (log : Path) (tree : FileTree) (events : List Event) :
    ∃ writes, Evolves tree (Journal.addAll log tree events) [] writes ∧
      ∀ w ∈ writes, tree.target? log = some w.1 := by
  induction events generalizing tree with
  | nil => exact ⟨[], .refl tree, nofun⟩
  | cons e events ih =>
    obtain ⟨rest, hrest, hlog⟩ := ih (Journal.add log tree e)
    rw [Journal.addAll, List.foldl_cons]
    cases happend : tree.append? log (Journal.record e) with
    | none =>
      have hadd : Journal.add log tree e = tree := by rw [Journal.add, happend, Option.getD_none]
      rw [hadd] at hrest hlog ⊢
      exact ⟨rest, hrest, hlog⟩
    | some next =>
      have hadd : Journal.add log tree e = next := by rw [Journal.add, happend, Option.getD_some]
      rw [hadd] at hrest hlog ⊢
      obtain ⟨place, content, hplace, hnext⟩ := append?_eq_some happend
      refine ⟨_, hnext.trans hrest, fun w hw => ?_⟩
      rcases List.mem_append.mp hw with hw | hw
      · rw [List.mem_singleton.mp hw, hplace]
      · rw [← hnext.target?_eq, hlog w hw]

theorem evolves_process (i : Invocation) (settings : Settings) (tree : FileTree) (path : Path) :
    ∃ writes, Evolves tree (process i settings tree path).1 [] writes ∧
      ∀ w ∈ writes, IsLog i settings tree w.1 := by
  have hstays : ∃ writes, Evolves tree tree [] writes ∧ ∀ w ∈ writes, IsLog i settings tree w.1 :=
    ⟨[], .refl tree, nofun⟩
  unfold process
  split
  · split
    · dsimp only
      split_ifs with hdebugging
      · obtain ⟨writes, hwrites, hlog⟩ := evolves_addAll i.debugLog tree _
        exact ⟨writes, hwrites, fun w hw => ⟨hdebugging, hlog w hw⟩⟩
      · exact hstays
    · exact hstays
  · exact hstays
  · exact hstays

/-- What a file can come to: its text was qualified, or it failed. -/
theorem process_cases {path : Path} {p : Processed}
    (h : (process i settings tree path).2 = some p) :
    (∃ t product, tree.find? path = some (.file (.text t)) ∧
        qualify i.strategy settings path t = .ok product ∧ p = processed path t product) ∨
      ∃ message, p = ⟨.failed path message, none⟩ ∧
        ∀ t product, tree.find? path = some (.file (.text t)) →
          qualify i.strategy settings path t ≠ .ok product := by
  unfold process at h
  split at h
  · rename_i t hfile
    split at h
    · rename_i product hproduct
      cases h
      exact .inl ⟨t, product, hfile, hproduct, rfl⟩
    · rename_i fault hfault
      obtain ⟨message, -, rfl⟩ := Option.map_eq_some_iff.mp h
      refine .inr ⟨message, rfl, fun t' product hfile' => ?_⟩
      rw [hfile] at hfile'
      cases hfile'
      rw [hfault]
      nofun
  · rename_i hfile
    cases h
    refine .inr ⟨_, rfl, fun t product hfile' => ?_⟩
    rw [hfile] at hfile'
    cases hfile'
  · rename_i hnot _
    cases h
    exact .inr ⟨_, rfl, fun t product hfile => absurd hfile (hnot t)⟩

/-- A step of the processing: of the tree it reads no more than what the path names. -/
theorem process_snd_eq {path : Path} (h : tree'.find? path = tree.find? path) :
    (process i settings tree' path).2 = (process i settings tree path).2 := by
  unfold process
  rw [h]
  split
  · split <;> rfl
  · rfl
  · rfl

theorem process_snd_of_logged {writes : List (Place × Content)} (h : Evolves tree tree' [] writes)
    (hlog : ∀ w ∈ writes, IsLog i settings tree w.1) {path : Path} {place : Place}
    (hplace : tree.locate? path = some place) (hnot : ¬ IsLog i settings tree place) :
    (process i settings tree' path).2 = (process i settings tree path).2 := by
  have hnone : latest? writes place = none :=
    latest?_eq_none_iff.mpr fun w hw heq => hnot (heq ▸ hlog w hw)
  refine process_snd_eq ?_
  rw [find?_of_locate? hplace, find?_of_locate? (h.locate?_eq hplace),
    h.kept place List.not_mem_nil hnone]

theorem processAll_of_none {file : SourceFile}
    (h : (process i settings tree file.path).2 = none) (files : List SourceFile) :
    processAll i settings tree (file :: files) =
      ((process i settings tree file.path).1, none) := by
  rw [processAll]
  rcases hprocess : process i settings tree file.path with ⟨next, result⟩
  rw [hprocess] at h
  cases h
  rfl

theorem processAll_of_some {file : SourceFile} {p : Processed}
    (h : (process i settings tree file.path).2 = some p) (files : List SourceFile) :
    processAll i settings tree (file :: files) =
      ((processAll i settings (process i settings tree file.path).1 files).1,
        (processAll i settings (process i settings tree file.path).1 files).2.map
          ((file, p) :: ·)) := by
  rw [processAll]
  rcases hprocess : process i settings tree file.path with ⟨next, result⟩
  rw [hprocess] at h
  cases h
  rfl

theorem processAll_cons_eq_some {file : SourceFile} {files : List SourceFile}
    {done : List (SourceFile × Processed)} :
    (processAll i settings tree (file :: files)).2 = some done ↔
      ∃ p rest, (process i settings tree file.path).2 = some p ∧
        (processAll i settings (process i settings tree file.path).1 files).2 = some rest ∧
        (file, p) :: rest = done := by
  cases hp : (process i settings tree file.path).2 with
  | none => simp [processAll_of_none hp]
  | some p => simp [processAll_of_some hp]

theorem evolves_processAll (i : Invocation) (settings : Settings) (tree : FileTree)
    (files : List SourceFile) :
    ∃ writes, Evolves tree (processAll i settings tree files).1 [] writes ∧
      ∀ w ∈ writes, IsLog i settings tree w.1 := by
  induction files generalizing tree with
  | nil => exact ⟨[], .refl tree, nofun⟩
  | cons file files ih =>
    obtain ⟨first, hfirst, hlog⟩ := evolves_process i settings tree file.path
    cases hp : (process i settings tree file.path).2 with
    | none =>
      rw [processAll_of_none hp]
      exact ⟨first, hfirst, hlog⟩
    | some p =>
      obtain ⟨rest, hrest, hlog'⟩ := ih (process i settings tree file.path).1
      rw [processAll_of_some hp]
      refine ⟨first ++ rest, hfirst.trans hrest, fun w hw => ?_⟩
      rcases List.mem_append.mp hw with hw | hw
      · exact hlog w hw
      · exact (isLog_iff hfirst).mp (hlog' w hw)

/-- What each file comes to in the tree as it stands. -/
def findings (i : Invocation) (settings : Settings) (tree : FileTree) (files : List SourceFile) :
    List (SourceFile × Option Processed) :=
  files.map fun file => (file, (process i settings tree file.path).2)

def finished (done : List (SourceFile × Processed)) : List (SourceFile × Option Processed) :=
  done.map fun item => (item.1, some item.2)

theorem finished_eq_cons_iff {done : List (SourceFile × Processed)} {file : SourceFile}
    {result : Option Processed} {results : List (SourceFile × Option Processed)} :
    finished done = (file, result) :: results ↔
      ∃ p rest, result = some p ∧ finished rest = results ∧ (file, p) :: rest = done := by
  constructor
  · intro h
    obtain ⟨⟨file', p⟩, rest, rfl, hitem, hrest⟩ := List.map_eq_cons_iff.mp h
    cases hitem
    exact ⟨p, rest, rfl, hrest, rfl⟩
  · rintro ⟨p, rest, rfl, rfl, rfl⟩
    rfl

theorem mem_of_finished {files : List SourceFile} {done : List (SourceFile × Processed)}
    (h : finished done = findings i settings tree files) {item : SourceFile × Processed}
    (hitem : item ∈ done) :
    item.1 ∈ files ∧ (process i settings tree item.1.path).2 = some item.2 := by
  have hmem : (item.1, some item.2) ∈ findings i settings tree files :=
    h ▸ List.mem_map_of_mem hitem
  obtain ⟨file, hfile, heq⟩ := List.mem_map.mp hmem
  obtain ⟨hsame, hresult⟩ := Prod.mk.inj heq
  exact hsame ▸ ⟨hfile, hresult⟩

theorem exists_of_finished {files : List SourceFile} {done : List (SourceFile × Processed)}
    (h : finished done = findings i settings tree files) {file : SourceFile}
    (hfile : file ∈ files) :
    ∃ p, (file, p) ∈ done ∧ (process i settings tree file.path).2 = some p := by
  have hmem : (file, (process i settings tree file.path).2) ∈ finished done :=
    h ▸ List.mem_map_of_mem hfile
  obtain ⟨⟨file', p⟩, hitem, heq⟩ := List.mem_map.mp hmem
  obtain ⟨hsame, hresult⟩ := Prod.mk.inj heq
  exact ⟨p, hsame ▸ hitem, hresult.symm⟩

theorem processAll_snd {files : List SourceFile}
    (hfiles : ∀ file ∈ files, ∃ place, tree.locate? file.path = some place ∧
      ¬ IsLog i settings tree place) {done : List (SourceFile × Processed)} :
    (processAll i settings tree files).2 = some done ↔
      finished done = findings i settings tree files := by
  induction files generalizing tree done with
  | nil => cases done <;> simp [processAll, finished, findings]
  | cons file files ih =>
    obtain ⟨writes, hwrites, hlog⟩ := evolves_process i settings tree file.path
    have hrest : ∀ other ∈ files, ∃ place, tree.locate? other.path = some place ∧
        ¬ IsLog i settings tree place :=
      fun other hother => hfiles other (List.mem_cons_of_mem _ hother)
    have hlater : ∀ other ∈ files, ∃ place,
        (process i settings tree file.path).1.locate? other.path = some place ∧
          ¬ IsLog i settings (process i settings tree file.path).1 place := by
      intro other hother
      obtain ⟨place, hplace, hnot⟩ := hrest other hother
      exact ⟨place, hwrites.locate?_eq hplace, fun h => hnot ((isLog_iff hwrites).mp h)⟩
    have hsame : findings i settings (process i settings tree file.path).1 files =
        findings i settings tree files := by
      refine List.map_congr_left fun other hother => ?_
      obtain ⟨place, hplace, hnot⟩ := hrest other hother
      rw [process_snd_of_logged hwrites hlog hplace hnot]
    have hcons : findings i settings tree (file :: files) =
        (file, (process i settings tree file.path).2) :: findings i settings tree files := rfl
    rw [processAll_cons_eq_some, hcons, finished_eq_cons_iff]
    simp only [ih hlater, hsame]

/-! Putting out. -/

def outputPath? : Destination → SourceFile → Option Path
  | .stdout, _ => none
  | .inPlace, file => some file.path
  | .folder folder, file => some (folder.join file.relative)

/-- What is written for a file, and where. -/
def output? (destination : Destination) : SourceFile × Processed → Option (Path × Text)
  | (file, p) =>
    if p.report.status = .unchanged ∧ destination = .inPlace then none
    else (outputPath? destination file).bind fun path => p.code.map (path, ·)

theorem output?_eq_some_iff {destination : Destination} {item : SourceFile × Processed}
    {out : Path × Text} :
    output? destination item = some out ↔
      outputPath? destination item.1 = some out.1 ∧ item.2.code = some out.2 ∧
        ¬(item.2.report.status = .unchanged ∧ destination = .inPlace) := by
  obtain ⟨file, p⟩ := item
  obtain ⟨path, code⟩ := out
  simp only [output?, Option.ite_none_left_eq_some, Option.bind_eq_some_iff, Option.map_eq_some_iff]
  constructor
  · rintro ⟨hsame, path', hpath, code', hcode, heq⟩
    cases heq
    exact ⟨hpath, hcode, hsame⟩
  · rintro ⟨hpath, hcode, hsame⟩
    exact ⟨hsame, path, hpath, code, hcode, rfl⟩

def outputs (destination : Destination) (done : List (SourceFile × Processed)) :
    List (Path × Text) :=
  done.filterMap (output? destination)

/-- The texts were written to the places that their paths name. -/
def Stored (tree : FileTree) : List (Path × Text) → List (Place × Content) → Prop :=
  List.Forall₂ fun out w => tree.locate? out.1 = some w.1 ∧ w.2 = .text out.2

theorem exists_mem_of_forall₂ {α β : Type} {R : α → β → Prop} {xs : List α} {ys : List β} {x : α}
    (h : List.Forall₂ R xs ys) (hx : x ∈ xs) : ∃ y ∈ ys, R x y := by
  induction h with
  | nil => cases hx
  | @cons _ y _ ys hxy _ ih =>
    rcases List.mem_cons.mp hx with rfl | hx
    · exact ⟨y, List.mem_cons_self, hxy⟩
    · obtain ⟨z, hz, hxz⟩ := ih hx
      exact ⟨z, List.mem_cons_of_mem y hz, hxz⟩

namespace Stored

variable {outs : List (Path × Text)} {writes : List (Place × Content)}

theorem exists_write (h : Stored tree outs writes) {out : Path × Text} (hout : out ∈ outs) :
    ∃ place, (place, .text out.2) ∈ writes ∧ tree.locate? out.1 = some place := by
  obtain ⟨⟨place, content⟩, hw, hplace, rfl⟩ := exists_mem_of_forall₂ h hout
  exact ⟨place, hw, hplace⟩

theorem exists_output (h : Stored tree outs writes) {w : Place × Content} (hw : w ∈ writes) :
    ∃ out ∈ outs, tree.locate? out.1 = some w.1 ∧ w.2 = .text out.2 :=
  exists_mem_of_forall₂ (List.Forall₂.flip h) hw

end Stored

/-- The tree became another one when these texts were put out: they were written, and folders were
made for them if they do not go to the files that they came from. -/
def Emitted (destination : Destination) (outs : List (Path × Text)) (tree tree' : FileTree) :
    Prop :=
  ∃ made writes, Evolves tree tree' made writes ∧ (destination = .inPlace → made = []) ∧
    Stored tree' outs writes

variable {destination : Destination} {alone : Bool} {s s' : State}

namespace Emitted

variable {outs outs' : List (Path × Text)} {tree'' : FileTree}

protected theorem refl (destination : Destination) (tree : FileTree) :
    Emitted destination [] tree tree :=
  ⟨[], [], .refl tree, fun _ => rfl, .nil⟩

protected theorem trans (h : Emitted destination outs tree tree')
    (h' : Emitted destination outs' tree' tree'') :
    Emitted destination (outs ++ outs') tree tree'' := by
  obtain ⟨made, writes, hevolves, hmade, hstored⟩ := h
  obtain ⟨made', writes', hevolves', hmade', hstored'⟩ := h'
  have hstays : Stored tree'' outs writes :=
    hstored.imp fun _ _ hout => ⟨hevolves'.locate?_eq hout.1, hout.2⟩
  refine ⟨_, _, hevolves.trans hevolves', fun hd => ?_, List.rel_append hstays hstored'⟩
  rw [hmade hd, hmade' hd]
  rfl

end Emitted

theorem store_cases (destination : Destination) {path : Path} {code : Text} {fault : Option Fault}
    (h : store s path code = (s', fault)) :
    fault = none ∧ Emitted destination [(path, code)] s.tree s'.tree ∨
      fault = some (.write path) ∧ s' = s := by
  unfold store at h
  split at h
  · rename_i next hwrite
    cases h
    obtain ⟨place, hevolves, hplace⟩ := write?_eq_some hwrite
    exact .inl ⟨rfl, [], _, hevolves, fun _ => rfl, .cons ⟨hplace, rfl⟩ .nil⟩
  · cases h
    exact .inr ⟨rfl, rfl⟩

/-- A step of the output. Either the text is written, or a fault names what could not be made: the
file, or the folder that it was to be in. -/
theorem emit_cases {file : SourceFile} {code : Text} {fault : Option Fault}
    (h : emit destination alone s file code = (s', fault)) :
    fault = none ∧
        Emitted destination ((outputPath? destination file).toList.map (·, code)) s.tree s'.tree ∨
      ∃ out path, outputPath? destination file = some out ∧ (path = out ∨ out.parent? = some path) ∧
        fault = some (.write path) ∧ Emitted destination [] s.tree s'.tree := by
  cases destination with
  | stdout =>
    cases h
    exact .inl ⟨rfl, .refl _ _⟩
  | inPlace =>
    rcases store_cases .inPlace h with hstored | ⟨hfault, rfl⟩
    · exact .inl hstored
    · exact .inr ⟨file.path, file.path, rfl, .inl rfl, hfault, .refl _ _⟩
  | folder folder =>
    have hstore : ∀ t : State, Emitted (.folder folder) [] s.tree t.tree →
        store t (folder.join file.relative) code = (s', fault) →
        fault = none ∧ Emitted (.folder folder) [(folder.join file.relative, code)] s.tree s'.tree ∨
          fault = some (.write (folder.join file.relative)) ∧
            Emitted (.folder folder) [] s.tree s'.tree := by
      intro t ht hstore
      rcases store_cases (.folder folder) hstore with ⟨hfault, hstored⟩ | ⟨hfault, rfl⟩
      · exact .inl ⟨hfault, ht.trans hstored⟩
      · exact .inr ⟨hfault, ht⟩
    have hfolders : ∀ parent, Emitted (.folder folder) [] s.tree (s.tree.makeFolders parent).1 := by
      intro parent
      obtain ⟨made, hmade⟩ := evolves_makeFoldersFrom s.tree (s.tree.origin parent) parent.pieces
      exact ⟨made, [], hmade, nofun, .nil⟩
    simp only [emit] at h
    split at h
    · rcases hstore s (.refl _ _) h with hstored | ⟨hfault, hstays⟩
      · exact .inl hstored
      · exact .inr ⟨_, _, rfl, .inl rfl, hfault, hstays⟩
    · rename_i parent hparent
      have hmade := hfolders parent
      split at h
      · rename_i next hnext
        rw [hnext] at hmade
        rcases hstore { s with tree := next } hmade h with hstored | ⟨hfault, hstays⟩
        · exact .inl hstored
        · exact .inr ⟨_, _, rfl, .inl rfl, hfault, hstays⟩
      · rename_i next hnext
        rw [hnext] at hmade
        cases h
        exact .inr ⟨_, _, rfl, .inr hparent, rfl, hmade⟩

/-- How the output of files can end: all texts are written, or those of the files in front of the
one at which it stops. -/
inductive Emission (destination : Destination) (done : List (SourceFile × Processed))
    (tree tree' : FileTree) : Option Fault → Prop
  | all (h : Emitted destination (outputs destination done) tree tree') :
      Emission destination done tree tree' none
  | stopped {before after : List (SourceFile × Processed)} {item : SourceFile × Processed}
      {out : Path × Text} {path : Path} (hdone : done = before ++ item :: after)
      (hout : output? destination item = some out)
      (hpath : path = out.1 ∨ out.1.parent? = some path)
      (h : Emitted destination (outputs destination before) tree tree') :
      Emission destination done tree tree' (some (.write path))

theorem Emission.cons {item : SourceFile × Processed} {done : List (SourceFile × Processed)}
    {tree'' : FileTree} {fault : Option Fault}
    (hitem : Emitted destination (output? destination item).toList tree tree')
    (h : Emission destination done tree' tree'' fault) :
    Emission destination (item :: done) tree tree'' fault := by
  have houts : ∀ rest, (output? destination item).toList ++ outputs destination rest =
      outputs destination (item :: rest) := by
    intro rest
    rw [outputs, outputs, List.filterMap_cons]
    cases output? destination item <;> rfl
  cases h with
  | all h =>
    refine .all ?_
    rw [← houts]
    exact hitem.trans h
  | @stopped before after other out path hdone hout hpath h =>
    have hsplit : item :: done = (item :: before) ++ other :: after := by rw [hdone]; rfl
    refine .stopped hsplit hout hpath ?_
    rw [← houts]
    exact hitem.trans h

theorem emission_emitAll {done : List (SourceFile × Processed)} {fault : Option Fault}
    (h : emitAll destination alone s done = (s', fault)) :
    Emission destination done s.tree s'.tree fault := by
  induction done generalizing s with
  | nil =>
    cases h
    exact .all (.refl _ _)
  | cons item done ih =>
    obtain ⟨file, p⟩ := item
    have hskip : output? destination (file, p) = none →
        Emitted destination (output? destination (file, p)).toList s.tree s.tree := by
      intro hnone
      rw [hnone]
      exact .refl _ _
    rw [emitAll] at h
    split at h
    · rename_i hcode
      refine .cons (hskip ?_) (ih h)
      simp [output?, hcode]
    · rename_i code hcode
      split_ifs at h with hsame
      · exact .cons (hskip (if_pos hsame)) (ih h)
      · have hout : output? destination (file, p) =
            (outputPath? destination file).map (·, code) := by
          rw [output?, if_neg hsame, hcode]
          cases outputPath? destination file <;> rfl
        split at h
        · rename_i t hemit
          rcases emit_cases hemit with ⟨-, hemitted⟩ | ⟨_, _, _, _, hfault, _⟩
          · refine .cons ?_ (ih h)
            rw [hout]
            cases hpath : outputPath? destination file <;> rw [hpath] at hemitted <;> exact hemitted
          · cases hfault
        · rename_i t fault hemit
          cases h
          rcases emit_cases hemit with ⟨hnone, -⟩ | ⟨out, path, hpath, hnamed, hfault, hemitted⟩
          · cases hnone
          · rw [hfault]
            rw [hpath, Option.map_some] at hout
            exact .stopped (List.nil_append _).symm hout hnamed hemitted

/-! A whole run. -/

theorem ignoredBy_eq_error {globs : List Text} {fault : Fault}
    (h : ignoredBy globs = .error fault) : ∃ text, fault = .glob text := by
  simp only [ignoredBy, bind, Except.bind] at h
  split at h
  · rename_i hread
    cases h
    obtain ⟨-, text, -, -, -, htext⟩ := Discovery.mapM_eq_error_iff.mp hread
    split at htext <;> cases htext
    exact ⟨text, rfl⟩
  · cases h

/-- What comes before the files: it is in order, or the settings, a glob or a path is not. -/
theorem prepare_cases (i : Invocation) (tree : FileTree) :
    (∃ settings ignored files, Discovery.ofRoots tree ignored i.paths = .ok files ∧
        prepare i tree = .ok (settings, files)) ∨
      ∃ fault, prepare i tree = .error fault ∧ fault ≠ .crossing ∧
        ∀ path, fault ≠ .write path := by
  unfold prepare
  cases i.settings with
  | error fault => exact .inr ⟨.settings fault, rfl, nofun, nofun⟩
  | ok settings =>
    cases hignored : ignoredBy (i.ignored ++ defaultGlobs) with
    | error fault =>
      obtain ⟨text, rfl⟩ := ignoredBy_eq_error hignored
      exact .inr ⟨.glob text, rfl, nofun, nofun⟩
    | ok ignored =>
      cases hfiles : Discovery.ofRoots tree ignored i.paths with
      | error missing =>
        refine .inr ⟨.missing missing.path, ?_, nofun, nofun⟩
        simp only [bind, Except.bind, Except.mapError, hfiles]
      | ok files =>
        refine .inl ⟨settings, ignored, files, hfiles, ?_⟩
        simp only [bind, Except.bind, Except.mapError, hfiles]
        rfl

variable {files : List SourceFile}

theorem found_of_prepare (h : tree.Sound) (hprepare : prepare i tree = .ok (settings, files))
    {file : SourceFile} (hfile : file ∈ files) : Discovery.Found tree file := by
  rcases prepare_cases i tree with ⟨_, ignored, found, hfound, hok⟩ | ⟨_, herror, -, -⟩
  · rw [hprepare] at hok
    cases hok
    exact Discovery.found_of_mem h hfound hfile
  · rw [hprepare] at herror
    cases herror

/-- What a run has done to a tree when these texts are put out: it kept its log, made folders and
wrote the texts. -/
structure Effect (i : Invocation) (settings : Settings) (outs : List (Path × Text))
    (tree tree' : FileTree) (made : List Place) (logged writes : List (Place × Content)) :
    Prop where
  evolves : Evolves tree tree' made (logged ++ writes)
  is_log : ∀ w ∈ logged, IsLog i settings tree w.1
  in_place : i.destination = .inPlace → made = []
  stored : Stored tree' outs writes

theorem effect_of_emitted {outs : List (Path × Text)}
    (h : Emitted i.destination outs (processAll i settings tree files).1 tree') :
    ∃ made logged writes, Effect i settings outs tree tree' made logged writes := by
  obtain ⟨logged, hlogged, hlog⟩ := evolves_processAll i settings tree files
  obtain ⟨made, writes, hwrites, hmade, hstored⟩ := h
  exact ⟨made, logged, writes, hlogged.trans hwrites, hlog, hmade, hstored⟩

variable {done : List (SourceFile × Processed)}

/-- Edits that cross end a run before anything is put out. -/
theorem run_of_crossing (hprepare : prepare i tree = .ok (settings, files))
    (hall : (processAll i settings tree files).2 = none) :
    run i tree = (⟨(processAll i settings tree files).1, []⟩, .error .crossing) := by
  rcases hprocess : processAll i settings tree files with ⟨next, result⟩
  rw [hprocess] at hall
  cases hall
  simp only [run, hprepare, hprocess]

/-- A run ends as the output of its files does. -/
theorem emission_run (hprepare : prepare i tree = .ok (settings, files))
    (hall : (processAll i settings tree files).2 = some done)
    {result : Except Fault (List FileReport)} (hrun : run i tree = (s, result)) :
    ∃ fault, Emission i.destination done (processAll i settings tree files).1 s.tree fault ∧
      result = fault.elim (.ok (done.map (·.2.report))) .error := by
  rcases hprocess : processAll i settings tree files with ⟨next, outcome⟩
  rw [hprocess] at hall
  cases hall
  simp only [run, hprepare, hprocess] at hrun
  split at hrun
  · rename_i t hemit
    cases hrun
    exact ⟨none, emission_emitAll hemit, rfl⟩
  · rename_i t fault hemit
    cases hrun
    exact ⟨some fault, emission_emitAll hemit, rfl⟩

theorem effect_of_run (hprepare : prepare i tree = .ok (settings, files))
    {reports : List FileReport} (hrun : run i tree = (s, .ok reports)) :
    ∃ done, (processAll i settings tree files).2 = some done ∧
      reports = done.map (·.2.report) ∧ ∃ made logged writes,
        Effect i settings (outputs i.destination done) tree s.tree made logged writes := by
  cases hall : (processAll i settings tree files).2 with
  | none =>
    rw [run_of_crossing hprepare hall] at hrun
    cases hrun
  | some done =>
    obtain ⟨fault, hemission, hresult⟩ := emission_run hprepare hall hrun
    cases hemission with
    | all hemitted => exact ⟨done, rfl, Except.ok.inj hresult, effect_of_emitted hemitted⟩
    | stopped => cases hresult

end ClassScope.Run
