import ClassScope.Invocation.Reader
import ClassScope.Proofs.Run.Effect

/-! Runs in place. Each file is rewritten once, from the content that it had before the run,
however many roots lead to it; apart from the log nothing else changes. -/
namespace ClassScope.Run
open FileTree

variable {i : Invocation} {settings : Settings} {tree : FileTree} {files : List SourceFile}
  {done : List (SourceFile × Processed)} {s : State}

/-- What qualifying makes of the content of a file. It stays as it is if it is no text, or one that
cannot be read. -/
def rewritten (strategy : Strategy) (settings : Settings) (path : Path) : Content → Content
  | .text t =>
    match qualify strategy settings path t with
    | .ok p => .text p.code
    | .error _ => .text t
  | .binary bytes => .binary bytes

theorem rewritten_congr {path path' : Path} (h : path.fileName? = path'.fileName?)
    (strategy : Strategy) (settings : Settings) :
    rewritten strategy settings path = rewritten strategy settings path' := by
  have hdialect : Dialect.ofFileName (some path) = Dialect.ofFileName (some path') := by
    simp only [Dialect.ofFileName, Option.bind_some, Path.extension?, h]
  funext content
  cases content with
  | binary bytes => rfl
  | text t => cases strategy <;> simp only [rewritten, qualify, hdialect]

theorem fileName?_eq_of_locate? (h : tree.Sound) {path path' : Path} {place : Place}
    (hpath : tree.locate? path = some place) (hpath' : tree.locate? path' = some place)
    (hplace : tree.isFolderAt place = false) : path.fileName? = path'.fileName? := by
  obtain ⟨_, name, folder, _, hpieces, hname, hend, -⟩ := h.locate?_file hpath hplace
  obtain ⟨_, name', folder', _, hpieces', hname', hend', -⟩ := h.locate?_file hpath' hplace
  obtain ⟨-, hsame⟩ := List.append_inj' (hend.symm.trans hend') rfl
  rw [Path.fileName?_eq hpieces hname, Path.fileName?_eq hpieces' hname',
    List.singleton_inj.mp hsame]

/-- A file becomes what is put out for it, and stays as it is if nothing is. -/
theorem rewritten_eq_output {file : SourceFile} {content : Content} {p : Processed}
    (hfind : tree.find? file.path = some (.file content))
    (hprocess : (process i settings tree file.path).2 = some p) :
    rewritten i.strategy settings file.path content =
      (output? .inPlace (file, p)).elim content (.text ·.2) := by
  rcases process_cases hprocess with ⟨t, product, hfile, hproduct, rfl⟩ | ⟨message, rfl, hnot⟩
  · rw [hfind] at hfile
    cases hfile
    by_cases hsame : product.code = t <;>
      simp [hproduct, output?, rewritten, processed, hsame, outputPath?]
  · cases content with
    | binary bytes => simp [output?, rewritten, outputPath?]
    | text t =>
      cases hqualify : qualify i.strategy settings file.path t with
      | ok product => exact absurd hqualify (hnot t product hfind)
      | error fault => simp [hqualify, output?, rewritten, outputPath?]

/-- The tree that a run in place leaves, if no file that it works on is its log. -/
structure Rewrites (i : Invocation) (settings : Settings) (files : List SourceFile)
    (done : List (SourceFile × Processed)) (tree tree' : FileTree)
    (logged writes : List (Place × Content)) : Prop where
  found : ∀ file ∈ files, ∃ place content, tree.locate? file.path = some place ∧
    tree.entryAt? place = some (.file content) ∧ ¬ IsLog i settings tree place
  evolves : Evolves tree tree' [] (logged ++ writes)
  is_log : ∀ w ∈ logged, IsLog i settings tree w.1
  finished : finished done = findings i settings tree files
  stored : Stored tree' (outputs .inPlace done) writes

namespace Rewrites

variable {tree' : FileTree} {logged writes : List (Place × Content)} {place : Place}

theorem exists_file (h : Rewrites i settings files done tree tree' logged writes)
    {content : Content} (hw : (place, content) ∈ writes) :
    ∃ file ∈ files, ∃ old, tree.locate? file.path = some place ∧
      tree.entryAt? place = some (.file old) ∧
      content = rewritten i.strategy settings file.path old := by
  obtain ⟨out, hout, hlocate, hcontent⟩ := h.stored.exists_output hw
  obtain ⟨⟨file, p⟩, hitem, hsome⟩ := List.mem_filterMap.mp hout
  obtain ⟨hfile, hprocess⟩ := mem_of_finished h.finished hitem
  obtain ⟨place', old, hplace, hold, -⟩ := h.found file hfile
  have hpath : file.path = out.1 := Option.some.inj (output?_eq_some_iff.mp hsome).1
  rw [← hpath, h.evolves.locate?_eq hplace] at hlocate
  obtain rfl := Option.some.inj hlocate
  have hfind := (find?_of_locate? hplace).trans hold
  refine ⟨file, hfile, old, hplace, hold, ?_⟩
  rw [rewritten_eq_output hfind hprocess, hsome]
  exact hcontent

theorem rewritten_eq_self (h : Rewrites i settings files done tree tree' logged writes)
    {file : SourceFile} (hfile : file ∈ files) {old : Content}
    (hplace : tree.locate? file.path = some place) (hold : tree.entryAt? place = some (.file old))
    (hnone : latest? writes place = none) :
    rewritten i.strategy settings file.path old = old := by
  have hfind := (find?_of_locate? hplace).trans hold
  obtain ⟨p, hitem, hprocess⟩ := exists_of_finished h.finished hfile
  rw [rewritten_eq_output hfind hprocess]
  cases hout : output? .inPlace (file, p) with
  | none => rfl
  | some out =>
    have hmem : out ∈ outputs .inPlace done := List.mem_filterMap.mpr ⟨_, hitem, hout⟩
    obtain ⟨place', hw, hlocate⟩ := h.stored.exists_write hmem
    have hpath : file.path = out.1 := Option.some.inj (output?_eq_some_iff.mp hout).1
    rw [← hpath, h.evolves.locate?_eq hplace] at hlocate
    exact absurd (Option.some.inj hlocate).symm (latest?_eq_none_iff.mp hnone _ hw)

theorem latest?_logged (h : Rewrites i settings files done tree tree' logged writes)
    (hplace : ¬ IsLog i settings tree place) : latest? logged place = none :=
  latest?_eq_none_iff.mpr fun w hw heq => hplace (heq ▸ h.is_log w hw)

theorem entryAt?_file (h : Rewrites i settings files done tree tree' logged writes)
    (hsound : tree.Sound) {file : SourceFile} (hfile : file ∈ files) {old : Content}
    (hplace : tree.locate? file.path = some place) (hold : tree.entryAt? place = some (.file old)) :
    tree'.entryAt? place = some (.file (rewritten i.strategy settings file.path old)) := by
  have hnot : ¬ IsLog i settings tree place := by
    obtain ⟨place', _, hplace', -, hnot⟩ := h.found file hfile
    rw [hplace] at hplace'
    exact Option.some.inj hplace' ▸ hnot
  have hlatest := latest?_append logged writes place
  rw [h.latest?_logged hnot, Option.or_none] at hlatest
  cases hwritten : latest? writes place with
  | none =>
    rw [hwritten] at hlatest
    rw [h.evolves.kept place List.not_mem_nil hlatest, hold,
      h.rewritten_eq_self hfile hplace hold hwritten]
  | some content =>
    -- The last write may be for another path to the file, but all of them read it alike.
    obtain ⟨other, -, old', hother, hold', rfl⟩ := h.exists_file (mem_of_latest? hwritten)
    obtain rfl : old = old' := by
      rw [hold] at hold'
      cases hold'
      rfl
    have hfolder : tree.isFolderAt place = false := not_isFolderAt_iff.mpr (by rw [hold]; nofun)
    rw [hwritten] at hlatest
    rw [(h.evolves.written place _ hlatest).2,
      rewritten_congr (fileName?_eq_of_locate? hsound hplace hother hfolder)]

theorem entryAt?_other (h : Rewrites i settings files done tree tree' logged writes)
    (hother : ∀ file ∈ files, tree.locate? file.path ≠ some place)
    (hplace : ¬ IsLog i settings tree place) : tree'.entryAt? place = tree.entryAt? place := by
  have hwritten : latest? writes place = none := by
    refine latest?_eq_none_iff.mpr fun w hw heq => ?_
    obtain ⟨file, hfile, _, hlocate, -⟩ := h.exists_file hw
    exact hother file hfile (heq ▸ hlocate)
  refine h.evolves.kept place List.not_mem_nil ?_
  rw [latest?_append, hwritten, h.latest?_logged hplace]
  rfl

end Rewrites

/-- After a run in place every file holds what qualifying makes of the content that it had before
the run. At all other places, that of the log apart, there is what there was. -/
theorem in_place_rewrites_once {reports : List FileReport} (h : tree.Sound)
    (hprepare : prepare i tree = .ok (settings, files)) (hdestination : i.destination = .inPlace)
    (hlog : ∀ file ∈ files, ∀ place, tree.locate? file.path = some place →
      ¬ IsLog i settings tree place)
    (hrun : run i tree = (s, .ok reports)) :
    (∀ file ∈ files, ∃ old, tree.find? file.path = some (.file old) ∧
      s.tree.find? file.path = some (.file (rewritten i.strategy settings file.path old))) ∧
    ∀ place, (∀ file ∈ files, tree.locate? file.path ≠ some place) →
      ¬ IsLog i settings tree place → s.tree.entryAt? place = tree.entryAt? place := by
  have hfound : ∀ file ∈ files, ∃ place content, tree.locate? file.path = some place ∧
      tree.entryAt? place = some (.file content) ∧ ¬ IsLog i settings tree place := by
    intro file hfile
    obtain ⟨-, place, content, hplace, hcontent⟩ := found_of_prepare h hprepare hfile
    exact ⟨place, content, hplace, hcontent, hlog file hfile place hplace⟩
  obtain ⟨done, hall, -, made, logged, writes, hevolves, hislog, hmade, hstored⟩ :=
    effect_of_run hprepare hrun
  have hfinished : finished done = findings i settings tree files := by
    refine (processAll_snd fun file hfile => ?_).mp hall
    obtain ⟨place, _, hplace, -, hnot⟩ := hfound file hfile
    exact ⟨place, hplace, hnot⟩
  rw [hdestination] at hstored
  rw [hmade hdestination] at hevolves
  have hrewrites : Rewrites i settings files done tree s.tree logged writes :=
    ⟨hfound, hevolves, hislog, hfinished, hstored⟩
  refine ⟨fun file hfile => ?_, fun place => hrewrites.entryAt?_other⟩
  obtain ⟨place, old, hplace, hold, -⟩ := hfound file hfile
  refine ⟨old, (find?_of_locate? hplace).trans hold, ?_⟩
  rw [find?_of_locate? (hevolves.locate?_eq hplace)]
  exact hrewrites.entryAt?_file h hfile hplace hold

def namedTwice : Invocation :=
  Invocation.Draft.invocation
    { paths := ["a.jsx", "sub/../a.jsx", "b.jsx"].map String.toList
      switches := [.write, .debugging]
      values := [(.debugLog, "sub/log".toList)] }

def namedTwiceTree : FileTree where
  here := []
  entries :=
    [(["a.jsx".toList], .file (.text "<i className=\"a\" />;".toList)),
      (["b.jsx".toList], .file (.binary [255])),
      (["c.jsx".toList], .file (.text "<i className=\"c\" />;".toList)),
      (["sub".toList], .folder)]

def namedTwiceFiles : List SourceFile :=
  [⟨"a.jsx".toList, "a.jsx".toList⟩, ⟨"sub/../a.jsx".toList, "a.jsx".toList⟩,
    ⟨"b.jsx".toList, "b.jsx".toList⟩]

def loggedSettings : Settings := { Settings.defaults with debugging := true }

theorem file_named_twice_is_rewritten_once :
    namedTwiceTree.Sound ∧ namedTwice.destination = .inPlace ∧
      let tree := (run namedTwice namedTwiceTree).1.tree
      tree.find? "a.jsx".toList = some (.file (.text "<i className=\"app-a\" />;".toList)) ∧
      tree.find? "b.jsx".toList = some (.file (.binary [255])) ∧
      tree.entryAt? ["c.jsx".toList] = namedTwiceTree.entryAt? ["c.jsx".toList] := by
  have hsound : namedTwiceTree.Sound := by decide +kernel
  have hdestination : namedTwice.destination = .inPlace := by decide +kernel
  have hprepare : prepare namedTwice namedTwiceTree = .ok (loggedSettings, namedTwiceFiles) := by
    decide +kernel
  have hnolog : ∀ file ∈ namedTwiceFiles,
      namedTwiceTree.locate? file.path ≠ namedTwiceTree.target? namedTwice.debugLog := by
    decide +kernel
  have hok : (run namedTwice namedTwiceTree).2.isOk = true := by decide +kernel
  generalize hrun : run namedTwice namedTwiceTree = outcome at hok ⊢
  obtain ⟨s, result⟩ := outcome
  cases result with
  | error fault => cases hok
  | ok reports =>
    have hlog : ∀ file ∈ namedTwiceFiles, ∀ place, namedTwiceTree.locate? file.path = some place →
        ¬ IsLog namedTwice loggedSettings namedTwiceTree place :=
      fun file hfile place hplace hislog => hnolog file hfile (hplace.trans hislog.2.symm)
    obtain ⟨hfiles, hothers⟩ := in_place_rewrites_once hsound hprepare hdestination hlog hrun
    obtain ⟨old, hold, hnew⟩ := hfiles ⟨"a.jsx".toList, "a.jsx".toList⟩ (by decide +kernel)
    obtain ⟨bytes, hbytes, hsame⟩ := hfiles ⟨"b.jsx".toList, "b.jsx".toList⟩ (by decide +kernel)
    have hold' : namedTwiceTree.find? "a.jsx".toList =
        some (.file (.text "<i className=\"a\" />;".toList)) := by decide +kernel
    have hbytes' : namedTwiceTree.find? "b.jsx".toList = some (.file (.binary [255])) := by
      decide +kernel
    obtain rfl := Entry.file.inj (Option.some.inj (hold.symm.trans hold'))
    obtain rfl := Entry.file.inj (Option.some.inj (hbytes.symm.trans hbytes'))
    have hrewritten : rewritten namedTwice.strategy loggedSettings "a.jsx".toList
        (.text "<i className=\"a\" />;".toList) = .text "<i className=\"app-a\" />;".toList := by
      decide +kernel
    have hother : ∀ file ∈ namedTwiceFiles,
        namedTwiceTree.locate? file.path ≠ some ["c.jsx".toList] := by decide +kernel
    have hnot : namedTwiceTree.target? namedTwice.debugLog ≠ some ["c.jsx".toList] := by
      decide +kernel
    rw [hrewritten] at hnew
    exact ⟨hsound, hdestination, hnew, hsame, hothers _ hother fun hislog => hnot hislog.2⟩

end ClassScope.Run
