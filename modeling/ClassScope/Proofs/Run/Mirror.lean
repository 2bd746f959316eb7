import ClassScope.Invocation.Reader
import ClassScope.Proofs.Run.Effect

/-! Runs into a folder. The new text of a file goes below the folder, under the path of the file
as seen from its root; where files of two roots share such a path, the text of the last one
stays. -/
namespace ClassScope.Run
open FileTree

variable {i : Invocation} {settings : Settings} {tree tree' : FileTree} {files : List SourceFile}
  {folder : Path} {done : List (SourceFile × Processed)}

theorem process_code_eq_none_iff {path : Path} {p : Processed}
    (h : (process i settings tree path).2 = some p) :
    p.code = none ↔ p.report.status = .failed := by
  rcases process_cases h with ⟨t, product, -, -, rfl⟩ | ⟨message, rfl, -⟩
  · by_cases hsame : product.code = t <;> simp [processed, hsame]
  · simp [FileReport.failed]

theorem processAll_fst (h : (processAll i settings tree files).2 = some done) :
    done.map (·.1) = files := by
  induction files generalizing tree done with
  | nil =>
    cases h
    rfl
  | cons file files ih =>
    obtain ⟨p, rest, -, hrest, rfl⟩ := processAll_cons_eq_some.mp h
    rw [List.map_cons, ih hrest]

theorem processAll_code_eq_none_iff (h : (processAll i settings tree files).2 = some done)
    {item : SourceFile × Processed} (hitem : item ∈ done) :
    item.2.code = none ↔ item.2.report.status = .failed := by
  induction files generalizing tree done with
  | nil =>
    cases h
    cases hitem
  | cons file files ih =>
    obtain ⟨p, rest, hp, hrest, rfl⟩ := processAll_cons_eq_some.mp h
    rcases List.mem_cons.mp hitem with rfl | hitem
    · exact process_code_eq_none_iff hp
    · exact ih hrest hitem

def texts (done : List (SourceFile × Processed)) : List (Path × Text) :=
  done.filterMap fun item => item.2.code.map (item.1.relative, ·)

theorem outputs_folder (folder : Path) (done : List (SourceFile × Processed)) :
    outputs (.folder folder) done = (texts done).map fun out => (folder.join out.1, out.2) := by
  rw [outputs, texts, List.map_filterMap]
  refine List.filterMap_congr fun item _ => ?_
  obtain ⟨file, p⟩ := item
  cases hcode : p.code <;> simp [output?, outputPath?, hcode]

theorem mem_texts {out : Path × Text} :
    out ∈ texts done ↔ ∃ item ∈ done, item.1.relative = out.1 ∧ item.2.code = some out.2 := by
  obtain ⟨relative, code⟩ := out
  simp only [texts, List.mem_filterMap, Option.map_eq_some_iff, Prod.mk.injEq]
  constructor
  · rintro ⟨item, hitem, code', hcode, hrelative, rfl⟩
    exact ⟨item, hitem, hrelative, hcode⟩
  · rintro ⟨item, hitem, hrelative, hcode⟩
    exact ⟨item, hitem, code, hcode, hrelative, rfl⟩

/-- Every file that did not fail has its new text below the folder. -/
def Mirrored (tree : FileTree) (folder : Path) (done : List (SourceFile × Processed)) : Prop :=
  ∀ item ∈ done, item.2.report.status ≠ .failed →
    ∃ code, item.2.code = some code ∧
      tree.find? (folder.join item.1.relative) = some (.file (.text code))

/-- What is written under one key is the same. -/
def Unanimous {α β : Type} (writes : List (α × β)) : Prop :=
  ∀ v ∈ writes, ∀ w ∈ writes, v.1 = w.1 → v.2 = w.2

theorem latest?_eq_map {α β γ δ : Type} [BEq α] [LawfulBEq α] [BEq γ] [LawfulBEq γ] {key : α}
    {key' : γ} {f : β → δ} {xs : List (α × β)} {ys : List (γ × δ)}
    (h : List.Forall₂ (fun x y => (x.1 = key ↔ y.1 = key') ∧ y.2 = f x.2) xs ys) :
    latest? ys key' = (latest? xs key).map f := by
  induction h with
  | nil => rfl
  | @cons x y xs ys hxy _ ih =>
    obtain ⟨hkey, hvalue⟩ := hxy
    rw [latest?_cons, latest?_cons, ih]
    cases latest? xs key with
    | some value => rfl
    | none =>
      by_cases hx : x.1 = key
      · simp [hx, hkey.mp hx, hvalue]
      · have hy : ¬key' = y.1 := fun h => hx (hkey.mpr h.symm)
        have hx' : ¬key = x.1 := fun h => hx h.symm
        simp [hx', hy]

theorem find?_texts {made : List Place} {logged writes : List (Place × Content)}
    (hdestination : i.destination = .folder folder)
    (heffect : Effect i settings (outputs i.destination done) tree tree' made logged writes)
    (hrelative : ∀ item ∈ done, Path.IsRelative item.1.relative) {out : Path × Text}
    (hout : out ∈ texts done) :
    ∃ code, latest? (texts done) out.1 = some code ∧
      tree'.find? (folder.join out.1) = some (.file (.text code)) := by
  have hnamed : ∀ other ∈ texts done, Path.IsRelative other.1 := by
    intro other hother
    obtain ⟨item, hitem, hpath, -⟩ := mem_texts.mp hother
    exact hpath ▸ hrelative item hitem
  have hstored := heffect.stored
  rw [hdestination, outputs_folder, Stored, List.forall₂_map_left_iff] at hstored
  obtain ⟨w, -, hplace, -⟩ := exists_mem_of_forall₂ hstored hout
  have hkeys : List.Forall₂ (fun x y => (x.1 = out.1 ↔ y.1 = w.1) ∧ y.2 = Content.text x.2)
      (texts done) writes := by
    refine ((List.forall₂_and_left _ _).mpr ⟨hnamed, hstored⟩).imp ?_
    rintro x y ⟨hx, hlocate, hvalue⟩
    refine ⟨⟨fun heq => ?_, fun heq => ?_⟩, hvalue⟩
    · rw [heq, hplace] at hlocate
      exact (Option.some.inj hlocate).symm
    · exact relative_eq_of_locate? hx (hnamed out hout) (heq ▸ hlocate) hplace
  have hlatest := latest?_eq_map hkeys
  cases hcode : latest? (texts done) out.1 with
  | none => exact absurd rfl (latest?_eq_none_iff.mp hcode out hout)
  | some code =>
    rw [hcode, Option.map_some] at hlatest
    have hwritten := (heffect.evolves.written w.1 (.text code) (by simp [hlatest])).2
    refine ⟨code, rfl, ?_⟩
    rw [find?_of_locate? hplace, hwritten]

/-- If the last text under each path is the one below the folder, none is lost exactly if there is
only one text under each path. -/
theorem mirrored_iff
    (hfailed : ∀ item ∈ done, item.2.code = none ↔ item.2.report.status = .failed)
    (hlatest : ∀ out ∈ texts done, ∃ code, latest? (texts done) out.1 = some code ∧
      tree.find? (folder.join out.1) = some (.file (.text code))) :
    Mirrored tree folder done ↔ Unanimous (texts done) := by
  constructor
  · intro hmirrored v hv w hw hpath
    have hfind : ∀ out ∈ texts done,
        tree.find? (folder.join out.1) = some (.file (.text out.2)) := by
      intro out hout
      obtain ⟨item, hitem, hrelative, hcode⟩ := mem_texts.mp hout
      have hok : item.2.report.status ≠ .failed := by
        rw [Ne, ← hfailed item hitem, hcode]
        nofun
      obtain ⟨code, hcode', hfile⟩ := hmirrored item hitem hok
      rw [hcode] at hcode'
      cases hcode'
      rw [← hrelative, hfile]
    have hsame := hfind v hv
    rw [hpath, hfind w hw] at hsame
    simpa using hsame.symm
  · intro hone item hitem hok
    obtain ⟨code, hcode⟩ : ∃ code, item.2.code = some code :=
      Option.ne_none_iff_exists'.mp fun hnone => hok ((hfailed item hitem).mp hnone)
    have hout : (item.1.relative, code) ∈ texts done := mem_texts.mpr ⟨item, hitem, rfl, hcode⟩
    obtain ⟨last, hlast, hfile⟩ := hlatest _ hout
    obtain rfl : last = code := hone _ (mem_of_latest? hlast) _ hout rfl
    exact ⟨last, hcode, hfile⟩

/-- Below the folder stands the text that was last put out under each path. So the text of a file
that did not fail is never lost exactly if files that share such a path have one text. -/
theorem mirrored_iff_unanimous {s : State} {reports : List FileReport} (h : tree.Sound)
    (hprepare : prepare i tree = .ok (settings, files))
    (hdestination : i.destination = .folder folder) (hrun : run i tree = (s, .ok reports)) :
    ∃ done, (processAll i settings tree files).2 = some done ∧
      done.map (·.1) = files ∧ done.map (·.2.report) = reports ∧
      (∀ out ∈ texts done, ∃ code, latest? (texts done) out.1 = some code ∧
        s.tree.find? (folder.join out.1) = some (.file (.text code))) ∧
      (Mirrored s.tree folder done ↔ Unanimous (texts done)) := by
  obtain ⟨done, hall, hreports, made, logged, writes, heffect⟩ := effect_of_run hprepare hrun
  have hfiles : done.map (·.1) = files := processAll_fst hall
  have hrelative : ∀ item ∈ done, Path.IsRelative item.1.relative := by
    intro item hitem
    have hfile : item.1 ∈ files := hfiles ▸ List.mem_map_of_mem hitem
    exact (found_of_prepare h hprepare hfile).1
  have hlatest : ∀ out ∈ texts done, ∃ code, latest? (texts done) out.1 = some code ∧
      s.tree.find? (folder.join out.1) = some (.file (.text code)) :=
    fun out => find?_texts hdestination heffect hrelative
  have hfailed : ∀ item ∈ done, item.2.code = none ↔ item.2.report.status = .failed :=
    fun item => processAll_code_eq_none_iff hall
  exact ⟨done, hall, hfiles, hreports.symm, hlatest, mirrored_iff hfailed hlatest⟩

def namesakes : Invocation :=
  Invocation.Draft.invocation
    { paths := ["a/x.jsx", "b/x.jsx"].map String.toList, values := [(.outFolder, "out".toList)] }

def namesakesTree : FileTree where
  here := []
  entries :=
    [(["a".toList], .folder),
      (["a".toList, "x.jsx".toList], .file (.text "<i className=\"a\" />;".toList)),
      (["b".toList], .folder),
      (["b".toList, "x.jsx".toList], .file (.text "<i className=\"b\" />;".toList))]

def namesakeFiles : List SourceFile :=
  [⟨"a/x.jsx".toList, "x.jsx".toList⟩, ⟨"b/x.jsx".toList, "x.jsx".toList⟩]

theorem namesake_overwrites :
    namesakesTree.Sound ∧
      prepare namesakes namesakesTree = .ok (Settings.defaults, namesakeFiles) ∧
      namesakes.destination = .folder "out".toList ∧
      (run namesakes namesakesTree).2.isOk = true ∧
      (run namesakes namesakesTree).1.tree.find? "out/x.jsx".toList =
        some (.file (.text "<i className=\"app-b\" />;".toList)) ∧
      ∃ done, (processAll namesakes Settings.defaults namesakesTree namesakeFiles).2 = some done ∧
        ¬ Mirrored (run namesakes namesakesTree).1.tree "out".toList done := by
  have hsound : namesakesTree.Sound := by decide +kernel
  have hprepare : prepare namesakes namesakesTree = .ok (Settings.defaults, namesakeFiles) := by
    decide +kernel
  have hdestination : namesakes.destination = .folder "out".toList := by decide +kernel
  have hok : (run namesakes namesakesTree).2.isOk = true := by decide +kernel
  have hlast : (run namesakes namesakesTree).1.tree.find? "out/x.jsx".toList =
      some (.file (.text "<i className=\"app-b\" />;".toList)) := by decide +kernel
  have htexts : (processAll namesakes Settings.defaults namesakesTree namesakeFiles).2.map texts =
      some [("x.jsx".toList, "<i className=\"app-a\" />;".toList),
        ("x.jsx".toList, "<i className=\"app-b\" />;".toList)] := by decide +kernel
  refine ⟨hsound, hprepare, hdestination, hok, hlast, ?_⟩
  clear hlast
  generalize hrun : run namesakes namesakesTree = outcome at hok ⊢
  obtain ⟨s, result⟩ := outcome
  cases result with
  | error fault => cases hok
  | ok reports =>
    obtain ⟨done, hall, -, -, -, hiff⟩ := mirrored_iff_unanimous hsound hprepare hdestination hrun
    refine ⟨done, hall, fun hmirrored => ?_⟩
    rw [hall, Option.map_some] at htexts
    have hone := hiff.mp hmirrored
    rw [Option.some.inj htexts] at hone
    have hsame := hone _ List.mem_cons_self _ (List.mem_cons_of_mem _ List.mem_cons_self) rfl
    exact absurd hsame (by decide +kernel)

end ClassScope.Run
