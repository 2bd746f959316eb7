import ClassScope.Proofs.Discovery
import ClassScope.Proofs.PathOrder

/-! Exactly which files are found, and in which order. A file that is named stands for itself,
whatever it is called; a folder stands for the sources below it that are not ignored, in the order
of their paths. Nothing else of the tree counts, so the order in which it is walked does not. -/
namespace ClassScope

namespace FileTree

variable {tree : FileTree} {path : Path}

theorem isFile_iff :
    tree.isFile path = true ↔ ∃ content, tree.find? path = some (.file content) := by
  unfold isFile
  split <;> simp_all

/-- In a sound tree there is something wherever a path leads. -/
theorem Sound.find?_eq_none_iff (h : tree.Sound) :
    tree.find? path = none ↔ tree.locate? path = none := by
  cases hpath : tree.locate? path with
  | none => simp [find?, hpath]
  | some place =>
    rw [find?_of_locate? hpath]
    cases hfolder : tree.isFolderAt place with
    | true => simp [isFolderAt_iff.mp hfolder]
    | false =>
      obtain ⟨-, -, -, content, -, -, -, hentry⟩ := h.locate?_file hpath hfolder
      simp [hentry]

theorem Sound.of_perm {tree' : FileTree} (h : tree.Sound)
    (hperm : tree'.entries.Perm tree.entries) : tree'.Sound where
  in_folder e he := by
    rw [isFolderAt, entryAt?_of_perm h.once hperm]
    exact h.in_folder e (hperm.mem_iff.mp he)
  named e he := h.named e (hperm.mem_iff.mp he)
  once := (hperm.map _).nodup_iff.mpr h.once

end FileTree

namespace Discovery
open FileTree

variable {tree : FileTree} {ignored : Path → Bool} {root : Path} {files : List SourceFile}

/-- A source somewhere below a folder that is not ignored. -/
structure IsSourceBelow (tree : FileTree) (ignored : Path → Bool) (root : Path)
    (file : SourceFile) : Prop where
  relative : Path.IsRelative file.relative
  path_eq : file.path = root.join file.relative
  isFile : tree.isFile file.path = true
  isSource : isSource file.path = true
  not_ignored : ignored file.relative = false

/-- What a root stands for. -/
inductive Covers (tree : FileTree) (ignored : Path → Bool) (root : Path) :
    List SourceFile → Prop
  | file {content : Content} {name : Text} (hfile : tree.find? root = some (.file content))
      (hname : root.fileName? = some name) : Covers tree ignored root [⟨root, name⟩]
  | folder {files : List SourceFile} (hfolder : tree.find? root = some .folder)
      (hsorted : files.Pairwise fun f g => f.path.Precedes g.path)
      (hmem : ∀ file, file ∈ files ↔ IsSourceBelow tree ignored root file) :
      Covers tree ignored root files

theorem nodup_of_pairwise (h : files.Pairwise fun f g => f.path.Precedes g.path) : files.Nodup :=
  h.imp fun hlt heq => hlt.ne (congrArg SourceFile.path heq)

theorem Covers.unique {files' : List SourceFile} (h : Covers tree ignored root files)
    (h' : Covers tree ignored root files') : files = files' := by
  cases h with
  | file hfile hname =>
    cases h' with
    | file hfile' hname' =>
      rw [hname] at hname'
      cases hname'
      rfl
    | folder hfolder =>
      rw [hfile] at hfolder
      cases hfolder
  | folder hfolder hsorted hmem =>
    cases h' with
    | file hfile =>
      rw [hfolder] at hfile
      cases hfile
    | folder _ hsorted' hmem' =>
      have hperm := (List.perm_ext_iff_of_nodup (nodup_of_pairwise hsorted)
        (nodup_of_pairwise hsorted')).mpr fun file => (hmem file).trans (hmem' file).symm
      exact hperm.eq_of_pairwise (fun f g _ _ hfg hgf => absurd hgf hfg.asymm) hsorted hsorted'

section Below

variable {place : Place}

theorem mem_filesBelow_iff {names : Place} :
    names ∈ tree.filesBelow place ↔
      names ≠ [] ∧ ∃ content, (place ++ names, Entry.file content) ∈ tree.entries := by
  refine ⟨mem_filesBelow, fun ⟨hne, content, hmem⟩ => ?_⟩
  have hfront : place.isPrefixOf? (place ++ names) = some names :=
    List.isPrefixOf?_eq_some_iff_append_eq.mpr rfl
  exact List.mem_filterMap.mpr ⟨_, hmem, by simp [hfront, hne]⟩

theorem filesBelow_sublist (tree : FileTree) (place : Place) :
    ((tree.filesBelow place).map (place ++ ·)).Sublist (tree.entries.map (·.1)) := by
  unfold filesBelow
  induction tree.entries with
  | nil => exact .slnil
  | cons e es ih =>
    rw [List.filterMap_cons, List.map_cons]
    split
    · exact ih.cons _
    · rename_i names hnames
      split at hnames
      · rename_i hfront
        split_ifs at hnames
        cases hnames
        rw [List.map_cons, List.isPrefixOf?_eq_some_iff_append_eq.mp hfront]
        exact ih.cons_cons _
      · cases hnames

theorem nodup_filesBelow (h : tree.Sound) (place : Place) : (tree.filesBelow place).Nodup :=
  .of_map _ ((filesBelow_sublist tree place).nodup h.once)

theorem isName_of_mem_filesBelow (h : tree.Sound) {names : Place}
    (hnames : names ∈ tree.filesBelow place) : ∀ name ∈ names, Path.IsName name := by
  obtain ⟨-, content, hentry⟩ := mem_filesBelow hnames
  exact fun name hname => h.named _ hentry name (List.mem_append_right place hname)

theorem below_sorted (h : tree.Sound) (hroot : root ≠ []) (place : Place) :
    (below tree ignored root place).Pairwise fun f g => f.path.Precedes g.path := by
  have hnodup : ((tree.filesBelow place).mergeSort Text.listLe).Nodup :=
    (List.mergeSort_perm _ _).nodup_iff.mpr (nodup_filesBelow h place)
  have hsorted : ((tree.filesBelow place).mergeSort Text.listLe).Pairwise (· < ·) :=
    (Text.pairwise_mergeSort_listLe _).imp₂ (fun _ _ hle hne => lt_of_le_of_ne hle hne) hnodup
  refine .filter _ (List.pairwise_map.mpr (hsorted.imp_of_mem ?_))
  intro names names' hnames hnames' hlt
  rw [List.mem_mergeSort] at hnames hnames'
  exact Path.precedes_join hroot (mem_filesBelow hnames).1 (mem_filesBelow hnames').1
    (isName_of_mem_filesBelow h hnames) (isName_of_mem_filesBelow h hnames') hlt

/-- The files below a folder are the ones that paths of names lead to. -/
theorem mem_below_iff (h : tree.Sound) (hplace : tree.locate? root = some place)
    (hfolder : tree.isFolderAt place = true) {file : SourceFile} :
    file ∈ below tree ignored root place ↔ IsSourceBelow tree ignored root file := by
  constructor
  · intro hfile
    obtain ⟨hrelative, goal, content, hgoal, hentry⟩ := found_of_mem_below h hplace hfolder hfile
    obtain ⟨hmem, hkept⟩ := List.mem_filter.mp hfile
    simp only [Bool.and_eq_true, Bool.not_eq_true'] at hkept
    obtain ⟨names, -, rfl⟩ := List.mem_map.mp hmem
    have hisFile := isFile_iff.mpr ⟨content, (find?_of_locate? hgoal).trans hentry⟩
    exact ⟨hrelative, rfl, hisFile, hkept.1, hkept.2⟩
  · rintro ⟨hrelative, hpath, hisFile, hsource, hkept⟩
    obtain ⟨content, hcontent⟩ := isFile_iff.mp hisFile
    obtain ⟨goal, hgoal, hentry⟩ := Option.bind_eq_some_iff.mp hcontent
    rw [hpath, locate?_join hrelative, base?_of_locate? hplace, Option.bind_some] at hgoal
    obtain rfl := eq_append_of_walk hrelative hgoal
    have hne : place ++ file.relative.pieces ≠ [] := by simp [Path.pieces_ne_nil]
    have hmem := (entryAt?_eq_some_iff h.once hne).mp hentry
    have hbelow := mem_filesBelow_iff.mpr ⟨Path.pieces_ne_nil _, content, hmem⟩
    have heq : sourceFile root file.relative.pieces = file := by
      rw [sourceFile, Path.join_pieces, ← hpath]
    exact List.mem_filter.mpr ⟨List.mem_map.mpr ⟨_, List.mem_mergeSort.mpr hbelow, heq⟩,
      by simp [hsource, hkept]⟩

end Below

theorem ne_nil_of_locate? {place : Place} (h : tree.locate? root = some place) : root ≠ [] := by
  rintro rfl
  cases h

theorem ofRoot_eq_error_iff (h : tree.Sound) {missing : Missing} :
    ofRoot tree ignored root = .error missing ↔
      tree.find? root = none ∧ missing.path = root := by
  obtain ⟨path⟩ := missing
  rw [h.find?_eq_none_iff, ofRoot]
  split
  · rename_i hplace
    simp [hplace, eq_comm]
  · rename_i hplace
    split <;> simp [hplace]

theorem ofRoot_eq_ok_iff (h : tree.Sound) :
    ofRoot tree ignored root = .ok files ↔ Covers tree ignored root files := by
  have hcovers : ∀ {files}, ofRoot tree ignored root = .ok files →
      Covers tree ignored root files := by
    intro files hroot
    unfold ofRoot at hroot
    split at hroot
    · cases hroot
    · rename_i place hplace
      split_ifs at hroot with hfolder
      · cases hroot
        exact .folder ((find?_of_locate? hplace).trans (isFolderAt_iff.mp hfolder))
          (below_sorted h (ne_nil_of_locate? hplace) place)
          fun _ => mem_below_iff h hplace hfolder
      · cases hroot
        obtain ⟨before, name, folder, content, hpieces, hname, -, hentry⟩ :=
          h.locate?_file hplace (by simpa using hfolder)
        have hfileName := Path.fileName?_eq hpieces hname
        rw [hfileName, Option.getD_some]
        exact .file ((find?_of_locate? hplace).trans hentry) hfileName
  refine ⟨hcovers, fun hfiles => ?_⟩
  cases hroot : ofRoot tree ignored root with
  | ok found => rw [(hcovers hroot).unique hfiles]
  | error missing =>
    have hnone := ((ofRoot_eq_error_iff h).mp hroot).1
    cases hfiles with
    | file hfile => simp [hnone] at hfile
    | folder hfolder => simp [hnone] at hfolder

theorem exists_ofRoot_eq_ok_iff (h : tree.Sound) :
    (∃ files, ofRoot tree ignored root = .ok files) ↔ tree.find? root ≠ none := by
  cases hroot : ofRoot tree ignored root with
  | ok files =>
    refine iff_of_true ⟨files, rfl⟩ fun hnone => ?_
    have herror : ofRoot tree ignored root = .error ⟨root⟩ :=
      (ofRoot_eq_error_iff h).mpr ⟨hnone, rfl⟩
    rw [hroot] at herror
    cases herror
  | error missing => exact iff_of_false nofun fun hne => hne ((ofRoot_eq_error_iff h).mp hroot).1

variable {roots : List Path}

theorem ofRoots_eq_ok_iff_covers (h : tree.Sound) :
    ofRoots tree ignored roots = .ok files ↔
      ∃ parts, List.Forall₂ (Covers tree ignored) roots parts ∧ files = parts.flatten := by
  simp only [ofRoots_eq_ok_iff, ofRoot_eq_ok_iff h]

theorem ofRoots_eq_error_iff (h : tree.Sound) {missing : Missing} :
    ofRoots tree ignored roots = .error missing ↔
      ∃ before after, roots = before ++ missing.path :: after ∧
        (∀ root ∈ before, tree.find? root ≠ none) ∧ tree.find? missing.path = none := by
  have hmap : ofRoots tree ignored roots = .error missing ↔
      roots.mapM (ofRoot tree ignored) = .error missing := by
    rw [ofRoots]
    cases roots.mapM (ofRoot tree ignored) <;> simp [Except.map]
  simp only [hmap, mapM_eq_error_iff, ofRoot_eq_error_iff h, exists_ofRoot_eq_ok_iff h]
  constructor
  · rintro ⟨before, root, after, hroots, hbefore, hnone, rfl⟩
    exact ⟨before, after, hroots, hbefore, hnone⟩
  · rintro ⟨before, after, hroots, hbefore, hnone⟩
    exact ⟨before, missing.path, after, hroots, hbefore, hnone, rfl⟩

/-! Only what the paths name counts. -/

section Congr

variable {tree' : FileTree}

theorem IsSourceBelow.congr (hfind : ∀ path, tree'.find? path = tree.find? path)
    {file : SourceFile} (h : IsSourceBelow tree ignored root file) :
    IsSourceBelow tree' ignored root file where
  relative := h.relative
  path_eq := h.path_eq
  isFile := by
    rw [FileTree.isFile, hfind]
    exact h.isFile
  isSource := h.isSource
  not_ignored := h.not_ignored

theorem Covers.congr (hfind : ∀ path, tree'.find? path = tree.find? path)
    (h : Covers tree ignored root files) : Covers tree' ignored root files := by
  cases h with
  | file hfile hname => exact .file ((hfind root).trans hfile) hname
  | folder hfolder hsorted hmem =>
    refine .folder ((hfind root).trans hfolder) hsorted fun file => ?_
    rw [hmem]
    exact ⟨.congr hfind, .congr fun path => (hfind path).symm⟩

theorem ofRoots_congr (h : tree.Sound) (h' : tree'.Sound)
    (hfind : ∀ path, tree'.find? path = tree.find? path) :
    ofRoots tree' ignored roots = ofRoots tree ignored roots := by
  cases hresult : ofRoots tree ignored roots with
  | ok files =>
    obtain ⟨parts, hparts, hfiles⟩ := (ofRoots_eq_ok_iff_covers h).mp hresult
    exact (ofRoots_eq_ok_iff_covers h').mpr ⟨parts, hparts.imp fun _ _ => .congr hfind, hfiles⟩
  | error missing =>
    have hmissing := (ofRoots_eq_error_iff h).mp hresult
    simp only [← hfind] at hmissing
    exact (ofRoots_eq_error_iff h').mpr hmissing

end Congr

/-- The search ends at the first root that is not there. Otherwise it gives, root by root, the file
itself for a file, and for a folder the sources below it that are not ignored, sorted and each once.
The order in which the entries of the tree are met has no say in it. -/
theorem search_is_exact {tree : FileTree} (h : tree.Sound) (ignored : Path → Bool)
    (roots : List Path) :
    (∀ missing, ofRoots tree ignored roots = .error missing ↔
      ∃ before after, roots = before ++ missing.path :: after ∧
        (∀ root ∈ before, tree.find? root ≠ none) ∧ tree.find? missing.path = none) ∧
    (∀ files, ofRoots tree ignored roots = .ok files ↔
      ∃ parts, List.Forall₂ (Covers tree ignored) roots parts ∧ files = parts.flatten) ∧
    ∀ tree' : FileTree, tree'.here = tree.here → tree'.entries.Perm tree.entries →
      ofRoots tree' ignored roots = ofRoots tree ignored roots := by
  refine ⟨fun _ => ofRoots_eq_error_iff h, fun _ => ofRoots_eq_ok_iff_covers h, ?_⟩
  intro tree' hhere hperm
  exact ofRoots_congr h (h.of_perm hperm) (find?_congr hhere (entryAt?_of_perm h.once hperm))

def mixedTree : FileTree where
  here := []
  entries :=
    [(["src", "sub-x.js"], .file (.text [])), (["src"], .folder), (["notes"], .file (.text [])),
      (["src", "old.js"], .file (.text [])), (["src", "sub", "d.js"], .file (.text [])),
      (["src", "sub"], .folder), (["src", "a.md"], .file (.text []))].map
      fun e => (e.1.map String.toList, e.2)

/-- Forwards and backwards the same is found: what is in a folder comes before a file with a longer
name than the folder's, and the file that is named comes last. -/
theorem mixedTree_searched_both_ways :
    let ignored : Path → Bool := (· == "old.js".toList)
    let roots := ["src".toList, "notes".toList]
    let files : List SourceFile :=
      [⟨"src/sub/d.js".toList, "sub/d.js".toList⟩, ⟨"src/sub-x.js".toList, "sub-x.js".toList⟩,
        ⟨"notes".toList, "notes".toList⟩]
    mixedTree.Sound ∧
      ofRoots { mixedTree with entries := mixedTree.entries.reverse } ignored roots = .ok files ∧
      (∃ parts, List.Forall₂ (Covers mixedTree ignored) roots parts ∧ files = parts.flatten) ∧
      ofRoots mixedTree ignored ["src".toList, "lib".toList] = .error ⟨"lib".toList⟩ := by
  intro ignored roots files
  have hsound : mixedTree.Sound := by decide +kernel
  obtain ⟨-, hexact, hsame⟩ := search_is_exact hsound ignored roots
  have hplace : mixedTree.locate? "src".toList = some ["src".toList] := by decide +kernel
  have hfolder : mixedTree.isFolderAt ["src".toList] = true := by decide +kernel
  have hnames : (mixedTree.filesBelow ["src".toList]).mergeSort Text.listLe =
      [["a.md"], ["old.js"], ["sub", "d.js"], ["sub-x.js"]].map (·.map String.toList) :=
    Text.mergeSort_listLe_eq (by decide +kernel) (by decide +kernel)
  have hsrc : ofRoot mixedTree ignored "src".toList = .ok (files.take 2) := by
    rw [ofRoot, hplace]
    simp only [hfolder, if_true, below, hnames]
    decide +kernel
  have hnotes : ofRoot mixedTree ignored "notes".toList = .ok (files.drop 2) := by decide +kernel
  have hfiles : ofRoots mixedTree ignored roots = .ok files :=
    ofRoots_eq_ok_iff.mpr ⟨_, .cons hsrc (.cons hnotes .nil), rfl⟩
  have hback := hsame { mixedTree with entries := mixedTree.entries.reverse } rfl
    (List.reverse_perm _)
  refine ⟨hsound, hback.trans hfiles, (hexact files).mp hfiles, ?_⟩
  refine ((search_is_exact hsound ignored _).1 _).mpr ⟨["src".toList], [], rfl, ?_, ?_⟩
  · decide +kernel
  · decide +kernel

end Discovery
end ClassScope
