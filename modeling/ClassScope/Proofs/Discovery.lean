import Mathlib.Data.List.Forall2
import ClassScope.Discovery
import ClassScope.Proofs.FileTree

/-! The files that are found are there: the path of each leads to a file of the tree, and seen from
its root that path consists of names. -/
namespace ClassScope.Discovery

variable {tree : FileTree} {ignored : Path → Bool} {roots : List Path} {files : List SourceFile}

theorem mem_filesBelow {place names : Place} (h : names ∈ tree.filesBelow place) :
    names ≠ [] ∧ ∃ content, (place ++ names, Entry.file content) ∈ tree.entries := by
  obtain ⟨⟨taken, entry⟩, he, hnames⟩ := List.mem_filterMap.mp h
  split at hnames
  · rename_i content _ hentry hprefix
    split_ifs at hnames with hempty
    cases hnames
    obtain rfl := List.isPrefixOf?_eq_some_iff_append_eq.mp hprefix
    dsimp only at hentry
    subst hentry
    exact ⟨by simpa using hempty, content, he⟩
  · cases hnames

/-- The file leads to a place of the tree that holds a file. -/
def Found (tree : FileTree) (file : SourceFile) : Prop :=
  Path.IsRelative file.relative ∧ ∃ place content, tree.locate? file.path = some place ∧
    tree.entryAt? place = some (.file content)

theorem found_of_mem_below (h : tree.Sound) {root : Path} {place : Place}
    (hroot : tree.locate? root = some place) (hplace : tree.isFolderAt place = true)
    {file : SourceFile} (hfile : file ∈ below tree ignored root place) : Found tree file := by
  obtain ⟨hmem, -⟩ := List.mem_filter.mp hfile
  obtain ⟨names, hnames, rfl⟩ := List.mem_map.mp hmem
  obtain ⟨hne, content, hentry⟩ := mem_filesBelow (List.mem_mergeSort.mp hnames)
  have hnamed : ∀ name ∈ names, Path.IsName name :=
    fun name hname => h.named _ hentry name (List.mem_append_right place hname)
  have hat := h.entryAt?_of_mem (by simpa using fun _ => hne) hentry
  have hrelative := Path.isRelative_join hne hnamed
  refine ⟨hrelative, place ++ names, content, ?_, hat⟩
  rw [sourceFile, FileTree.locate?_join hrelative, FileTree.base?_of_locate? hroot,
    Path.pieces_join hne fun name hname => (hnamed name hname).no_slash]
  exact h.walk_down hnamed hplace (by rw [hat]; rfl)

theorem found_of_mem_ofRoot (h : tree.Sound) {root : Path}
    (hroot : ofRoot tree ignored root = .ok files) {file : SourceFile} (hfile : file ∈ files) :
    Found tree file := by
  unfold ofRoot at hroot
  split at hroot
  · cases hroot
  · rename_i place hplace
    split_ifs at hroot with hfolder
    · cases hroot
      exact found_of_mem_below h hplace hfolder hfile
    · cases hroot
      obtain rfl := List.mem_singleton.mp hfile
      obtain ⟨before, name, folder, content, hpieces, hname, -, hentry⟩ :=
        h.locate?_file hplace (by simpa using hfolder)
      have hrelative : root.fileName?.getD root = name := by
        rw [Path.fileName?_eq hpieces hname, Option.getD_some]
      refine ⟨?_, place, content, hplace, hentry⟩
      rw [hrelative]
      exact Path.isRelative_of_isName hname

section MapM

variable {α β ε : Type} {f : α → Except ε β} {xs : List α}

theorem mapM_eq_ok_iff {ys : List β} :
    xs.mapM f = .ok ys ↔ List.Forall₂ (fun x y => f x = .ok y) xs ys := by
  induction xs generalizing ys with
  | nil =>
    rw [List.forall₂_nil_left_iff]
    exact ⟨fun h => (Except.ok.inj h).symm, fun h => h ▸ rfl⟩
  | cons x xs ih =>
    rw [List.mapM_cons, List.forall₂_cons_left_iff]
    constructor
    · intro h
      cases hx : f x with
      | error _ =>
        rw [hx] at h
        cases h
      | ok y =>
        cases hxs : xs.mapM f with
        | error _ =>
          rw [hx, hxs] at h
          cases h
        | ok ys =>
          rw [hx, hxs] at h
          cases h
          exact ⟨y, ys, rfl, ih.mp hxs, rfl⟩
    · rintro ⟨y, ys, hx, hxs, rfl⟩
      rw [hx, ih.mpr hxs]
      rfl

theorem mapM_eq_error_iff {e : ε} :
    xs.mapM f = .error e ↔ ∃ before x after, xs = before ++ x :: after ∧
      (∀ y ∈ before, ∃ v, f y = .ok v) ∧ f x = .error e := by
  constructor
  · intro h
    induction xs with
    | nil => cases h
    | cons x xs ih =>
      rw [List.mapM_cons] at h
      cases hx : f x with
      | error _ =>
        rw [hx] at h
        cases h
        exact ⟨[], x, xs, rfl, nofun, hx⟩
      | ok y =>
        cases hxs : xs.mapM f with
        | error _ =>
          rw [hx, hxs] at h
          cases h
          obtain ⟨before, z, after, rfl, hbefore, hz⟩ := ih hxs
          exact ⟨x :: before, z, after, rfl, List.forall_mem_cons.mpr ⟨⟨y, hx⟩, hbefore⟩, hz⟩
        | ok _ =>
          rw [hx, hxs] at h
          cases h
  · rintro ⟨before, x, after, rfl, hbefore, hx⟩
    induction before with
    | nil =>
      rw [List.nil_append, List.mapM_cons, hx]
      rfl
    | cons y before ih =>
      obtain ⟨⟨v, hy⟩, hrest⟩ := List.forall_mem_cons.mp hbefore
      rw [List.cons_append, List.mapM_cons, hy, ih hrest]
      rfl

end MapM

/-- The files are those of the roots, one root after the other. -/
theorem ofRoots_eq_ok_iff :
    ofRoots tree ignored roots = .ok files ↔
      ∃ parts, List.Forall₂ (fun root part => ofRoot tree ignored root = .ok part) roots parts ∧
        files = parts.flatten := by
  simp only [← mapM_eq_ok_iff, ofRoots]
  cases roots.mapM (ofRoot tree ignored) with
  | error _ => exact ⟨nofun, nofun⟩
  | ok parts => simp [Except.map, eq_comm]

theorem exists_root_of_mem (hfiles : ofRoots tree ignored roots = .ok files) {file : SourceFile}
    (hfile : file ∈ files) :
    ∃ root ∈ roots, ∃ found, ofRoot tree ignored root = .ok found ∧ file ∈ found := by
  obtain ⟨parts, hparts, rfl⟩ := ofRoots_eq_ok_iff.mp hfiles
  obtain ⟨part, hpart, hmem⟩ := List.mem_flatten.mp hfile
  clear hfiles hfile
  induction hparts with
  | nil => cases hpart
  | @cons root here roots parts hroot _ ih =>
    rcases List.mem_cons.mp hpart with rfl | hpart
    · exact ⟨root, List.mem_cons_self, part, hroot, hmem⟩
    · obtain ⟨other, hother, found⟩ := ih hpart
      exact ⟨other, List.mem_cons_of_mem root hother, found⟩

theorem found_of_mem (h : tree.Sound) (hfiles : ofRoots tree ignored roots = .ok files)
    {file : SourceFile} (hfile : file ∈ files) : Found tree file := by
  obtain ⟨root, -, found, hroot, hmem⟩ := exists_root_of_mem hfiles hfile
  exact found_of_mem_ofRoot h hroot hmem

end ClassScope.Discovery
