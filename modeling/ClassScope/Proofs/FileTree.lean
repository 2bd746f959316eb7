import Mathlib.Data.List.Induction
import ClassScope.FileTree
import ClassScope.Proofs.Path

/-! What happens to a file tree. Everything that is done to one makes folders where nothing was and
writes files where no folder is; how a tree comes out is said place by place, and a path that named
something goes on to name it. -/
namespace ClassScope

/-- The last value that was written under a key. -/
def latest? {α β : Type} [BEq α] (writes : List (α × β)) (key : α) : Option β :=
  writes.reverse.lookup key

section Latest

variable {α β : Type} [BEq α]

theorem lookup_cons_eq (key : α) (write : α × β) (writes : List (α × β)) :
    (write :: writes).lookup key = if key == write.1 then some write.2 else writes.lookup key := by
  rw [List.lookup_cons]
  cases key == write.1 <;> rfl

@[simp] theorem latest?_append (v w : List (α × β)) (key : α) :
    latest? (v ++ w) key = (latest? w key).or (latest? v key) := by
  simp [latest?, List.lookup_append]

theorem latest?_singleton (write : α × β) (key : α) :
    latest? [write] key = if key == write.1 then some write.2 else none :=
  lookup_cons_eq key write []

theorem latest?_cons (write : α × β) (writes : List (α × β)) (key : α) :
    latest? (write :: writes) key =
      (latest? writes key).or (if key == write.1 then some write.2 else none) := by
  rw [← List.singleton_append, latest?_append, latest?_singleton]

variable [LawfulBEq α]

theorem latest?_eq_none_iff {writes : List (α × β)} {key : α} :
    latest? writes key = none ↔ ∀ w ∈ writes, w.1 ≠ key := by
  simp only [latest?, List.lookup_eq_none_iff, List.mem_reverse, bne_iff_ne]
  exact forall₂_congr fun _ _ => ne_comm

theorem lookup_eq_some_iff_mem {writes : List (α × β)} (honce : (writes.map (·.1)).Nodup) {key : α}
    {value : β} : writes.lookup key = some value ↔ (key, value) ∈ writes := by
  induction writes with
  | nil => simp
  | cons w writes ih =>
    obtain ⟨hfirst, hrest⟩ := List.nodup_cons.mp honce
    rw [lookup_cons_eq, List.mem_cons, ← ih hrest]
    split
    · rename_i hkey
      obtain rfl := beq_iff_eq.mp hkey
      have hnone : (w.1, value) ∉ writes :=
        fun hmem => hfirst (List.mem_map_of_mem (f := (·.1)) hmem)
      simp [ih hrest, hnone, Prod.ext_iff, eq_comm]
    · rename_i hkey
      have hne : (key, value) ≠ w := fun heq => hkey (beq_iff_eq.mpr (congrArg Prod.fst heq))
      simp [hne]

theorem mem_of_latest? {writes : List (α × β)} {key : α} {value : β}
    (h : latest? writes key = some value) : (key, value) ∈ writes := by
  obtain ⟨v, w, hsplit, -⟩ := List.lookup_eq_some_iff.mp h
  exact List.mem_reverse.mp (hsplit ▸ by simp)

end Latest

namespace FileTree

variable {tree tree' : FileTree} {place : Place}

theorem find?_of_locate? {path : Path} (h : tree.locate? path = some place) :
    tree.find? path = tree.entryAt? place := by
  rw [find?, h, Option.bind_some]

@[simp] theorem entryAt?_nil (tree : FileTree) : tree.entryAt? [] = some .folder := rfl

theorem entryAt?_eq_some_iff (honce : (tree.entries.map (·.1)).Nodup) (hplace : place ≠ [])
    {entry : Entry} : tree.entryAt? place = some entry ↔ (place, entry) ∈ tree.entries := by
  rw [entryAt?, if_neg (by simpa using hplace), lookup_eq_some_iff_mem honce]

/-- The order in which the entries are told does not count. -/
theorem entryAt?_of_perm (honce : (tree.entries.map (·.1)).Nodup)
    (h : tree'.entries.Perm tree.entries) (place : Place) :
    tree'.entryAt? place = tree.entryAt? place := by
  by_cases hplace : place = []
  · rw [hplace, entryAt?_nil, entryAt?_nil]
  · have honce' : (tree'.entries.map (·.1)).Nodup := (h.map _).nodup_iff.mpr honce
    refine Option.ext fun entry => ?_
    rw [entryAt?_eq_some_iff honce hplace, entryAt?_eq_some_iff honce' hplace, h.mem_iff]

theorem find?_congr (hhere : tree'.here = tree.here)
    (h : ∀ place, tree'.entryAt? place = tree.entryAt? place) (path : Path) :
    tree'.find? path = tree.find? path := by
  have hentry : tree'.entryAt? = tree.entryAt? := funext h
  have henter : tree'.enter? = tree.enter? := by
    funext place piece
    rw [enter?, enter?, isFolderAt, isFolderAt, hentry]
  have hlocate : tree'.locate? path = tree.locate? path := by
    rw [locate?, locate?, origin, origin, hhere, henter]
  rw [find?, find?, hlocate, hentry]

theorem isFolderAt_iff : tree.isFolderAt place = true ↔ tree.entryAt? place = some .folder := by
  simp [isFolderAt]

theorem not_isFolderAt_iff :
    tree.isFolderAt place = false ↔ tree.entryAt? place ≠ some .folder := by
  simp [isFolderAt]

theorem lookup_map_put (place other : Place) (entry : Entry) (es : List (Place × Entry)) :
    (es.map fun e => if e.1 == place then (place, entry) else e).lookup other =
      if other == place then (if es.any (·.1 == place) then some entry else none)
      else es.lookup other := by
  induction es with
  | nil => simp
  | cons e es ih =>
    rw [List.map_cons, lookup_cons_eq, lookup_cons_eq, ih, List.any_cons]
    by_cases he : e.1 = place
    · by_cases ho : other = place <;> simp [he, ho]
    · by_cases ho : other = place
      · have hne : ¬place = e.1 := fun h => he h.symm
        rw [beq_false_of_ne he, Bool.false_or]
        simp [ho, hne]
      · simp [he, ho]

theorem entryAt?_put (hplace : place ≠ []) (entry : Entry) (other : Place) :
    (tree.put place entry).entryAt? other =
      if other = place then some entry else tree.entryAt? other := by
  by_cases hnil : other = []
  · have hne : ¬([] : Place) = place := fun h => hplace h.symm
    simp [hnil, hne]
  have hlookup : (tree.put place entry).entries.lookup other =
      if other = place then some entry else tree.entries.lookup other := by
    cases hany : tree.entries.any (·.1 == place) with
    | true =>
      simp only [put, hany, if_true, lookup_map_put]
      by_cases ho : other = place <;> simp [ho]
    | false =>
      simp only [put, hany, Bool.false_eq_true, if_false, List.lookup_append, lookup_cons_eq,
        List.lookup_nil]
      by_cases ho : other = place
      · have hnone : tree.entries.lookup place = none := by
          rw [List.lookup_eq_none_iff]
          intro e he
          have hne := List.any_eq_false.mp hany e he
          exact bne_iff_ne.mpr fun h => hne (beq_iff_eq.mpr h.symm)
        simp [ho, hnone]
      · simp [ho]
  simp only [entryAt?, List.isEmpty_iff, hnil, if_false, hlookup]

/-- What becomes of a tree in which folders are made and files are written. -/
structure Evolves (tree tree' : FileTree) (made : List Place)
    (writes : List (Place × Content)) : Prop where
  here_eq : tree'.here = tree.here
  made_folder : ∀ place ∈ made,
    tree.entryAt? place = none ∧ tree'.entryAt? place = some .folder
  written : ∀ place content, latest? writes place = some content →
    tree.entryAt? place ≠ some .folder ∧ tree'.entryAt? place = some (.file content)
  kept : ∀ place, place ∉ made → latest? writes place = none →
    tree'.entryAt? place = tree.entryAt? place

namespace Evolves

variable {tree'' : FileTree} {made made' : List Place} {writes writes' : List (Place × Content)}

protected theorem refl (tree : FileTree) : Evolves tree tree [] [] :=
  ⟨rfl, nofun, nofun, fun _ _ _ => rfl⟩

theorem put_file (hplace : place ≠ []) (hfolder : tree.entryAt? place ≠ some .folder)
    (content : Content) :
    Evolves tree (tree.put place (.file content)) [] [(place, content)] where
  here_eq := rfl
  made_folder := by simp
  written := by
    intro other written hwritten
    rw [latest?_singleton] at hwritten
    split_ifs at hwritten with hother
    cases hwritten
    obtain rfl := beq_iff_eq.mp hother
    exact ⟨hfolder, by simp [entryAt?_put hplace]⟩
  kept := by
    intro other _ hnone
    rw [latest?_singleton] at hnone
    split_ifs at hnone with hother
    rw [entryAt?_put hplace, if_neg fun h => hother (beq_iff_eq.mpr h)]

theorem put_folder (hnone : tree.entryAt? place = none) :
    Evolves tree (tree.put place .folder) [place] [] := by
  have hplace : place ≠ [] := by
    rintro rfl
    cases hnone
  refine ⟨rfl, ?_, nofun, ?_⟩
  · intro other hother
    obtain rfl := List.mem_singleton.mp hother
    exact ⟨hnone, by simp [entryAt?_put hplace]⟩
  · intro other hother _
    rw [entryAt?_put hplace, if_neg (by simpa using hother)]

theorem folder (h : Evolves tree tree' made writes) (hfolder : tree.entryAt? place = some .folder) :
    tree'.entryAt? place = some .folder := by
  have hmade : place ∉ made := by
    intro hmem
    rw [(h.made_folder place hmem).1] at hfolder
    cases hfolder
  cases hlatest : latest? writes place with
  | none => rw [h.kept place hmade hlatest, hfolder]
  | some content => exact absurd hfolder (h.written place content hlatest).1

theorem isSome (h : Evolves tree tree' made writes) (hsome : (tree.entryAt? place).isSome = true) :
    (tree'.entryAt? place).isSome = true := by
  have hmade : place ∉ made := by
    intro hmem
    rw [(h.made_folder place hmem).1] at hsome
    cases hsome
  cases hlatest : latest? writes place with
  | none => rwa [h.kept place hmade hlatest]
  | some content => rw [(h.written place content hlatest).2]; rfl

protected theorem trans (h : Evolves tree tree' made writes)
    (h' : Evolves tree' tree'' made' writes') :
    Evolves tree tree'' (made ++ made') (writes ++ writes') where
  here_eq := h'.here_eq.trans h.here_eq
  made_folder := by
    intro place hplace
    rcases List.mem_append.mp hplace with hmem | hmem
    · obtain ⟨hnone, hfolder⟩ := h.made_folder place hmem
      exact ⟨hnone, h'.folder hfolder⟩
    · obtain ⟨hnone, hfolder⟩ := h'.made_folder place hmem
      refine ⟨?_, hfolder⟩
      cases hentry : tree.entryAt? place with
      | none => rfl
      | some entry =>
        have hsome : (tree'.entryAt? place).isSome = true := h.isSome (by rw [hentry]; rfl)
        rw [hnone] at hsome
        cases hsome
  written := by
    intro place content hlatest
    rw [latest?_append] at hlatest
    cases hlater : latest? writes' place with
    | some later =>
      rw [hlater, Option.some_or] at hlatest
      cases hlatest
      obtain ⟨hfile, hwritten⟩ := h'.written place content hlater
      exact ⟨fun hfolder => hfile (h.folder hfolder), hwritten⟩
    | none =>
      rw [hlater, Option.none_or] at hlatest
      obtain ⟨hfile, hwritten⟩ := h.written place content hlatest
      have hmade : place ∉ made' := by
        intro hmem
        rw [(h'.made_folder place hmem).1] at hwritten
        cases hwritten
      exact ⟨hfile, (h'.kept place hmade hlater).trans hwritten⟩
  kept := by
    intro place hmade hlatest
    rw [latest?_append, Option.or_eq_none_iff] at hlatest
    rw [List.mem_append, not_or] at hmade
    rw [h'.kept place hmade.2 hlatest.1, h.kept place hmade.1 hlatest.2]

theorem enter?_eq (h : Evolves tree tree' made writes) {piece : Text} {next : Place}
    (henter : tree.enter? place piece = some next) : tree'.enter? place piece = some next := by
  unfold enter? at henter ⊢
  split at henter
  · rename_i hfolder
    rw [if_pos (isFolderAt_iff.mpr (h.folder (isFolderAt_iff.mp hfolder)))]
    by_cases hsome : (tree.entryAt? (place ++ [piece])).isSome = true
    · rw [if_pos hsome] at henter
      rwa [if_pos (h.isSome hsome)]
    · split_ifs at henter with htrivial hup
      · rwa [if_pos htrivial]
      · rwa [if_neg htrivial, if_pos hup]
  · cases henter

theorem walk_eq (h : Evolves tree tree' made writes) {pieces : List Text} {goal : Place}
    (hwalk : pieces.foldlM tree.enter? place = some goal) :
    pieces.foldlM tree'.enter? place = some goal := by
  induction pieces generalizing place with
  | nil => exact hwalk
  | cons piece pieces ih =>
    rw [List.foldlM_cons] at hwalk ⊢
    obtain ⟨next, hnext, hrest⟩ := Option.bind_eq_some_iff.mp hwalk
    exact Option.bind_eq_some_iff.mpr ⟨next, h.enter?_eq hnext, ih hrest⟩

theorem origin_eq (h : Evolves tree tree' made writes) (path : Path) :
    tree'.origin path = tree.origin path := by
  rw [origin, origin, h.here_eq]

theorem locate?_eq (h : Evolves tree tree' made writes) {path : Path}
    (hpath : tree.locate? path = some place) : tree'.locate? path = some place := by
  unfold locate? at hpath ⊢
  split_ifs at hpath ⊢
  rw [h.origin_eq]
  exact h.walk_eq hpath

end Evolves

/-- A walk that ends in a folder starts in one. -/
theorem isFolderAt_of_walk {pieces : List Text} {goal : Place}
    (hwalk : pieces.foldlM tree.enter? place = some goal) (hgoal : tree.isFolderAt goal = true) :
    tree.isFolderAt place = true := by
  cases pieces with
  | nil =>
    cases hwalk
    exact hgoal
  | cons piece pieces =>
    rw [List.foldlM_cons] at hwalk
    obtain ⟨next, hnext, -⟩ := Option.bind_eq_some_iff.mp hwalk
    unfold enter? at hnext
    split_ifs at hnext with hfolder <;> exact hfolder

theorem target?_eq_some_iff {path : Path} :
    tree.target? path = some place ↔
      ∃ before name folder, path.pieces = before ++ [name] ∧ Path.isTrivial name = false ∧
        name ≠ ['.', '.'] ∧ before.foldlM tree.enter? (tree.origin path) = some folder ∧
        tree.isFolderAt folder = true ∧ tree.isFolderAt (folder ++ [name]) = false ∧
        place = folder ++ [name] := by
  unfold target?
  constructor
  · intro h
    split at h
    · rename_i name before hpieces
      split_ifs at h with hname
      split at h
      · rename_i folder hfolder
        split_ifs at h with hfree
        cases h
        simp only [Bool.or_eq_true, beq_iff_eq, not_or, Bool.not_eq_true] at hname
        simp only [Bool.and_eq_true, Bool.not_eq_true'] at hfree
        refine ⟨before.reverse, name, folder, ?_, hname.1, hname.2, hfolder, hfree.1, hfree.2, rfl⟩
        rw [← List.reverse_cons, ← hpieces, List.reverse_reverse]
      · cases h
    · cases h
  · rintro ⟨before, name, folder, hpieces, htrivial, hup, hwalk, hfolder, hfree, rfl⟩
    simp [hpieces, htrivial, hup, hwalk, hfolder, hfree]

/-- A walk from folder to folder does not need to know of the files. -/
theorem walk_congr (h : ∀ place, tree'.isFolderAt place = tree.isFolderAt place)
    {pieces : List Text} {goal : Place} (hwalk : pieces.foldlM tree.enter? place = some goal)
    (hgoal : tree.isFolderAt goal = true) : pieces.foldlM tree'.enter? place = some goal := by
  induction pieces generalizing place with
  | nil => exact hwalk
  | cons piece pieces ih =>
    rw [List.foldlM_cons] at hwalk ⊢
    obtain ⟨next, hnext, hrest⟩ := Option.bind_eq_some_iff.mp hwalk
    have hfolder := isFolderAt_of_walk hrest hgoal
    rw [← h] at hfolder
    refine Option.bind_eq_some_iff.mpr ⟨next, ?_, ih hrest⟩
    unfold enter? at hnext ⊢
    rw [← h] at hnext
    split_ifs at hnext with hplace htrivial hup hsome
    · rwa [if_pos hplace, if_pos htrivial]
    · rwa [if_pos hplace, if_neg htrivial, if_pos hup]
    · cases hnext
      rw [if_pos hplace, if_neg htrivial, if_neg hup, isFolderAt_iff.mp hfolder]
      rfl

theorem target?_of_isFolderAt_eq (hhere : tree'.here = tree.here)
    (h : ∀ place, tree'.isFolderAt place = tree.isFolderAt place) {path : Path}
    (hpath : tree.target? path = some place) : tree'.target? path = some place := by
  obtain ⟨before, name, folder, hpieces, htrivial, hup, hwalk, hfolder, hfree, rfl⟩ :=
    target?_eq_some_iff.mp hpath
  have horigin : tree'.origin path = tree.origin path := by rw [origin, origin, hhere]
  refine target?_eq_some_iff.mpr ⟨before, name, folder, hpieces, htrivial, hup, ?_, ?_, ?_, rfl⟩
  · rw [horigin]
    exact walk_congr h hwalk hfolder
  · rwa [h]
  · rwa [h]

theorem target?_congr (hhere : tree'.here = tree.here)
    (h : ∀ place, tree'.isFolderAt place = tree.isFolderAt place) (path : Path) :
    tree'.target? path = tree.target? path := by
  ext place
  exact ⟨target?_of_isFolderAt_eq hhere.symm fun place => (h place).symm,
    target?_of_isFolderAt_eq hhere h⟩

namespace Evolves

variable {writes : List (Place × Content)}

/-- Writing files makes no folder and takes none away. -/
theorem isFolderAt_eq (h : Evolves tree tree' [] writes) (place : Place) :
    tree'.isFolderAt place = tree.isFolderAt place := by
  cases hlatest : latest? writes place with
  | none => rw [isFolderAt, isFolderAt, h.kept place List.not_mem_nil hlatest]
  | some content =>
    obtain ⟨hfile, hwritten⟩ := h.written place content hlatest
    rw [not_isFolderAt_iff.mpr hfile, not_isFolderAt_iff, hwritten]
    nofun

theorem target?_eq (h : Evolves tree tree' [] writes) (path : Path) :
    tree'.target? path = tree.target? path :=
  target?_congr h.here_eq h.isFolderAt_eq path

end Evolves

/-! What the operations do. -/

theorem target?_ne_folder {path : Path} (h : tree.target? path = some place) :
    place ≠ [] ∧ tree.entryAt? place ≠ some .folder := by
  obtain ⟨before, name, folder, -, -, -, -, -, hfree, rfl⟩ := target?_eq_some_iff.mp h
  exact ⟨by simp, not_isFolderAt_iff.mp hfree⟩

/-- A file that was written is found under its path. -/
theorem write?_eq_some {path : Path} {t : Text} (h : tree.write? path t = some tree') :
    ∃ place, Evolves tree tree' [] [(place, .text t)] ∧ tree'.locate? path = some place := by
  obtain ⟨place, hplace, rfl⟩ := Option.map_eq_some_iff.mp h
  obtain ⟨hne, hfile⟩ := target?_ne_folder hplace
  have hevolves := Evolves.put_file hne hfile (.text t)
  refine ⟨place, hevolves, ?_⟩
  obtain ⟨before, name, folder, hpieces, htrivial, hup, hwalk, hfolder, -, rfl⟩ :=
    target?_eq_some_iff.mp hplace
  have hpath : path ≠ [] := by
    rintro rfl
    have hname : name ∈ Path.pieces [] := by rw [hpieces]; simp
    obtain rfl := List.mem_singleton.mp hname
    cases htrivial
  have henter : (tree.put (folder ++ [name]) (.file (.text t))).enter? folder name =
      some (folder ++ [name]) := by
    have hfolder' := isFolderAt_iff.mpr (hevolves.folder (isFolderAt_iff.mp hfolder))
    simp [enter?, hfolder', htrivial, hup, entryAt?_put hne]
  rw [locate?, if_neg (by simpa using hpath), hpieces, List.foldlM_append, hevolves.origin_eq,
    hevolves.walk_eq hwalk]
  simpa using henter

theorem append?_eq_some {path : Path} {t : Text} (h : tree.append? path t = some tree') :
    ∃ place content, tree.target? path = some place ∧
      Evolves tree tree' [] [(place, content)] := by
  obtain ⟨place, hplace, rfl⟩ := Option.map_eq_some_iff.mp h
  obtain ⟨hne, hfile⟩ := target?_ne_folder hplace
  split
  · exact ⟨place, _, hplace, .put_file hne hfile _⟩
  · exact ⟨place, _, hplace, .put_file hne hfile _⟩

theorem evolves_makeFoldersFrom (tree : FileTree) (place : Place) (pieces : List Text) :
    ∃ made, Evolves tree (tree.makeFoldersFrom place pieces).1 made [] := by
  fun_induction makeFoldersFrom tree place pieces with
  | case1 tree => exact ⟨[], .refl tree⟩
  | case2 _ _ _ _ _ ih => exact ih
  | case3 _ _ _ _ ih => exact ih
  | case4 _ _ _ _ _ _ _ ih => exact ih
  | case5 tree => exact ⟨[], .refl tree⟩
  | case6 tree place piece rest _ _ hnone ih =>
    obtain ⟨made, hmade⟩ := ih
    exact ⟨_, (Evolves.put_folder hnone).trans hmade⟩

/-! Trees as a disk has them. -/

/-- What is in a tree is in a folder of the tree; each place is taken once, by something with a
name. -/
structure Sound (tree : FileTree) : Prop where
  in_folder : ∀ e ∈ tree.entries, tree.isFolderAt e.1.dropLast = true
  named : ∀ e ∈ tree.entries, ∀ name ∈ e.1, Path.IsName name
  once : (tree.entries.map (·.1)).Nodup

instance (tree : FileTree) : Decidable tree.Sound :=
  decidable_of_iff ((∀ e ∈ tree.entries, tree.isFolderAt e.1.dropLast = true) ∧
      (∀ e ∈ tree.entries, ∀ name ∈ e.1, Path.IsName name) ∧ (tree.entries.map (·.1)).Nodup)
    ⟨fun h => ⟨h.1, h.2.1, h.2.2⟩, fun h => ⟨h.in_folder, h.named, h.once⟩⟩

namespace Sound

theorem isFolderAt_dropLast (h : tree.Sound) (hsome : (tree.entryAt? place).isSome = true) :
    tree.isFolderAt place.dropLast = true := by
  by_cases hnil : place = []
  · subst hnil
    exact isFolderAt_iff.mpr (entryAt?_nil tree)
  · obtain ⟨entry, hentry⟩ := Option.isSome_iff_exists.mp hsome
    have hlookup : tree.entries.lookup place = some entry := by simpa [entryAt?, hnil] using hentry
    obtain ⟨front, back, hentries, -⟩ := List.lookup_eq_some_iff.mp hlookup
    exact h.in_folder (place, entry) (hentries ▸ by simp)

theorem isFolderAt_of_append (h : tree.Sound) {a b : Place} (hb : b ≠ [])
    (hsome : (tree.entryAt? (a ++ b)).isSome = true) : tree.isFolderAt a = true := by
  induction b using List.reverseRecOn with
  | nil => exact absurd rfl hb
  | append_singleton b name ih =>
    have hfolder := h.isFolderAt_dropLast hsome
    rw [← List.append_assoc, List.dropLast_concat] at hfolder
    by_cases hnil : b = []
    · simpa [hnil] using hfolder
    · exact ih hnil (by rw [isFolderAt_iff.mp hfolder]; rfl)

theorem entryAt?_of_mem (h : tree.Sound) {entry : Entry} (hplace : place ≠ [])
    (hmem : (place, entry) ∈ tree.entries) : tree.entryAt? place = some entry :=
  (entryAt?_eq_some_iff h.once hplace).mpr hmem

theorem locate?_file (h : tree.Sound) {path : Path} (hpath : tree.locate? path = some place)
    (hfile : tree.isFolderAt place = false) :
    ∃ before name folder content, path.pieces = before ++ [name] ∧ Path.IsName name ∧
      place = folder ++ [name] ∧ tree.entryAt? place = some (.file content) := by
  obtain ⟨before, name, hpieces⟩ :=
    (List.eq_nil_or_concat' path.pieces).resolve_left (Path.pieces_ne_nil path)
  have hslash : '/' ∉ name := Path.not_mem_of_mem_pieces (by rw [hpieces]; simp)
  unfold locate? at hpath
  split_ifs at hpath
  rw [hpieces, List.foldlM_append] at hpath
  obtain ⟨folder, -, hlast⟩ := Option.bind_eq_some_iff.mp hpath
  have henter : tree.enter? folder name = some place := by simpa using hlast
  unfold enter? at henter
  split_ifs at henter with hfolder htrivial hup hsome
  · cases henter
    rw [hfolder] at hfile
    cases hfile
  · cases henter
    rw [h.isFolderAt_dropLast (by rw [isFolderAt_iff.mp hfolder]; rfl)] at hfile
    cases hfile
  · cases henter
    obtain ⟨entry, hentry⟩ := Option.isSome_iff_exists.mp hsome
    cases entry with
    | folder => exact absurd hentry (not_isFolderAt_iff.mp hfile)
    | file content =>
      simp only [Path.isTrivial, Bool.or_eq_true, List.isEmpty_iff, beq_iff_eq, not_or] at htrivial
      exact ⟨before, name, folder, content, hpieces, ⟨htrivial.1, htrivial.2, hup, hslash⟩, rfl,
        hentry⟩

/-- The way down from a folder to what is below it. -/
theorem walk_down (h : tree.Sound) {names : List Text} (hnames : ∀ name ∈ names, Path.IsName name)
    (hplace : tree.isFolderAt place = true)
    (hsome : (tree.entryAt? (place ++ names)).isSome = true) :
    names.foldlM tree.enter? place = some (place ++ names) := by
  induction names generalizing place with
  | nil => simp
  | cons name names ih =>
    obtain ⟨hname, hrest⟩ := List.forall_mem_cons.mp hnames
    have hsome' : (tree.entryAt? (place ++ [name] ++ names)).isSome = true := by simpa using hsome
    have hnext : (tree.entryAt? (place ++ [name])).isSome = true := by
      by_cases hnil : names = []
      · simpa [hnil] using hsome'
      · rw [isFolderAt_iff.mp (h.isFolderAt_of_append hnil hsome')]
        rfl
    have henter : tree.enter? place name = some (place ++ [name]) := by
      simp [enter?, hplace, hname.not_isTrivial, hname.ne_up, hnext]
    rw [List.foldlM_cons, henter]
    by_cases hnil : names = []
    · simp [hnil]
    · have hwalk := ih hrest (h.isFolderAt_of_append hnil hsome') hsome'
      simpa using hwalk

end Sound

theorem walk_nil (hplace : tree.isFolderAt place = true) {pieces : List Text}
    (hpieces : ∀ piece ∈ pieces, piece = []) : pieces.foldlM tree.enter? place = some place := by
  induction pieces with
  | nil => rfl
  | cons piece pieces ih =>
    obtain ⟨rfl, hrest⟩ := List.forall_mem_cons.mp hpieces
    have henter : tree.enter? place [] = some place := by simp [enter?, hplace, Path.isTrivial]
    rw [List.foldlM_cons, henter]
    exact ih hrest

theorem walk_eq_none (hplace : tree.isFolderAt place = false) {pieces : List Text}
    (hpieces : pieces ≠ []) : pieces.foldlM tree.enter? place = none := by
  obtain ⟨piece, rest, rfl⟩ := List.exists_cons_of_ne_nil hpieces
  simp [enter?, hplace]

theorem eq_append_of_walk {names : List Text} (hnames : ∀ name ∈ names, Path.IsName name)
    {goal : Place} (hwalk : names.foldlM tree.enter? place = some goal) :
    goal = place ++ names := by
  induction names generalizing place with
  | nil => simpa using hwalk.symm
  | cons name names ih =>
    obtain ⟨hname, hrest⟩ := List.forall_mem_cons.mp hnames
    rw [List.foldlM_cons] at hwalk
    obtain ⟨next, hnext, hwalk'⟩ := Option.bind_eq_some_iff.mp hwalk
    unfold enter? at hnext
    rw [hname.not_isTrivial, if_neg Bool.false_ne_true, if_neg hname.ne_up] at hnext
    split_ifs at hnext
    cases hnext
    rw [ih hrest hwalk', List.append_assoc]
    rfl

/-- Where a path that is seen from `folder` starts. -/
def base? (tree : FileTree) (folder : Path) : Option Place :=
  if folder = [] then some tree.here else tree.locate? folder

theorem base?_of_locate? {folder : Path} (h : tree.locate? folder = some place) :
    tree.base? folder = some place := by
  rw [base?, if_neg, h]
  rintro rfl
  cases h

/-- A path below a folder leads on from the place of the folder. -/
theorem locate?_join {folder relative : Path} (hrelative : Path.IsRelative relative) :
    tree.locate? (folder.join relative) =
      (tree.base? folder).bind fun base => relative.pieces.foldlM tree.enter? base := by
  have habsolute := hrelative.not_isAbsolute
  by_cases hfolder : folder = []
  · have hne : relative.isEmpty = false := by simpa using hrelative.ne_nil
    simp [base?, locate?, origin, Path.join, hfolder, habsolute, hne]
  · obtain ⟨lead, trail, hpieces, htrail, hjoin, hne, hsame⟩ :=
      Path.pieces_join_path hfolder habsolute
    have horigin : tree.origin (folder.join relative) = tree.origin folder := by
      rw [origin, origin, hsame]
    rw [base?, if_neg hfolder, locate?, locate?, if_neg (by simpa using hne),
      if_neg (by simpa using hfolder), hpieces, hjoin, horigin, List.foldlM_append,
      List.foldlM_append]
    cases lead.foldlM tree.enter? (tree.origin folder) with
    | none => rfl
    | some base =>
      cases hbase : tree.isFolderAt base with
      | true => simp [walk_nil hbase htrail]
      | false =>
        have hnone := walk_eq_none hbase (Path.pieces_ne_nil relative)
        cases trail with
        | nil => simp [hnone]
        | cons piece trail => simp [hnone, enter?, hbase]

/-- Paths below one folder that lead to one place are the same. -/
theorem relative_eq_of_locate? {folder r r' : Path} (hr : Path.IsRelative r)
    (hr' : Path.IsRelative r') (h : tree.locate? (folder.join r) = some place)
    (h' : tree.locate? (folder.join r') = some place) : r = r' := by
  rw [locate?_join hr] at h
  rw [locate?_join hr'] at h'
  obtain ⟨base, hbase, hwalk⟩ := Option.bind_eq_some_iff.mp h
  obtain ⟨base', hbase', hwalk'⟩ := Option.bind_eq_some_iff.mp h'
  obtain rfl : base = base' := Option.some.inj (hbase.symm.trans hbase')
  have hpieces := (eq_append_of_walk hr hwalk).symm.trans (eq_append_of_walk hr' hwalk')
  exact Path.pieces_injective (List.append_cancel_left hpieces)

end FileTree
end ClassScope
