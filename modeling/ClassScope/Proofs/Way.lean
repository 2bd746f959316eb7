import ClassScope.Proofs.FileTree

/-! Where paths lead, and trees that are alike but for one file. What is done to two such trees
comes out alike: the file is in the way only of those who need a folder where it is. -/
namespace ClassScope.FileTree

variable {tree tree' : FileTree} {place other : Place} {pieces : List Text}

/-- One step along a path, whatever there is. -/
def step (place : Place) (piece : Text) : Place :=
  if Path.isTrivial piece then place
  else if piece = ['.', '.'] then place.dropLast
  else place ++ [piece]

/-- The place that a path leads to, whatever there is. -/
def goal (tree : FileTree) (path : Path) : Place := path.pieces.foldl step (tree.origin path)

/-- The places that a walk comes down to. -/
def descents (place : Place) : List Text → List Place
  | [] => []
  | piece :: rest =>
    if Path.isTrivial piece then descents place rest
    else if piece = ['.', '.'] then descents place.dropLast rest
    else (place ++ [piece]) :: descents (place ++ [piece]) rest

def way (tree : FileTree) (path : Path) : List Place := descents (tree.origin path) path.pieces

theorem eq_step_of_enter? {piece : Text} {next : Place}
    (h : tree.enter? place piece = some next) : next = step place piece := by
  unfold enter? at h
  unfold step
  split_ifs at h ⊢ <;> exact (Option.some.inj h).symm

theorem eq_foldl_step_of_walk {goal : Place} (h : pieces.foldlM tree.enter? place = some goal) :
    goal = pieces.foldl step place := by
  induction pieces generalizing place with
  | nil => exact (Option.some.inj h).symm
  | cons piece pieces ih =>
    rw [List.foldlM_cons] at h
    obtain ⟨next, hnext, hrest⟩ := Option.bind_eq_some_iff.mp h
    rw [List.foldl_cons, ← eq_step_of_enter? hnext]
    exact ih hrest

theorem goal_of_locate? {path : Path} (h : tree.locate? path = some place) :
    tree.goal path = place := by
  unfold locate? at h
  split_ifs at h
  exact (eq_foldl_step_of_walk h).symm

/-- What can be read at a place; nothing if there is no file. -/
def contentAt (tree : FileTree) (place : Place) : Content :=
  match tree.entryAt? place with
  | some (.file content) => content
  | _ => .text []

theorem contentAt_of_unwritten {made : List Place} {writes : List (Place × Content)}
    (h : Evolves tree tree' made writes) (hnone : latest? writes place = none) :
    tree'.contentAt place = tree.contentAt place := by
  by_cases hmade : place ∈ made
  · obtain ⟨hfree, hfolder⟩ := h.made_folder place hmade
    rw [contentAt, contentAt, hfree, hfolder]
  · rw [contentAt, contentAt, h.kept place hmade hnone]

theorem origin_congr (hhere : tree'.here = tree.here) (path : Path) :
    tree'.origin path = tree.origin path := by
  rw [origin, origin, hhere]

theorem goal_congr (hhere : tree'.here = tree.here) (path : Path) :
    tree'.goal path = tree.goal path := by
  rw [goal, goal, origin_congr hhere]

theorem way_congr (hhere : tree'.here = tree.here) (path : Path) :
    tree'.way path = tree.way path := by
  rw [way, way, origin_congr hhere]

/-- Two trees have the same at all places but one. There neither has a folder or both have one; and
unless the relation is loose, both have something there or neither has. -/
structure AlikeBut (place : Place) (loose : Prop) (tree tree' : FileTree) : Prop where
  here_eq : tree'.here = tree.here
  elsewhere : ∀ other, other ≠ place → tree'.entryAt? other = tree.entryAt? other
  folder_eq : tree'.isFolderAt place = tree.isFolderAt place
  there : loose ∨ (tree'.entryAt? place).isSome = (tree.entryAt? place).isSome

namespace AlikeBut

variable {loose : Prop}

theorem isFolderAt_eq (h : AlikeBut place loose tree tree') (other : Place) :
    tree'.isFolderAt other = tree.isFolderAt other := by
  by_cases hother : other = place
  · rw [hother, h.folder_eq]
  · rw [isFolderAt, isFolderAt, h.elsewhere other hother]

theorem target?_eq (h : AlikeBut place loose tree tree') (path : Path) :
    tree'.target? path = tree.target? path :=
  target?_congr h.here_eq h.isFolderAt_eq path

theorem put (h : AlikeBut place loose tree tree') (hother : other ≠ []) (entry : Entry) :
    AlikeBut place loose (tree.put other entry) (tree'.put other entry) where
  here_eq := h.here_eq
  elsewhere third hthird := by
    rw [entryAt?_put hother, entryAt?_put hother, h.elsewhere third hthird]
  folder_eq := by
    have hfolder := h.folder_eq
    unfold isFolderAt at hfolder ⊢
    rw [entryAt?_put hother, entryAt?_put hother]
    split_ifs
    · rfl
    · exact hfolder
  there := by
    rw [entryAt?_put hother, entryAt?_put hother]
    split_ifs
    · exact .inr rfl
    · exact h.there

/-- The same folders are made, with the same success, unless the one place where the trees differ is
on the way. -/
theorem makeFoldersFrom (h : AlikeBut place loose tree tree') (start : Place)
    (hway : loose → place ∉ descents start pieces) :
    (tree'.makeFoldersFrom start pieces).2 = (tree.makeFoldersFrom start pieces).2 ∧
      AlikeBut place loose (tree.makeFoldersFrom start pieces).1
        (tree'.makeFoldersFrom start pieces).1 := by
  induction pieces generalizing tree tree' start with
  | nil => exact ⟨rfl, h⟩
  | cons piece pieces ih =>
    simp only [descents] at hway
    simp only [FileTree.makeFoldersFrom]
    by_cases htrivial : Path.isTrivial piece = true
    · simp only [htrivial, if_true] at hway ⊢
      exact ih h start hway
    by_cases hup : piece = ['.', '.']
    · simp only [hup, if_true] at hway ⊢
      exact ih h start.dropLast hway
    simp only [htrivial, if_false, hup] at hway ⊢
    have hrest : loose → place ∉ descents (start ++ [piece]) pieces :=
      fun hloose hmem => hway hloose (List.mem_cons_of_mem _ hmem)
    -- Both trees go on in the same way: they have the same there, or it is the one place, and the
    -- relation is not loose.
    have hkind : (tree'.entryAt? (start ++ [piece])).isSome =
        (tree.entryAt? (start ++ [piece])).isSome := by
      by_cases hplace : start ++ [piece] = place
      · rcases h.there with hloose | hthere
        · exact absurd (hplace ▸ List.mem_cons_self) (hway hloose)
        · rw [hplace, hthere]
      · rw [h.elsewhere _ hplace]
    have hfolder := h.isFolderAt_eq (start ++ [piece])
    cases hentry : tree.entryAt? (start ++ [piece]) with
    | none =>
      rw [hentry] at hkind
      have hentry' : tree'.entryAt? (start ++ [piece]) = none := by simpa using hkind
      simp only [hentry']
      exact ih (h.put (by simp) .folder) _ hrest
    | some entry =>
      rw [hentry] at hkind
      obtain ⟨entry', hentry'⟩ := Option.isSome_iff_exists.mp hkind
      simp only [isFolderAt, hentry, hentry'] at hfolder
      cases entry with
      | folder =>
        cases entry' with
        | folder =>
          simp only [hentry']
          exact ih h _ hrest
        | file content => cases hfolder
      | file content =>
        cases entry' with
        | folder => cases hfolder
        | file content' =>
          simp only [hentry']
          exact ⟨rfl, h⟩

theorem makeFolders (h : AlikeBut place loose tree tree') {path : Path}
    (hway : loose → place ∉ tree.way path) :
    (tree'.makeFolders path).2 = (tree.makeFolders path).2 ∧
      AlikeBut place loose (tree.makeFolders path).1 (tree'.makeFolders path).1 := by
  unfold FileTree.makeFolders
  rw [origin_congr h.here_eq]
  exact h.makeFoldersFrom _ hway

theorem write? (h : AlikeBut place loose tree tree') (path : Path) (t : Text) :
    (tree.write? path t = none ∧ tree'.write? path t = none) ∨
      ∃ next next', tree.write? path t = some next ∧ tree'.write? path t = some next' ∧
        AlikeBut place loose next next' := by
  unfold FileTree.write?
  rw [h.target?_eq]
  cases htarget : tree.target? path with
  | none => exact .inl ⟨rfl, rfl⟩
  | some other =>
    exact .inr ⟨_, _, rfl, rfl, h.put (target?_ne_folder htarget).1 _⟩

theorem of_evolves {base : FileTree} {writes writes' : List (Place × Content)}
    (h : Evolves base tree [] writes) (h' : Evolves base tree' [] writes')
    (hplace : ∀ w ∈ writes, w.1 = place) (hplace' : ∀ w ∈ writes', w.1 = place)
    (hthere : loose ∨ (tree'.entryAt? place).isSome = (tree.entryAt? place).isSome) :
    AlikeBut place loose tree tree' where
  here_eq := h'.here_eq.trans h.here_eq.symm
  elsewhere other hother := by
    have hnone : latest? writes other = none :=
      latest?_eq_none_iff.mpr fun w hw heq => hother (heq ▸ hplace w hw)
    have hnone' : latest? writes' other = none :=
      latest?_eq_none_iff.mpr fun w hw heq => hother (heq ▸ hplace' w hw)
    rw [h.kept other List.not_mem_nil hnone, h'.kept other List.not_mem_nil hnone']
  folder_eq := by rw [h.isFolderAt_eq, h'.isFolderAt_eq]
  there := hthere

end AlikeBut
end ClassScope.FileTree
