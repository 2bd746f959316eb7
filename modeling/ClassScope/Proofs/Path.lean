import Mathlib.Data.List.Basic
import ClassScope.Path

/-! Paths and their pieces. A path is its pieces with slashes between them, and the name of a file
is the last of them. -/
namespace ClassScope.Path

/-- A piece that can name something in a folder. -/
structure IsName (piece : Text) : Prop where
  ne_nil : piece ≠ []
  ne_here : piece ≠ ['.']
  ne_up : piece ≠ ['.', '.']
  no_slash : '/' ∉ piece

instance (piece : Text) : Decidable (IsName piece) :=
  decidable_of_iff (piece ≠ [] ∧ piece ≠ ['.'] ∧ piece ≠ ['.', '.'] ∧ '/' ∉ piece)
    ⟨fun h => ⟨h.1, h.2.1, h.2.2.1, h.2.2.2⟩, fun h => ⟨h.ne_nil, h.ne_here, h.ne_up, h.no_slash⟩⟩

theorem IsName.not_isTrivial {name : Text} (h : IsName name) : isTrivial name = false := by
  simp [isTrivial, h.ne_nil, h.ne_here]

theorem pieces_ne_nil (p : Path) : pieces p ≠ [] := by
  fun_cases pieces p <;> simp

theorem pieces_of_not_mem {t : Text} (h : '/' ∉ t) : pieces t = [t] := by
  induction t with
  | nil => rfl
  | cons c t ih =>
    have hc : c ≠ '/' := fun heq => h (by simp [heq])
    simp [pieces, hc, ih fun ht => h (List.mem_cons_of_mem c ht)]

theorem pieces_append_slash (p q : Path) : pieces (p ++ '/' :: q) = pieces p ++ pieces q := by
  induction p with
  | nil => simp [pieces]
  | cons c p ih =>
    obtain ⟨s, r, hp⟩ := List.exists_cons_of_ne_nil (pieces_ne_nil p)
    rw [List.cons_append, pieces, pieces, ih, hp]
    split <;> rfl

theorem not_mem_of_mem_pieces {p : Path} {piece : Text} (h : piece ∈ pieces p) : '/' ∉ piece := by
  induction p generalizing piece with
  | nil =>
    obtain rfl := List.mem_singleton.mp h
    simp
  | cons c p ih =>
    obtain ⟨s, r, hp⟩ := List.exists_cons_of_ne_nil (pieces_ne_nil p)
    rw [pieces] at h
    split at h
    · rcases List.mem_cons.mp h with rfl | h
      · simp
      · exact ih h
    · rename_i hc
      rw [hp] at h
      rcases List.mem_cons.mp h with rfl | h
      · have hs : '/' ∉ s := ih (by simp [hp])
        simpa [hs] using fun heq => hc heq.symm
      · exact ih (by simp [hp, h])

theorem join_cons {t : Text} {ts : List Text} (h : ts ≠ []) :
    Text.join ['/'] (t :: ts) = t ++ '/' :: Text.join ['/'] ts := by
  obtain ⟨s, r, rfl⟩ := List.exists_cons_of_ne_nil h
  simp [Text.join]

/-- A path is read back from its pieces. -/
theorem join_pieces (p : Path) : Text.join ['/'] (pieces p) = p := by
  induction p with
  | nil => rfl
  | cons c p ih =>
    obtain ⟨s, r, hp⟩ := List.exists_cons_of_ne_nil (pieces_ne_nil p)
    rw [pieces]
    split
    · rename_i hc
      rw [join_cons (pieces_ne_nil p), ih, hc]
      rfl
    · rw [hp] at ih ⊢
      cases r with
      | nil => exact congrArg (c :: ·) ih
      | cons _ _ =>
        rw [join_cons (by simp)] at ih
        rw [join_cons (by simp), List.cons_append, ih]

theorem pieces_join {names : List Text} (hne : names ≠ []) (h : ∀ name ∈ names, '/' ∉ name) :
    pieces (Text.join ['/'] names) = names := by
  induction names with
  | nil => exact absurd rfl hne
  | cons name names ih =>
    obtain ⟨hname, hrest⟩ := List.forall_mem_cons.mp h
    by_cases hnil : names = []
    · subst hnil
      exact pieces_of_not_mem hname
    · rw [join_cons hnil, pieces_append_slash, pieces_of_not_mem hname, ih hnil hrest]
      rfl

theorem pieces_injective {p q : Path} (h : pieces p = pieces q) : p = q := by
  rw [← join_pieces p, h, join_pieces]

/-- A path of names, from the folder it is seen from. -/
def IsRelative (p : Path) : Prop := ∀ piece ∈ pieces p, IsName piece

theorem IsRelative.ne_nil {p : Path} (h : IsRelative p) : p ≠ [] := by
  rintro rfl
  exact (h [] (by simp [pieces])).ne_nil rfl

theorem IsRelative.not_isAbsolute {p : Path} (h : IsRelative p) : isAbsolute p = false := by
  cases p with
  | nil => rfl
  | cons c p =>
    by_cases hc : c = '/'
    · exact absurd rfl (h [] (by simp [pieces, hc])).ne_nil
    · simp [isAbsolute, hc]

theorem isRelative_of_isName {name : Text} (h : IsName name) : IsRelative name := by
  intro piece hpiece
  rw [pieces_of_not_mem h.no_slash, List.mem_singleton] at hpiece
  exact hpiece ▸ h

theorem isRelative_join {names : List Text} (hne : names ≠ [])
    (h : ∀ name ∈ names, IsName name) : IsRelative (Text.join ['/'] names) := by
  intro piece hpiece
  rw [pieces_join hne fun name hname => (h name hname).no_slash] at hpiece
  exact h piece hpiece

/-- Seen from a folder, the pieces of a path follow those of the folder; a slash at the end of the
folder says nothing. -/
theorem pieces_join_path {p q : Path} (hp : p ≠ []) (hq : isAbsolute q = false) :
    ∃ lead trail, pieces p = lead ++ trail ∧ (∀ piece ∈ trail, piece = []) ∧
      pieces (p.join q) = lead ++ pieces q ∧ p.join q ≠ [] ∧
      isAbsolute (p.join q) = isAbsolute p := by
  obtain ⟨c, t, rfl⟩ := List.exists_cons_of_ne_nil hp
  by_cases hslash : (c :: t).getLast? = some '/'
  · obtain ⟨front, hfront⟩ := List.getLast?_eq_some_iff.mp hslash
    have hjoin : Path.join (c :: t) q = c :: t ++ q := by simp [join, hq, hslash]
    refine ⟨pieces front, [[]], ?_, by simp, ?_, by simp [hjoin], by simp [hjoin, isAbsolute]⟩
    · rw [hfront, pieces_append_slash]
      rfl
    · rw [hjoin, hfront, List.append_assoc]
      exact pieces_append_slash front q
  · have hjoin : Path.join (c :: t) q = c :: t ++ '/' :: q := by simp [join, hq, hslash]
    exact ⟨pieces (c :: t), [], by simp, by simp, by rw [hjoin, pieces_append_slash],
      by simp [hjoin], by simp [hjoin, isAbsolute]⟩

theorem fileName?_eq {p : Path} {before : List Text} {name : Text}
    (hp : pieces p = before ++ [name]) (hname : IsName name) : fileName? p = some name := by
  have hcomponent : Component.ofPiece name = .name name := by
    simp [Component.ofPiece, hname.ne_here, hname.ne_up]
  have hfilter : (pieces p).filter (· ≠ []) = before.filter (· ≠ []) ++ [name] := by
    simp [hp, hname.ne_nil]
  have hlast : (components p).getLast? = some (.name name) := by
    rw [components, hfilter]
    cases before.filter (· ≠ []) with
    | nil => cases hroot : isAbsolute p <;> simp [hcomponent]
    | cons first rest => cases hroot : isAbsolute p <;> simp [hcomponent, List.getLast?_cons]
  simp [fileName?, hlast]

end ClassScope.Path
