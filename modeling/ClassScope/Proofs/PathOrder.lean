import Mathlib.Data.Char
import Mathlib.Data.List.Lex
import Mathlib.Data.List.Sort
import Mathlib.Data.Prod.Lex
import ClassScope.Proofs.Path
import ClassScope.Text.Order

/-! The order of paths. Paths are compared by their components from the front, so that a folder
comes right in front of what is in it; below one folder that is the order of the names alone. -/
namespace ClassScope

namespace Text

theorem le_iff_not_lt {s t : Text} : le s t = true ↔ ¬ t < s := by
  induction s generalizing t with
  | nil => simp [le]
  | cons a s ih =>
    cases t with
    | nil => simp [le]
    | cons b t =>
      rw [List.cons_lt_cons_iff, le]
      split
      · rename_i h
        subst h
        simp [ih]
      · rename_i h
        have hne : ¬b = a := fun e => h e.symm
        have hlt : b < a ↔ b.toNat < a.toNat := Char.lt_def
        have hnat : a.toNat ≠ b.toNat := fun e => h (Char.toNat_inj.mp e)
        simp only [hne, false_and, or_false, hlt, decide_eq_true_eq]
        omega

theorem listLe_iff {p q : List Text} : listLe p q = true ↔ p ≤ q := by
  rw [← not_lt]
  induction p generalizing q with
  | nil => simp [listLe]
  | cons a p ih =>
    cases q with
    | nil => simp [listLe]
    | cons b q =>
      rw [List.cons_lt_cons_iff, listLe]
      split
      · rename_i h
        subst h
        simp [ih]
      · rename_i h
        have hne : ¬b = a := fun e => h e.symm
        simp only [hne, false_and, or_false, le_iff_not_lt]

theorem pairwise_mergeSort_listLe (l : List (List Text)) :
    (l.mergeSort listLe).Pairwise (· ≤ ·) := by
  have htrans : ∀ a b c, listLe a b = true → listLe b c = true → listLe a c = true :=
    fun a b c hab hbc => listLe_iff.mpr ((listLe_iff.mp hab).trans (listLe_iff.mp hbc))
  have htotal : ∀ a b, (listLe a b || listLe b a) = true :=
    fun a b => by simpa using listLe_total a b
  exact (List.pairwise_mergeSort htrans htotal l).imp listLe_iff.mp

/-- Whatever is sorted and has the same members is the sorted list. -/
theorem mergeSort_listLe_eq {l sorted : List (List Text)} (hperm : sorted.Perm l)
    (hsorted : sorted.Pairwise fun p q => listLe p q = true) : l.mergeSort listLe = sorted :=
  ((List.mergeSort_perm l listLe).trans hperm.symm).eq_of_pairwise (fun _ _ _ _ => le_antisymm)
    (pairwise_mergeSort_listLe l) (hsorted.imp listLe_iff.mp)

end Text

namespace Path

namespace Component

/-- The root comes first, then the dots, then the names in their own order. -/
def key : Component → ℕ ×ₗ Text
  | root => toLex (0, [])
  | here => toLex (1, [])
  | up => toLex (2, [])
  | name t => toLex (3, t)

theorem key_injective : Function.Injective key := by
  intro a b h
  cases a <;> cases b <;> simp_all [key]

instance : LinearOrder Component := LinearOrder.lift' key key_injective

theorem name_lt_name {s t : Text} (h : s < t) : name s < name t :=
  Prod.Lex.toLex_lt_toLex.mpr (.inr ⟨rfl, h⟩)

end Component

def Precedes (p q : Path) : Prop := components p < components q

instance (p q : Path) : Decidable (Precedes p q) :=
  inferInstanceAs (Decidable (components p < components q))

theorem Precedes.asymm {p q : Path} (h : Precedes p q) : ¬ Precedes q p := lt_asymm h

theorem Precedes.ne {p q : Path} (h : Precedes p q) : p ≠ q := by
  rintro rfl
  exact lt_irrefl _ h

variable {root relative : Path}

theorem filter_map_ofPiece {names : List Text} (h : ∀ name ∈ names, IsName name) :
    (names.map Component.ofPiece).filter (· ≠ .here) = names.map .name := by
  have hmap : names.map Component.ofPiece = names.map .name :=
    List.map_congr_left fun name hname => by
      simp [Component.ofPiece, (h name hname).ne_here, (h name hname).ne_up]
  rw [hmap]
  exact List.filter_eq_self.mpr (by simp)

theorem isAbsolute_of_pieces (hroot : root ≠ []) (h : (pieces root).filter (· ≠ []) = []) :
    isAbsolute root = true := by
  obtain ⟨c, p, rfl⟩ := List.exists_cons_of_ne_nil hroot
  obtain ⟨s, r, hp⟩ := List.exists_cons_of_ne_nil (pieces_ne_nil p)
  by_cases hc : c = '/'
  · simp [isAbsolute, hc]
  · simp [pieces, hc, hp] at h

/-- Seen from a folder, the names of a path follow the components of the folder. -/
theorem components_join (hroot : root ≠ []) (h : IsRelative relative) :
    components (root.join relative) = components root ++ (pieces relative).map .name := by
  obtain ⟨lead, trail, hpieces, htrail, hjoin, -, habsolute⟩ :=
    pieces_join_path hroot h.not_isAbsolute
  have hfilter : (pieces root).filter (· ≠ []) = lead.filter (· ≠ []) := by
    simpa [hpieces] using htrail
  have hfilter' : (pieces (root.join relative)).filter (· ≠ []) =
      lead.filter (· ≠ []) ++ pieces relative := by
    have hself : (pieces relative).filter (· ≠ []) = pieces relative :=
      List.filter_eq_self.mpr fun name hname => by simpa using (h name hname).ne_nil
    rw [hjoin, List.filter_append, hself]
  have hnames := filter_map_ofPiece h
  rw [components, components, hfilter, hfilter', habsolute]
  cases hlead : lead.filter (· ≠ []) with
  | nil =>
    rw [isAbsolute_of_pieces hroot (hfilter.trans hlead)]
    obtain ⟨name, names, hrelative⟩ := List.exists_cons_of_ne_nil (pieces_ne_nil relative)
    rw [hrelative] at hnames ⊢
    rw [List.map_cons, ← List.singleton_append, List.filter_append] at hnames
    simp [← hnames]
  | cons first rest => cases isAbsolute root <;> simp [← hnames]

/-- Below one folder the order of paths is that of their names. -/
theorem precedes_join {names names' : List Text} (hroot : root ≠ []) (hne : names ≠ [])
    (hne' : names' ≠ []) (hnames : ∀ name ∈ names, IsName name)
    (hnames' : ∀ name ∈ names', IsName name) (h : names < names') :
    Precedes (root.join (Text.join ['/'] names)) (root.join (Text.join ['/'] names')) := by
  rw [Precedes, components_join hroot (isRelative_join hne hnames),
    components_join hroot (isRelative_join hne' hnames'),
    pieces_join hne fun name hname => (hnames name hname).no_slash,
    pieces_join hne' fun name hname => (hnames' name hname).no_slash]
  exact List.append_left_lt (List.map_lt (fun _ _ => Component.name_lt_name) h)

end Path
end ClassScope
