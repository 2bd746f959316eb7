import Mathlib.Data.List.Basic
import ClassScope.Proofs.ClassList

/-! Qualified lists as normal forms. All that is left of the blanks in a list is one space between
two names, so lists that are put one behind the other can be qualified one by one, and two lists
have the same qualified form exactly if they have the same names. -/
namespace ClassScope

namespace Text

theorem words_append_of_blank {w : Text} (hw : ∀ c ∈ w, isBlank c = true) (t : Text) :
    words (w ++ t) = words t := by
  induction w with
  | nil => rfl
  | cons c w ih =>
    obtain ⟨hc, hrest⟩ := List.forall_mem_cons.mp hw
    rw [List.cons_append, words_cons_blank hc, ih hrest]

theorem words_parted (a b : Text) {w : Text} (hne : w ≠ []) (hw : ∀ c ∈ w, isBlank c = true) :
    words (a ++ w ++ b) = words a ++ words b := by
  obtain ⟨c, w, rfl⟩ := List.exists_cons_of_ne_nil hne
  obtain ⟨hc, hrest⟩ := List.forall_mem_cons.mp hw
  rw [List.append_assoc, List.cons_append, words_append_blank a hc, words_append_of_blank hrest]

end Text

namespace ClassList
open Text

/-- A list behind another one, with a space between them unless one of them is empty. -/
def chain (s t : Text) : Text :=
  if s = [] then t else if t = [] then s else s ++ ' ' :: t

@[simp] theorem chain_nil_left (t : Text) : chain [] t = t := rfl

@[simp] theorem chain_nil_right (s : Text) : chain s [] = s := by
  by_cases hs : s = [] <;> simp [chain, hs]

theorem chain_of_ne_nil {s t : Text} (hs : s ≠ []) (ht : t ≠ []) : chain s t = s ++ ' ' :: t := by
  rw [chain, if_neg hs, if_neg ht]

theorem chain_assoc (s t u : Text) : chain (chain s t) u = chain s (chain t u) := by
  by_cases hs : s = []
  · simp [hs]
  · by_cases ht : t = []
    · simp [ht]
    · by_cases hu : u = []
      · simp [hu]
      · rw [chain_of_ne_nil hs ht, chain_of_ne_nil ht hu, chain_of_ne_nil (by simp) hu,
          chain_of_ne_nil hs (by simp), List.append_assoc, List.cons_append]

section Join

variable {ws vs : List Text}

theorem join_ne_nil (hne : ws ≠ []) (h : ∀ w ∈ ws, w ≠ []) : join [' '] ws ≠ [] := by
  obtain ⟨w, vs, rfl⟩ := List.exists_cons_of_ne_nil hne
  cases vs with
  | nil => exact h w List.mem_cons_self
  | cons v vs => simp [join_cons_cons]

theorem join_cons_eq_chain {w : Text} (hw : w ≠ []) (h : ∀ v ∈ ws, v ≠ []) :
    join [' '] (w :: ws) = chain w (join [' '] ws) := by
  cases ws with
  | nil => simp [join]
  | cons v vs => rw [chain_of_ne_nil hw (join_ne_nil (by simp) h), join_cons_cons]; simp

theorem foldl_chain (h : ∀ w ∈ ws, w ≠ []) (s : Text) :
    ws.foldl chain s = chain s (join [' '] ws) := by
  induction ws generalizing s with
  | nil => simp [join]
  | cons w ws ih =>
    obtain ⟨hw, hrest⟩ := List.forall_mem_cons.mp h
    rw [List.foldl_cons, ih hrest, join_cons_eq_chain hw hrest, chain_assoc]

theorem join_append (hws : ∀ w ∈ ws, w ≠ []) (hvs : ∀ v ∈ vs, v ≠ []) :
    join [' '] (ws ++ vs) = chain (join [' '] ws) (join [' '] vs) := by
  have hall : ∀ w ∈ ws ++ vs, w ≠ [] := List.forall_mem_append.mpr ⟨hws, hvs⟩
  calc join [' '] (ws ++ vs)
      = (ws ++ vs).foldl chain [] := by rw [foldl_chain hall, chain_nil_left]
    _ = vs.foldl chain (ws.foldl chain []) := List.foldl_append
    _ = chain (join [' '] ws) (join [' '] vs) := by
      rw [foldl_chain hvs, foldl_chain hws, chain_nil_left]

end Join

variable {scope : Text}

theorem qualifyName_injective (scope : Text) : Function.Injective (qualifyName scope) :=
  fun _ _ h => (List.cons.inj (List.append_cancel_left h)).2

theorem qualified_names_ne_nil (scope t : Text) :
    ∀ w ∈ (words t).map (qualifyName scope), w ≠ [] := by
  intro w hw
  obtain ⟨v, -, rfl⟩ := List.mem_map.mp hw
  simp [qualifyName]

/-- Qualifying goes from name to name and puts a space in front of each but the first. -/
theorem qualify_eq_foldl (scope t : Text) :
    qualify scope t =
      (words t).foldl (fun done name => chain done (qualifyName scope name)) [] := by
  have hfold := foldl_chain (qualified_names_ne_nil scope t) []
  rw [chain_nil_left, List.foldl_map] at hfold
  exact hfold.symm

/-- Lists with blanks between them are qualified one by one. -/
theorem qualify_parted (scope a b : Text) {w : Text} (hne : w ≠ [])
    (hw : ∀ c ∈ w, isBlank c = true) :
    qualify scope (a ++ w ++ b) = chain (qualify scope a) (qualify scope b) := by
  rw [qualify, words_parted a b hne hw, List.map_append]
  exact join_append (qualified_names_ne_nil scope a) (qualified_names_ne_nil scope b)

theorem join_words_qualify (hscope : ∀ c ∈ scope, isBlank c = false) (t : Text) :
    join [' '] (words (qualify scope t)) = qualify scope t := by
  rw [words_qualify hscope, qualify]

theorem qualify_eq_iff (hscope : ∀ c ∈ scope, isBlank c = false) {a b : Text} :
    qualify scope a = qualify scope b ↔ words a = words b := by
  constructor
  · intro h
    have hwords := congrArg words h
    rw [words_qualify hscope, words_qualify hscope] at hwords
    exact List.map_injective_iff.mpr (qualifyName_injective scope) hwords
  · intro h
    rw [qualify, qualify, h]

/-- With a scope without blanks the names of a qualified list are the qualified names of the list,
in order, and the list is these names with single spaces between. Blanks between two lists become
the one space between their qualified forms; and the names alone decide what the form is. -/
theorem qualified_list_is_normal_form (hscope : ∀ c ∈ scope, isBlank c = false) :
    (∀ t, words (qualify scope t) = (words t).map (qualifyName scope) ∧
      qualify scope t = join [' '] (words (qualify scope t)) ∧
      qualify scope t =
        (words t).foldl (fun done name => chain done (qualifyName scope name)) []) ∧
    (∀ a w b : Text, w ≠ [] → (∀ c ∈ w, isBlank c = true) →
      qualify scope (a ++ w ++ b) = chain (qualify scope a) (qualify scope b)) ∧
    ∀ a b, qualify scope a = qualify scope b ↔ words a = words b := by
  refine ⟨fun t => ⟨?_, ?_, ?_⟩, ?_, ?_⟩
  · exact words_qualify hscope t
  · exact (join_words_qualify hscope t).symm
  · exact qualify_eq_foldl scope t
  · intro a w b hne hw
    exact qualify_parted scope a b hne hw
  · intro a b
    exact qualify_eq_iff hscope

theorem ragged_lists_have_normal_form :
    qualify "ui".toList "\t btn\u00a0\n-x \u2003 \u3000btn".toList = "ui-btn ui--x ui-btn".toList ∧
      qualify "ui".toList "btn -x btn".toList = "ui-btn ui--x ui-btn".toList := by
  have hvalid : ({ Settings.defaults with scope := "ui".toList } : Settings).fault? = none := rfl
  have hscope : ∀ c ∈ "ui".toList, isBlank c = false := Settings.scope_solid hvalid
  obtain ⟨-, hparted, hiff⟩ := qualified_list_is_normal_form hscope
  have hplain : qualify "ui".toList "btn -x btn".toList = "ui-btn ui--x ui-btn".toList := by decide
  have hragged := hparted "\t btn\u00a0\n-x ".toList "\u2003 ".toList "\u3000btn".toList
    (by decide) (List.all_eq_true.mp (by decide))
  refine ⟨?_, hplain⟩
  calc qualify "ui".toList "\t btn\u00a0\n-x \u2003 \u3000btn".toList
      = chain (qualify "ui".toList "\t btn\u00a0\n-x ".toList)
          (qualify "ui".toList "\u3000btn".toList) := hragged
    _ = qualify "ui".toList "btn -x btn".toList := by
      rw [(hiff "\t btn\u00a0\n-x ".toList "btn -x".toList).mpr (by decide),
        (hiff "\u3000btn".toList "btn".toList).mpr (by decide)]
      decide
    _ = "ui-btn ui--x ui-btn".toList := hplain

end ClassList
end ClassScope
