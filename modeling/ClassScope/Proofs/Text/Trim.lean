import Mathlib.Data.List.DropRight
import ClassScope.Proofs.Text.Words

/-! Texts without the blanks around them. What is left neither starts nor ends with a blank, so
trimming a second time takes nothing away. -/
namespace ClassScope.Text

variable {t : Text}

theorem trim_eq_rdropWhile (t : Text) : trim t = (t.dropWhile isBlank).rdropWhile isBlank := rfl

theorem dropWhile_of_not_atGap (h : atGap t = false) : t.dropWhile isBlank = t := by
  cases t with
  | nil => rfl
  | cons c t => exact List.dropWhile_cons_of_neg (by simpa using h)

theorem not_atGap_dropWhile (h : t.dropWhile isBlank ≠ []) :
    atGap (t.dropWhile isBlank) = false := by
  induction t with
  | nil => exact absurd rfl h
  | cons c t ih =>
    cases hc : isBlank c with
    | true =>
      rw [List.dropWhile_cons_of_pos hc] at h ⊢
      exact ih h
    | false => simp [hc]

theorem not_atGap_trim (h : trim t ≠ []) : atGap (trim t) = false := by
  obtain ⟨r, hr⟩ : trim t <+: t.dropWhile isBlank := List.rdropWhile_prefix isBlank _
  have hne : t.dropWhile isBlank ≠ [] := by
    intro hnil
    rw [hnil] at hr
    exact h (List.append_eq_nil_iff.mp hr).1
  have hgap := not_atGap_dropWhile hne
  rwa [← hr, atGap_append, if_neg h] at hgap

@[simp] theorem trim_trim (t : Text) : trim (trim t) = trim t := by
  by_cases h : trim t = []
  · rw [h]
    rfl
  · rw [trim_eq_rdropWhile (trim t), dropWhile_of_not_atGap (not_atGap_trim h), trim_eq_rdropWhile,
      List.rdropWhile_idempotent]

theorem head?_trim (h : atGap t = false) : (trim t).head? = t.head? := by
  obtain ⟨r, hr⟩ : trim t <+: t.dropWhile isBlank := List.rdropWhile_prefix isBlank _
  rw [dropWhile_of_not_atGap h] at hr
  have hne : trim t ≠ [] := by
    intro hnil
    rw [trim_eq_rdropWhile, dropWhile_of_not_atGap h, List.rdropWhile_eq_nil_iff] at hnil
    obtain ⟨c, s, rfl⟩ : ∃ c s, t = c :: s := by
      cases t with
      | nil => cases h
      | cons c s => exact ⟨c, s, rfl⟩
    simp [hnil c List.mem_cons_self] at h
  obtain ⟨c, s, hs⟩ := List.exists_cons_of_ne_nil hne
  rw [hs] at hr ⊢
  rw [← hr]
  rfl

theorem trim_of_solid (h : ∀ c ∈ t, isBlank c = false) : trim t = t := by
  have hkeep : ∀ s : Text, (∀ c ∈ s, isBlank c = false) → s.dropWhile isBlank = s := by
    intro s hs
    cases s with
    | nil => rfl
    | cons c s => exact dropWhile_of_not_atGap (hs c List.mem_cons_self)
  have hback := hkeep t.reverse fun c hc => h c (List.mem_reverse.mp hc)
  rw [trim, hkeep t h, hback, List.reverse_reverse]

end ClassScope.Text
