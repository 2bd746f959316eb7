import ClassScope.ClassList

/-! The words of a text that is put together from parts. A word is cut nowhere but at a blank, so
the words of two texts in a row are those of the one and those of the other, except that two words
become one where both texts touch without a blank. -/
namespace ClassScope
namespace Text

@[simp] theorem atGap_nil : atGap [] = true := rfl

@[simp] theorem atGap_cons (c : Char) (t : Text) : atGap (c :: t) = isBlank c := rfl

@[simp] theorem atGap_append (s t : Text) :
    atGap (s ++ t) = if s = [] then atGap t else atGap s := by
  cases s <;> simp

/-- A text that starts in the middle of a word has that word for its first one. -/
theorem words_of_not_atGap {t : Text} (h : atGap t = false) :
    ∃ w ws, words t = w :: ws ∧ w <+: t := by
  induction t with
  | nil => simp at h
  | cons c t ih =>
    have hc : isBlank c = false := h
    rw [words, hc]
    cases hg : atGap t with
    | true => exact ⟨[c], words t, by simp, t, rfl⟩
    | false =>
      obtain ⟨w, ws, hw, hp⟩ := ih hg
      exact ⟨c :: w, ws, by simp [hw], List.cons_prefix_cons.mpr ⟨rfl, hp⟩⟩

theorem words_ne_nil_of_not_atGap {t : Text} (h : atGap t = false) : words t ≠ [] := by
  obtain ⟨w, ws, hw, -⟩ := words_of_not_atGap h
  simp [hw]

theorem length_words_cons (c : Char) (t : Text) :
    (words (c :: t)).length =
      (words t).length + (if isBlank c = false ∧ atGap t = true then 1 else 0) := by
  rw [words]
  cases hc : isBlank c with
  | true => simp
  | false =>
    cases hg : atGap t with
    | true => simp
    | false =>
      simp only [Bool.false_eq_true, if_false]
      split
      · rename_i hw
        exact absurd hw (words_ne_nil_of_not_atGap hg)
      · rename_i hw
        simp [hw]

/-- Do the two texts touch without a blank between them? -/
def touch (s t : Text) : Bool := !atGap s.reverse && !atGap t

theorem touch_cons {c : Char} {s : Text} (hs : s ≠ []) (t : Text) :
    touch (c :: s) t = touch s t := by
  simp [touch, hs]

/-- The words of two texts in a row. -/
theorem length_words_append (s t : Text) :
    (words (s ++ t)).length + (touch s t).toNat = (words s).length + (words t).length := by
  induction s with
  | nil => simp [touch]
  | cons c s ih =>
    rw [List.cons_append, length_words_cons, length_words_cons]
    by_cases hs : s = []
    · subst hs
      cases hc : isBlank c <;> cases hg : atGap t <;>
        simp [touch, hc, hg] <;> omega
    · rw [touch_cons hs, atGap_append, if_neg hs]
      omega

theorem words_append_blank (s : Text) {c : Char} (hc : isBlank c = true) (t : Text) :
    words (s ++ c :: t) = words s ++ words t := by
  induction s with
  | nil => simp [words_cons_blank hc]
  | cons d s ih =>
    rw [List.cons_append, words, words]
    cases hd : isBlank d with
    | true => simp [ih]
    | false =>
      have hg : atGap (s ++ c :: t) = atGap s := by
        rw [atGap_append]
        split
        · rename_i hs
          subst hs
          simp [hc]
        · rfl
      rw [hg, ih]
      cases hs : atGap s with
      | true => simp
      | false =>
        obtain ⟨w, ws, hw⟩ := List.exists_cons_of_ne_nil (words_ne_nil_of_not_atGap hs)
        simp [hw]

theorem words_of_solid {w : Text} (hne : w ≠ []) (h : ∀ c ∈ w, isBlank c = false) :
    words w = [w] := by
  induction w with
  | nil => exact absurd rfl hne
  | cons c w ih =>
    have hc : isBlank c = false := h c List.mem_cons_self
    rw [words, hc]
    by_cases hw : w = []
    · subst hw
      simp
    · have hwords := ih hw fun d hd => h d (List.mem_cons_of_mem _ hd)
      have hg : atGap w = false := by
        obtain ⟨d, w', rfl⟩ := List.exists_cons_of_ne_nil hw
        exact h d (by simp)
      simp [hg, hwords]

/-- Each word of a longer text is a word of the shorter one, or starts the longer text. -/
theorem mem_words_cons {c : Char} {t w : Text} (h : w ∈ words (c :: t)) :
    w ∈ words t ∨ isBlank c = false ∧ (w = [c] ∨ ∃ v ∈ words t, w = c :: v ∧ v <+: t) := by
  rw [words] at h
  cases hc : isBlank c with
  | true => exact Or.inl (by simpa [hc] using h)
  | false =>
    rw [hc] at h
    cases hg : atGap t with
    | true =>
      rw [hg] at h
      rcases List.mem_cons.mp h with rfl | h
      · exact Or.inr ⟨rfl, Or.inl rfl⟩
      · exact Or.inl h
    | false =>
      obtain ⟨v, ws, hv, hp⟩ := words_of_not_atGap hg
      rw [hg, hv] at h
      rcases List.mem_cons.mp h with rfl | h
      · exact Or.inr ⟨rfl, Or.inr ⟨v, by simp [hv], rfl, hp⟩⟩
      · exact Or.inl (by simp [hv, h])

theorem solid_of_mem_words {t w : Text} (h : w ∈ words t) : ∀ c ∈ w, isBlank c = false := by
  induction t generalizing w with
  | nil => simp at h
  | cons c t ih =>
    rcases mem_words_cons h with h | ⟨hc, rfl | ⟨v, hv, rfl, -⟩⟩
    · exact ih h
    · simpa using hc
    · intro d hd
      rcases List.mem_cons.mp hd with rfl | hd
      · exact hc
      · exact ih hv d hd

theorem ne_nil_of_mem_words {t w : Text} (h : w ∈ words t) : w ≠ [] := by
  induction t generalizing w with
  | nil => simp at h
  | cons c t ih =>
    rcases mem_words_cons h with h | ⟨-, rfl | ⟨v, -, rfl, -⟩⟩
    · exact ih h
    · simp
    · simp

theorem infix_of_mem_words {t w : Text} (h : w ∈ words t) : w <:+: t := by
  induction t generalizing w with
  | nil => simp at h
  | cons c t ih =>
    rcases mem_words_cons h with h | ⟨-, rfl | ⟨v, -, rfl, hp⟩⟩
    · exact (ih h).trans (List.infix_cons (List.infix_refl t))
    · exact ⟨[], t, rfl⟩
    · exact (List.cons_prefix_cons.mpr ⟨rfl, hp⟩).isInfix

theorem flatten_words (t : Text) : (words t).flatten = solid t := by
  induction t with
  | nil => rfl
  | cons c t ih =>
    cases hc : isBlank c with
    | true => simpa [words, solid, hc] using ih
    | false =>
      have hsolid : solid (c :: t) = c :: solid t := by simp [solid, hc]
      rw [hsolid, ← ih, words, hc]
      cases hg : atGap t with
      | true => simp
      | false =>
        obtain ⟨w, ws, hw, -⟩ := words_of_not_atGap hg
        simp [hw]

end Text
end ClassScope
