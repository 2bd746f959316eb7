import ClassScope.Proofs.Text.Words
import ClassScope.Settings.Basic

/-! Qualified class lists. A scope without blanks changes neither how many names a list has nor
where one ends and the next begins. -/
namespace ClassScope

namespace Settings

variable {s : Settings}

theorem scopeChar_of_mem (h : s.fault? = none) {c : Char} (hc : c ∈ s.scope) :
    scopeChar c = true := by
  cases hall : s.scope.all scopeChar with
  | true => exact List.all_eq_true.mp hall c hc
  | false => simp [fault?, hall] at h

theorem not_blank_of_scopeChar {c : Char} (h : scopeChar c = true) : Text.isBlank c = false := by
  simp only [scopeChar, Bool.not_eq_true', Bool.or_eq_false_iff] at h
  exact h.1

theorem scope_solid (h : s.fault? = none) : ∀ c ∈ s.scope, Text.isBlank c = false :=
  fun _ hc => not_blank_of_scopeChar (scopeChar_of_mem h hc)

theorem not_mem_scope_of_special (h : s.fault? = none) {c : Char} (hc : c ∈ special) :
    c ∉ s.scope := by
  intro hmem
  have hs := scopeChar_of_mem h hmem
  simp [scopeChar, hc] at hs

end Settings

namespace Text

theorem not_atGap_of_solid {w : Text} (hne : w ≠ []) (h : ∀ c ∈ w, isBlank c = false) :
    atGap w = false := by
  obtain ⟨c, v, rfl⟩ := List.exists_cons_of_ne_nil hne
  exact h c List.mem_cons_self

theorem not_atGap_reverse_of_solid {w : Text} (hne : w ≠ []) (h : ∀ c ∈ w, isBlank c = false) :
    atGap w.reverse = false :=
  not_atGap_of_solid (by simpa using hne) fun c hc => h c (by simpa using hc)

theorem join_cons_cons (sep t s : Text) (r : List Text) :
    join sep (t :: s :: r) = t ++ sep ++ join sep (s :: r) := rfl

theorem words_join {ws : List Text}
    (h : ∀ w ∈ ws, w ≠ [] ∧ ∀ c ∈ w, isBlank c = false) : words (join [' '] ws) = ws := by
  induction ws with
  | nil => rfl
  | cons w ws ih =>
    obtain ⟨hne, hw⟩ := h w List.mem_cons_self
    cases ws with
    | nil => exact words_of_solid hne hw
    | cons v vs =>
      have hrest := ih fun u hu => h u (List.mem_cons_of_mem _ hu)
      rw [join_cons_cons, List.append_assoc, List.singleton_append,
        words_append_blank w (by decide), words_of_solid hne hw, hrest]
      rfl

theorem not_atGap_join {ws : List Text} (hne : ws ≠ [])
    (h : ∀ w ∈ ws, w ≠ [] ∧ ∀ c ∈ w, isBlank c = false) :
    atGap (join [' '] ws) = false := by
  obtain ⟨w, vs, rfl⟩ := List.exists_cons_of_ne_nil hne
  obtain ⟨hw, hs⟩ := h w List.mem_cons_self
  cases vs with
  | nil => exact not_atGap_of_solid hw hs
  | cons v vs =>
    rw [join_cons_cons, List.append_assoc, atGap_append, if_neg hw]
    exact not_atGap_of_solid hw hs

theorem not_atGap_reverse_join {ws : List Text} (hne : ws ≠ [])
    (h : ∀ w ∈ ws, w ≠ [] ∧ ∀ c ∈ w, isBlank c = false) :
    atGap (join [' '] ws).reverse = false := by
  induction ws with
  | nil => exact absurd rfl hne
  | cons w ws ih =>
    cases ws with
    | nil =>
      obtain ⟨hw, hs⟩ := h w List.mem_cons_self
      exact not_atGap_reverse_of_solid hw hs
    | cons v vs =>
      have hrest := ih (by simp) fun u hu => h u (List.mem_cons_of_mem _ hu)
      rw [join_cons_cons, List.reverse_append, atGap_append]
      split
      · rename_i hnil
        simp [hnil] at hrest
      · exact hrest

end Text

namespace ClassList
open Text

variable {scope : Text}

theorem qualifyName_solid (hscope : ∀ c ∈ scope, isBlank c = false) {name : Text}
    (hname : ∀ c ∈ name, isBlank c = false) :
    qualifyName scope name ≠ [] ∧ ∀ c ∈ qualifyName scope name, isBlank c = false := by
  refine ⟨by simp [qualifyName], ?_⟩
  intro c hc
  simp only [qualifyName, List.mem_append, List.mem_cons] at hc
  rcases hc with hc | rfl | hc
  · exact hscope c hc
  · decide
  · exact hname c hc

theorem qualified_names_solid (hscope : ∀ c ∈ scope, isBlank c = false) (t : Text) :
    ∀ w ∈ (words t).map (qualifyName scope), w ≠ [] ∧ ∀ c ∈ w, isBlank c = false := by
  intro w hw
  obtain ⟨v, hv, rfl⟩ := List.mem_map.mp hw
  exact qualifyName_solid hscope (solid_of_mem_words hv)

theorem words_qualify (hscope : ∀ c ∈ scope, isBlank c = false) (t : Text) :
    words (qualify scope t) = (words t).map (qualifyName scope) :=
  words_join (qualified_names_solid hscope t)

theorem length_flatten_map_qualifyName (scope : Text) (ws : List Text) :
    (ws.map (qualifyName scope)).flatten.length =
      ws.flatten.length + ws.length * (scope.length + 1) := by
  induction ws with
  | nil => simp
  | cons w ws ih =>
    simp only [List.map_cons, List.flatten_cons, List.length_append, ih, qualifyName,
      List.length_cons, Nat.succ_mul]
    omega

/-- Each name grows by the scope and a hyphen; blanks do not count. -/
theorem length_solid_qualify (hscope : ∀ c ∈ scope, isBlank c = false) (t : Text) :
    (solid (qualify scope t)).length =
      (solid t).length + (words t).length * (scope.length + 1) := by
  rw [← flatten_words, ← flatten_words, words_qualify hscope, length_flatten_map_qualifyName]

theorem qualify_eq_nil_iff {t : Text} : qualify scope t = [] ↔ words t = [] := by
  constructor
  · intro h
    rcases hw : words t with _ | ⟨w, ws⟩
    · rfl
    · cases ws <;> simp [qualify, hw, join, qualifyName] at h
  · intro h
    simp [qualify, h, join]

/-- A qualified list ends with the last character of a name. -/
theorem exists_qualify_eq_append {t : Text} (h : words t ≠ []) :
    ∃ w ∈ words t, ∃ d ∈ w, ∃ s, qualify scope t = s ++ [d] := by
  have hjoin : ∀ ws : List Text, ws ≠ [] → (∀ w ∈ ws, w ≠ []) →
      ∃ w ∈ ws, ∃ d ∈ w, ∃ s, join [' '] (ws.map (qualifyName scope)) = s ++ [d] := by
    intro ws
    induction ws with
    | nil => exact fun hne => absurd rfl hne
    | cons w ws ih =>
      intro _ hws
      cases ws with
      | nil =>
        have hw := hws w List.mem_cons_self
        exact ⟨w, List.mem_cons_self, w.getLast hw, List.getLast_mem hw, scope ++ '-' :: w.dropLast,
          by simp [join, qualifyName, List.dropLast_concat_getLast hw]⟩
      | cons v vs =>
        obtain ⟨u, hu, d, hd, s, hs⟩ := ih (by simp) fun u hu => hws u (List.mem_cons_of_mem _ hu)
        refine ⟨u, List.mem_cons_of_mem _ hu, d, hd, qualifyName scope w ++ [' '] ++ s, ?_⟩
        rw [List.map_cons, List.map_cons, join_cons_cons, ← List.map_cons, hs]
        simp
  exact hjoin (words t) h fun w hw => ne_nil_of_mem_words hw

theorem map_qualifyName_eq_self_iff {ws : List Text} :
    ws.map (qualifyName scope) = ws ↔ ws = [] := by
  constructor
  · intro h
    cases ws with
    | nil => rfl
    | cons w ws =>
      rw [List.map_cons] at h
      have hlen := congrArg List.length (List.cons.inj h).1
      simp [qualifyName] at hlen
      omega
  · rintro rfl
    rfl

theorem qualify_ne_self (hscope : ∀ c ∈ scope, isBlank c = false) {t : Text} (h : t ≠ []) :
    qualify scope t ≠ t := by
  intro heq
  have hwords := words_qualify hscope t
  rw [heq] at hwords
  have hnone : words t = [] := map_qualifyName_eq_self_iff.mp hwords.symm
  exact h (heq.symm.trans (qualify_eq_nil_iff.mpr hnone))

/-- A segment without names: at most a space is left of it. -/
theorem qualifySegment_of_words_eq_nil {t : Text} (h : words t = []) (place : Place) :
    qualifySegment scope place t =
      if ((place.after || place.before) && !t.isEmpty) = true then [' '] else [] := by
  simp [qualifySegment, qualify_eq_nil_iff.mpr h]

/-- A segment with names: at most one space is left on either side of them. -/
theorem qualifySegment_of_words_ne_nil {t : Text} (h : words t ≠ []) (place : Place) :
    qualifySegment scope place t =
      (if (place.after && startsBlank t) = true then [' '] else []) ++ qualify scope t ++
        (if (place.before && endsBlank t) = true then [' '] else []) := by
  have hne : qualify scope t ≠ [] := fun h0 => h (qualify_eq_nil_iff.mp h0)
  simp [qualifySegment, hne]

theorem qualifySegment_alone (t : Text) :
    qualifySegment scope ⟨false, false⟩ t = qualify scope t := by
  by_cases h : words t = []
  · rw [qualifySegment_of_words_eq_nil h, qualify_eq_nil_iff.mpr h]
    rfl
  · simp [qualifySegment_of_words_ne_nil h]

/-- The names of a qualified segment are the qualified names of the segment. -/
theorem words_qualifySegment (hscope : ∀ c ∈ scope, isBlank c = false) (place : Place)
    (t : Text) : words (qualifySegment scope place t) = (words t).map (qualifyName scope) := by
  have hspace : isBlank ' ' = true := by decide
  by_cases h : words t = []
  · rw [qualifySegment_of_words_eq_nil h, h]
    split <;> simp [words_cons_blank hspace]
  · have hbehind : words (qualify scope t ++ [' ']) = words (qualify scope t) := by
      rw [words_append_blank _ hspace, words_nil, List.append_nil]
    rw [qualifySegment_of_words_ne_nil h]
    split <;> split <;> simp [words_cons_blank hspace, hbehind, words_qualify hscope]

theorem length_words_qualifySegment (hscope : ∀ c ∈ scope, isBlank c = false) (place : Place)
    (t : Text) : (words (qualifySegment scope place t)).length = (words t).length := by
  rw [words_qualifySegment hscope, List.length_map]

/-- A segment stays as it is exactly if it has no names and is what would be left of its blanks. -/
theorem qualifySegment_eq_self_iff (hscope : ∀ c ∈ scope, isBlank c = false) (place : Place)
    {t : Text} :
    qualifySegment scope place t = t ↔ words t = [] ∧
      (if ((place.after || place.before) && !t.isEmpty) = true then [' '] else []) = t := by
  by_cases h : words t = []
  · rw [qualifySegment_of_words_eq_nil h]
    simp [h]
  · refine iff_of_false (fun heq => ?_) (fun hsame => h hsame.1)
    have hwords := words_qualifySegment hscope place t
    rw [heq] at hwords
    exact h (map_qualifyName_eq_self_iff.mp hwords.symm)

theorem not_atGap_qualify (hscope : ∀ c ∈ scope, isBlank c = false) {t : Text}
    (h : words t ≠ []) :
    atGap (qualify scope t) = false ∧ atGap (qualify scope t).reverse = false := by
  have hne : (words t).map (qualifyName scope) ≠ [] := by simpa using h
  have hsolid := qualified_names_solid hscope t
  exact ⟨not_atGap_join hne hsolid, not_atGap_reverse_join hne hsolid⟩

end ClassList
end ClassScope
