import ClassScope.Edit

/-! Cutting texts at byte offsets. Each cut is characterised by the way it splits the text, so that
later arguments speak of parts of a text and their sizes and no longer of bytes in characters. -/
namespace ClassScope
namespace Text

theorem size_eq_zero_iff {t : Text} : size t = 0 ↔ t = [] := by
  constructor
  · intro h
    have hl := length_le_size t
    exact List.length_eq_zero_iff.mp (by omega)
  · rintro rfl
    rfl

theorem size_pos {t : Text} (h : t ≠ []) : 0 < size t :=
  Nat.pos_of_ne_zero fun h0 => h (size_eq_zero_iff.mp h0)

theorem dropBytes?_eq_some_iff {n : Nat} {t u : Text} :
    dropBytes? n t = some u ↔ ∃ s, t = s ++ u ∧ size s = n := by
  constructor
  · intro h
    fun_induction dropBytes? n t with
    | case1 t => exact ⟨[], by simpa using h, rfl⟩
    | case2 => simp at h
    | case3 n c t hc ih =>
      obtain ⟨s, rfl, hs⟩ := ih h
      exact ⟨c :: s, rfl, by rw [size_cons, hs]; omega⟩
    | case4 => simp at h
  · rintro ⟨s, rfl, rfl⟩
    exact dropBytes?_size_append s u

theorem takeBytes?_eq_some_iff {n : Nat} {t u : Text} :
    takeBytes? n t = some u ↔ ∃ v, t = u ++ v ∧ size u = n := by
  constructor
  · intro h
    fun_induction takeBytes? n t generalizing u with
    | case1 t => exact ⟨t, by simp_all, by simp_all⟩
    | case2 => simp at h
    | case3 n c t hc ih =>
      obtain ⟨w, hw, rfl⟩ := Option.map_eq_some_iff.mp h
      obtain ⟨v, rfl, hs⟩ := ih hw
      exact ⟨v, rfl, by rw [size_cons, hs]; omega⟩
    | case4 => simp at h
  · rintro ⟨v, rfl, rfl⟩
    exact takeBytes?_size_append u v

theorem slice?_eq_some_iff {start stop : Nat} {t u : Text} :
    slice? start stop t = some u ↔
      ∃ a b, t = a ++ u ++ b ∧ size a = start ∧ start + size u = stop := by
  unfold slice?
  constructor
  · intro h
    split at h
    · rename_i hle
      obtain ⟨r, hr, hu⟩ := Option.bind_eq_some_iff.mp h
      obtain ⟨a, rfl, ha⟩ := dropBytes?_eq_some_iff.mp hr
      obtain ⟨b, rfl, hb⟩ := takeBytes?_eq_some_iff.mp hu
      exact ⟨a, b, by simp, ha, by omega⟩
    · simp at h
  · rintro ⟨a, b, rfl, rfl, rfl⟩
    have hdrop : dropBytes? (size a) (a ++ u ++ b) = some (u ++ b) := by
      rw [List.append_assoc]
      exact dropBytes?_size_append a (u ++ b)
    rw [if_pos (Nat.le_add_right _ _), hdrop, Option.bind_some, Nat.add_sub_cancel_left]
    exact takeBytes?_size_append u b

theorem slice?_le {start stop : Nat} {t u : Text} (h : slice? start stop t = some u) :
    start ≤ stop ∧ stop ≤ size t := by
  obtain ⟨a, b, rfl, rfl, rfl⟩ := slice?_eq_some_iff.mp h
  simp only [size_append]
  omega

/-- Two ways to cut a text: the shorter first part is the start of the longer one. -/
theorem append_eq_append_of_size_le {a b c d : Text} (h : a ++ b = c ++ d)
    (hs : size a ≤ size c) : ∃ m, c = a ++ m ∧ b = m ++ d := by
  rcases List.append_eq_append_iff.mp h with ⟨m, hc, hb⟩ | ⟨m, ha, hd⟩
  · exact ⟨m, hc, hb⟩
  · have hm : m = [] := by
      rw [ha, size_append] at hs
      exact size_eq_zero_iff.mp (by omega)
    subst hm
    exact ⟨[], by simpa using ha.symm, by simpa using hd.symm⟩

end Text
end ClassScope
