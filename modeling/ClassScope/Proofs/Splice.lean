import ClassScope.Proofs.Text.Slice

/-! Splicing, said of texts and not of offsets: a text falls into parts that stay and parts that are
replaced, and what comes out has the same parts that stay. -/
namespace ClassScope
namespace Edit
open Text

/-- The second text is the first with the edits made, and everything in front of the first edit,
between two and behind the last is kept; `n` bytes lie in front of both texts. -/
inductive Spliced : Nat → List Edit → Text → Text → Prop
  | rest (n : Nat) (t : Text) : Spliced n [] t t
  | edit {n : Nat} {e : Edit} {es : List Edit} {kept old rest code : Text}
      (hstart : e.start = n + size kept) (hstop : e.stop = e.start + size old)
      (hrest : Spliced e.stop es rest code) :
      Spliced n (e :: es) (kept ++ old ++ rest) (kept ++ e.replacement ++ code)

theorem Spliced.kept {n : Nat} {es : List Edit} {t u : Text} (s : Text)
    (h : Spliced (n + size s) es t u) : Spliced n es (s ++ t) (s ++ u) := by
  cases h with
  | rest => exact .rest n (s ++ t)
  | @edit _ e es kept old rest code hstart hstop hrest =>
    have hstart' : e.start = n + size (s ++ kept) := by rw [hstart, size_append, Nat.add_assoc]
    have hedit := Spliced.edit hstart' hstop hrest
    simpa using hedit

theorem Spliced.append {n : Nat} {es fs : List Edit} {t u t' u' : Text} (h : Spliced n es t u)
    (h' : Spliced (n + size t) fs t' u') : Spliced n (es ++ fs) (t ++ t') (u ++ u') := by
  induction h with
  | rest n t => exact h'.kept t
  | @edit n e es kept old rest code hstart hstop hrest ih =>
    have hsize : n + size (kept ++ old ++ rest) = e.stop + size rest := by
      simp only [size_append]
      omega
    have hedit := Spliced.edit hstart hstop (ih (hsize ▸ h'))
    simpa using hedit

theorem Spliced.pairwise {n : Nat} {es : List Edit} {t u : Text} (h : Spliced n es t u)
    (hes : ∀ e ∈ es, e.start < e.stop) :
    es.Pairwise (·.start < ·.start) ∧ ∀ e ∈ es, n ≤ e.start := by
  induction h with
  | rest => simp
  | @edit n e es kept old rest code hstart hstop hrest ih =>
    obtain ⟨hlt, hall⟩ := List.forall_mem_cons.mp hes
    obtain ⟨horder, hafter⟩ := ih hall
    refine ⟨List.pairwise_cons.mpr ⟨fun f hf => ?_, horder⟩, List.forall_mem_cons.mpr ⟨?_, ?_⟩⟩
    · have := hafter f hf
      omega
    · omega
    · intro f hf
      have := hafter f hf
      omega

theorem spliceFrom?_cons_eq_some {source code : Text} {n : Nat} {e : Edit} {es : List Edit} :
    spliceFrom? source n (e :: es) = some code ↔
      ∃ kept rest, slice? n e.start source = some kept ∧
        spliceFrom? source e.stop es = some rest ∧ kept ++ e.replacement ++ rest = code := by
  simp [spliceFrom?, Option.bind_eq_some_iff]

/-- Splicing succeeds exactly when the text falls into the parts of `Spliced`, and gives what they
make. -/
theorem spliceFrom?_eq_some_iff {source code : Text} {n : Nat} {es : List Edit}
    (hes : ∀ e ∈ es, e.start ≤ e.stop) :
    spliceFrom? source n es = some code ↔
      ∃ head rest, source = head ++ rest ∧ size head = n ∧ Spliced n es rest code := by
  induction es generalizing n code with
  | nil =>
    rw [spliceFrom?, dropBytes?_eq_some_iff]
    constructor
    · rintro ⟨head, hs, hn⟩
      exact ⟨head, code, hs, hn, .rest n code⟩
    · rintro ⟨head, rest, hs, hn, hsp⟩
      cases hsp
      exact ⟨head, hs, hn⟩
  | cons e es ih =>
    rw [spliceFrom?_cons_eq_some]
    constructor
    · rintro ⟨kept, tail, hk, hr, rfl⟩
      obtain ⟨a, b, hs, ha, hstart⟩ := slice?_eq_some_iff.mp hk
      obtain ⟨head, rest, hs', hstop, hsp⟩ :=
        (ih fun f hf => hes f (List.mem_cons_of_mem _ hf)).mp hr
      have hle : size (a ++ kept) ≤ size head := by
        rw [size_append]
        have := hes e List.mem_cons_self
        omega
      obtain ⟨old, rfl, rfl⟩ := append_eq_append_of_size_le (hs.symm.trans hs') hle
      refine ⟨a, kept ++ old ++ rest, by simp [hs], ha, .edit hstart.symm ?_ hsp⟩
      simp only [size_append] at hstop
      omega
    · rintro ⟨head, rest, hs, hn, hsp⟩
      cases hsp with
      | @edit _ _ _ kept old rest code hstart hstop hrest =>
        refine ⟨kept, code, ?_, ?_, rfl⟩
        · exact slice?_eq_some_iff.mpr ⟨head, old ++ rest, by simp [hs], hn, hstart.symm⟩
        · refine (ih fun f hf => hes f (List.mem_cons_of_mem _ hf)).mpr
            ⟨head ++ kept ++ old, rest, by simp [hs], ?_, hrest⟩
          simp only [size_append]
          omega

theorem splice?_eq_some_iff {source code : Text} {es : List Edit}
    (hes : ∀ e ∈ es, e.start ≤ e.stop) :
    splice? source es = some code ↔ Spliced 0 es source code := by
  rw [splice?, spliceFrom?_eq_some_iff hes]
  constructor
  · rintro ⟨head, rest, rfl, hn, hsp⟩
    rw [size_eq_zero_iff.mp hn]
    exact hsp
  · exact fun hsp => ⟨[], source, rfl, rfl, hsp⟩

theorem exists_spliceFrom?_eq_some {source head rest : Text} {es : List Edit}
    (hs : source = head ++ rest) (hhead : ∀ e ∈ es, size head ≤ e.start)
    (hes : ∀ e ∈ es, ∃ old, slice? e.start e.stop source = some old)
    (horder : es.Pairwise (·.stop ≤ ·.start)) :
    ∃ code, spliceFrom? source (size head) es = some code := by
  induction es generalizing head rest with
  | nil => exact ⟨rest, dropBytes?_eq_some_iff.mpr ⟨head, hs, rfl⟩⟩
  | cons e es ih =>
    obtain ⟨hafter, horder'⟩ := List.pairwise_cons.mp horder
    obtain ⟨old, hold⟩ := hes e List.mem_cons_self
    obtain ⟨a, b, hs', ha, hstop⟩ := slice?_eq_some_iff.mp hold
    have hle : size head ≤ size a := by rw [ha]; exact hhead e List.mem_cons_self
    obtain ⟨kept, rfl, -⟩ :=
      append_eq_append_of_size_le (hs.symm.trans (hs'.trans (List.append_assoc _ _ _))) hle
    have hsize : size (head ++ kept ++ old) = e.stop := by rw [size_append, ha, hstop]
    obtain ⟨code, hcode⟩ := ih hs' (fun f hf => by rw [hsize]; exact hafter f hf)
      (fun f hf => hes f (List.mem_cons_of_mem _ hf)) horder'
    refine ⟨kept ++ e.replacement ++ code, spliceFrom?_cons_eq_some.mpr
      ⟨kept, code, ?_, hsize ▸ hcode, rfl⟩⟩
    exact slice?_eq_some_iff.mpr ⟨head, old ++ b, by simp [hs'], rfl, by rw [← ha, size_append]⟩

end Edit
end ClassScope
