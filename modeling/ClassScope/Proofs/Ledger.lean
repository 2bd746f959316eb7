import ClassScope.ClassValue.Qualify

/-! What a ledger holds after a walk. Every walk comes down to the list of rewrites it asks for, in
the order of visiting, and the list of what it leaves alone; the ledger enters the one and notes
the other. -/
namespace ClassScope

/-- A literal and the text it is to get. -/
structure Rewrite where
  literal : ClassLiteral
  updated : Text
  deriving DecidableEq, Repr

namespace Rewrite

/-- Is there anything to change? -/
def Counts (r : Rewrite) : Prop := r.literal.text ≠ [] ∧ r.literal.text ≠ r.updated

instance (r : Rewrite) : Decidable r.Counts := inferInstanceAs (Decidable (_ ∧ _))

def edit (r : Rewrite) : Edit :=
  ⟨r.literal.start, r.literal.stop, r.literal.style.render r.updated⟩

def event (r : Rewrite) : Event := ⟨r.literal.text, r.updated, r.literal.line⟩

end Rewrite

def segmentRewrites (scope : Text) (after : Bool) : List ClassLiteral → List Rewrite
  | [] => []
  | l :: ls =>
    ⟨l, ClassList.qualifySegment scope ⟨after, !ls.isEmpty⟩ l.text⟩ ::
      segmentRewrites scope true ls

namespace ClassExpr

mutual

/-- The rewrites of an expression, in the order of visiting. -/
def rewrites (scope : Text) : ClassExpr → List Rewrite
  | .literal l => [⟨l, ClassList.qualify scope l.text⟩]
  | .conditional consequent alternate => consequent.rewrites scope ++ alternate.rewrites scope
  | .template segments interpolations =>
    segmentRewrites scope false segments ++ rewritesAll scope interpolations
  | .join _ arguments => rewritesAll scope arguments
  | .skipped _ => []

def rewritesAll (scope : Text) : List ClassExpr → List Rewrite
  | [] => []
  | e :: es => e.rewrites scope ++ rewritesAll scope es

end

mutual

def skips : ClassExpr → List Skipped
  | .literal _ => []
  | .conditional consequent alternate => consequent.skips ++ alternate.skips
  | .template _ interpolations => skipsAll interpolations
  | .join _ arguments => skipsAll arguments
  | .skipped k => [k]

def skipsAll : List ClassExpr → List Skipped
  | [] => []
  | e :: es => e.skips ++ skipsAll es

end

end ClassExpr

namespace ClassValue

def rewrites (scope : Text) : ClassValue → List Rewrite
  | .literal l => [⟨l, ClassList.qualify scope l.text⟩]
  | .slot e => e.rewrites scope

def skips : ClassValue → List Skipped
  | .literal _ => []
  | .slot e => e.skips

end ClassValue

namespace Ledger

def enter (b : Ledger) (rs : List Rewrite) : Ledger :=
  rs.foldl (fun b r => (write r.literal r.updated b).2) b

/-- The ledger with a number of things noted that were left alone. -/
def leave (b : Ledger) (ks : List Skipped) : Ledger := { b with skipped := b.skipped ++ ks }

@[simp] theorem enter_nil (b : Ledger) : b.enter [] = b := rfl

@[simp] theorem enter_cons (b : Ledger) (r : Rewrite) (rs : List Rewrite) :
    b.enter (r :: rs) = (write r.literal r.updated b).2.enter rs := rfl

theorem enter_append (b : Ledger) (rs qs : List Rewrite) :
    b.enter (rs ++ qs) = (b.enter rs).enter qs := by
  simp [enter, List.foldl_append]

@[simp] theorem leave_nil (b : Ledger) : b.leave [] = b := by simp [leave]

theorem leave_append (b : Ledger) (ks js : List Skipped) :
    b.leave (ks ++ js) = (b.leave ks).leave js := by
  simp [leave]

@[simp] theorem edits_leave (b : Ledger) (ks : List Skipped) : (b.leave ks).edits = b.edits := rfl

@[simp] theorem events_leave (b : Ledger) (ks : List Skipped) :
    (b.leave ks).events = b.events := rfl

@[simp] theorem skipped_leave (b : Ledger) (ks : List Skipped) :
    (b.leave ks).skipped = b.skipped ++ ks := rfl

theorem write_leave (l : ClassLiteral) (updated : Text) (b : Ledger) (ks : List Skipped) :
    write l updated (b.leave ks) = ((write l updated b).1, (write l updated b).2.leave ks) := by
  unfold write
  have htaken : (b.leave ks).isTaken l.start = b.isTaken l.start := rfl
  rw [htaken]
  split <;> rfl

theorem enter_leave (b : Ledger) (ks : List Skipped) (rs : List Rewrite) :
    (b.leave ks).enter rs = (b.enter rs).leave ks := by
  induction rs generalizing b with
  | nil => rfl
  | cons r rs ih => rw [enter_cons, enter_cons, write_leave, ih]

theorem skipped_enter (b : Ledger) (rs : List Rewrite) : (b.enter rs).skipped = b.skipped := by
  induction rs generalizing b with
  | nil => rfl
  | cons r rs ih =>
    rw [enter_cons, ih, write]
    split <;> rfl

theorem qualifySegments_snd (scope : Text) (after : Bool) (ls : List ClassLiteral) (b : Ledger) :
    (qualifySegments scope after ls b).2 = b.enter (segmentRewrites scope after ls) := by
  induction ls generalizing after b with
  | nil => rfl
  | cons l ls ih => exact ih true _

mutual

/-- A walk over an expression enters its rewrites and notes what it leaves alone. -/
theorem qualify_snd (scope : Text) (e : ClassExpr) (b : Ledger) :
    (qualify scope e b).2 = (b.enter (e.rewrites scope)).leave e.skips := by
  match e with
  | .literal l =>
    rw [ClassExpr.rewrites, ClassExpr.skips, leave_nil]
    rfl
  | .conditional c a =>
    calc (qualify scope (.conditional c a) b).2
        = (qualify scope a (qualify scope c b).2).2 := rfl
      _ = (((b.enter (c.rewrites scope)).leave c.skips).enter (a.rewrites scope)).leave
            a.skips := by
        rw [qualify_snd scope a, qualify_snd scope c]
      _ = _ := by
        rw [enter_leave, ← leave_append, ← enter_append, ClassExpr.rewrites, ClassExpr.skips]
  | .template segments interpolations =>
    calc (qualify scope (.template segments interpolations) b).2
        = (qualifyAll scope interpolations (qualifySegments scope false segments b).2).2 := rfl
      _ = _ := by
        rw [qualifyAll_snd scope interpolations, qualifySegments_snd, ← enter_append,
          ClassExpr.rewrites, ClassExpr.skips]
  | .join callee arguments =>
    rw [ClassExpr.rewrites, ClassExpr.skips]
    exact qualifyAll_snd scope arguments b
  | .skipped k =>
    rw [ClassExpr.rewrites, ClassExpr.skips]
    rfl

theorem qualifyAll_snd (scope : Text) (es : List ClassExpr) (b : Ledger) :
    (qualifyAll scope es b).2 =
      (b.enter (ClassExpr.rewritesAll scope es)).leave (ClassExpr.skipsAll es) := by
  match es with
  | [] => rw [ClassExpr.rewritesAll, ClassExpr.skipsAll, leave_nil]; rfl
  | e :: es =>
    calc (qualifyAll scope (e :: es) b).2
        = (qualifyAll scope es (qualify scope e b).2).2 := rfl
      _ = (((b.enter (e.rewrites scope)).leave e.skips).enter
            (ClassExpr.rewritesAll scope es)).leave (ClassExpr.skipsAll es) := by
        rw [qualifyAll_snd scope es, qualify_snd scope e]
      _ = _ := by
        rw [enter_leave, ← leave_append, ← enter_append, ClassExpr.rewritesAll,
          ClassExpr.skipsAll]

end

theorem qualifyValue_snd (scope : Text) (v : ClassValue) (b : Ledger) :
    (qualifyValue scope v b).2 = (b.enter (v.rewrites scope)).leave v.skips := by
  cases v with
  | literal l => exact (leave_nil _).symm
  | slot e => exact qualify_snd scope e b

theorem ofValues_eq (scope : Text) (values : List ClassValue) :
    ofValues scope values =
      (empty.enter (values.flatMap (·.rewrites scope))).leave (values.flatMap (·.skips)) := by
  have hfold : ∀ b : Ledger, values.foldl (fun b v => (qualifyValue scope v b).2) b =
      (b.enter (values.flatMap (·.rewrites scope))).leave (values.flatMap (·.skips)) := by
    induction values with
    | nil => intro b; simp
    | cons v vs ih =>
      intro b
      rw [List.foldl_cons, ih, qualifyValue_snd, enter_leave, ← leave_append, ← enter_append]
      rfl
  exact hfold empty

theorem isTaken_iff {b : Ledger} {n : Nat} : b.isTaken n = true ↔ ∃ e ∈ b.edits, e.start = n := by
  simp [isTaken]

@[simp] theorem mem_insert {e f : Edit} {es : List Edit} : f ∈ insert e es ↔ f = e ∨ f ∈ es := by
  induction es with
  | nil => simp [insert]
  | cons g gs ih =>
    rw [insert]
    split
    · simp
    · rw [List.mem_cons, ih, List.mem_cons, or_left_comm]

/-- Putting an edit in its place keeps the order, if no other edit starts there. -/
theorem insert_pairwise {e : Edit} {es : List Edit} (h : es.Pairwise (·.start < ·.start))
    (hfree : ∀ f ∈ es, f.start ≠ e.start) : (insert e es).Pairwise (·.start < ·.start) := by
  induction es with
  | nil => simp [insert]
  | cons g gs ih =>
    obtain ⟨hg, hgs⟩ := List.pairwise_cons.mp h
    rw [insert]
    split
    · rename_i hlt
      refine List.pairwise_cons.mpr ⟨?_, h⟩
      intro f hf
      rcases List.mem_cons.mp hf with rfl | hf
      · exact hlt
      · exact Nat.lt_trans hlt (hg f hf)
    · rename_i hge
      have hne := hfree g List.mem_cons_self
      refine List.pairwise_cons.mpr
        ⟨?_, ih hgs fun f hf => hfree f (List.mem_cons_of_mem _ hf)⟩
      intro f hf
      rcases mem_insert.mp hf with rfl | hf
      · omega
      · exact hg f hf

/-- A rewrite is entered, with its edit and its event, if it counts and its place is free. -/
theorem write_of_counts {b : Ledger} {r : Rewrite} (hr : r.Counts)
    (hfree : b.isTaken r.literal.start = false) :
    write r.literal r.updated b =
      ({ r.literal with text := r.updated },
       { b with edits := insert r.edit b.edits, events := b.events ++ [r.event] }) := by
  have hcond : ¬ (r.literal.text = [] ∨ r.literal.text = r.updated ∨
      b.isTaken r.literal.start = true) := by
    rintro (h | h | h)
    · exact hr.1 h
    · exact hr.2 h
    · simp [hfree] at h
  rw [write, if_neg hcond]
  rfl

theorem write_of_not_counts {b : Ledger} {r : Rewrite} (hr : ¬ r.Counts) :
    write r.literal r.updated b = (r.literal, b) := by
  have hcond : r.literal.text = [] ∨ r.literal.text = r.updated ∨
      b.isTaken r.literal.start = true := by
    by_cases h : r.literal.text = []
    · exact Or.inl h
    · by_cases h' : r.literal.text = r.updated
      · exact Or.inr (Or.inl h')
      · exact absurd ⟨h, h'⟩ hr
  rw [write, if_pos hcond]

theorem write_of_taken {b : Ledger} {r : Rewrite} (h : b.isTaken r.literal.start = true) :
    write r.literal r.updated b = (r.literal, b) := by
  rw [write, if_pos (Or.inr (Or.inr h))]

theorem mem_edits_write {b : Ledger} {r : Rewrite} {e : Edit} :
    e ∈ (write r.literal r.updated b).2.edits ↔
      e ∈ b.edits ∨ r.Counts ∧ b.isTaken r.literal.start = false ∧ e = r.edit := by
  by_cases hr : r.Counts
  · cases hfree : b.isTaken r.literal.start with
    | true => simp [write_of_taken hfree]
    | false =>
      rw [write_of_counts hr hfree, mem_insert, or_comm]
      simp [hr]
  · simp [write_of_not_counts hr, hr]

theorem mem_edits_enter {b : Ledger} {rs : List Rewrite} {e : Edit}
    (he : e ∈ (b.enter rs).edits) : e ∈ b.edits ∨ ∃ r ∈ rs, r.Counts ∧ e = r.edit := by
  induction rs generalizing b with
  | nil => exact Or.inl he
  | cons r rs ih =>
    rw [enter_cons] at he
    rcases ih he with he | ⟨q, hq, hqe⟩
    · rcases mem_edits_write.mp he with he | ⟨hc, -, rfl⟩
      · exact Or.inl he
      · exact Or.inr ⟨r, List.mem_cons_self, hc, rfl⟩
    · exact Or.inr ⟨q, List.mem_cons_of_mem _ hq, hqe⟩

theorem mem_edits_enter_of_mem {b : Ledger} (rs : List Rewrite) {e : Edit} (he : e ∈ b.edits) :
    e ∈ (b.enter rs).edits := by
  induction rs generalizing b with
  | nil => exact he
  | cons r rs ih =>
    rw [enter_cons]
    exact ih (mem_edits_write.mpr (Or.inl he))

/-- Where a rewrite counts, some edit starts. -/
theorem isTaken_enter_of_counts {b : Ledger} {rs : List Rewrite} {r : Rewrite} (hr : r ∈ rs)
    (hc : r.Counts) : (b.enter rs).isTaken r.literal.start = true := by
  induction rs generalizing b with
  | nil => cases hr
  | cons q rs ih =>
    rw [enter_cons]
    rcases List.mem_cons.mp hr with rfl | hr
    · cases hfree : b.isTaken r.literal.start with
      | true =>
        obtain ⟨e, he, hstart⟩ := isTaken_iff.mp hfree
        exact isTaken_iff.mpr
          ⟨e, mem_edits_enter_of_mem rs (mem_edits_write.mpr (Or.inl he)), hstart⟩
      | false =>
        have hentered := mem_edits_write.mpr (Or.inr ⟨hc, hfree, rfl⟩)
        exact isTaken_iff.mpr ⟨r.edit, mem_edits_enter_of_mem rs hentered, rfl⟩
    · exact ih hr

/-- No two edits of a ledger start at the same byte. -/
theorem edits_enter_pairwise {b : Ledger} (rs : List Rewrite)
    (h : b.edits.Pairwise (·.start < ·.start)) :
    (b.enter rs).edits.Pairwise (·.start < ·.start) := by
  induction rs generalizing b with
  | nil => exact h
  | cons r rs ih =>
    rw [enter_cons]
    apply ih
    by_cases hr : r.Counts
    · cases hfree : b.isTaken r.literal.start with
      | true => rwa [write_of_taken hfree]
      | false =>
        rw [write_of_counts hr hfree]
        refine insert_pairwise h ?_
        intro f hf hstart
        have htaken : b.isTaken r.literal.start = true := isTaken_iff.mpr ⟨f, hf, hstart⟩
        rw [htaken] at hfree
        cases hfree
    · rwa [write_of_not_counts hr]

/-- If the rewrites that count stand at different places, all of them are entered. -/
theorem enter_of_distinct {b : Ledger} {rs : List Rewrite}
    (hdist : rs.Pairwise fun r q => r.Counts → q.Counts → r.literal.start ≠ q.literal.start)
    (hfree : ∀ r ∈ rs, r.Counts → b.isTaken r.literal.start = false) :
    (∀ e, e ∈ (b.enter rs).edits ↔ e ∈ b.edits ∨ ∃ r ∈ rs, r.Counts ∧ e = r.edit) ∧
    (b.enter rs).events = b.events ++ (rs.filter (·.Counts)).map Rewrite.event := by
  induction rs generalizing b with
  | nil => simp
  | cons r rs ih =>
    obtain ⟨hr, hrs⟩ := List.pairwise_cons.mp hdist
    rw [enter_cons]
    by_cases hc : r.Counts
    · rw [write_of_counts hc (hfree r List.mem_cons_self hc)]
      have hrest := ih (b := { b with
          edits := insert r.edit b.edits, events := b.events ++ [r.event] }) hrs ?_
      · refine ⟨fun e => ?_, ?_⟩
        · rw [hrest.1 e]
          simp [hc, or_assoc, or_left_comm]
        · simp [hrest.2, hc]
      · intro q hq hqc
        have hold := hfree q (List.mem_cons_of_mem _ hq) hqc
        have hne : r.edit.start ≠ q.literal.start := hr q hq hc hqc
        rw [← Bool.not_eq_true, isTaken_iff] at hold ⊢
        rintro ⟨f, hf, hstart⟩
        rcases mem_insert.mp hf with rfl | hf
        · exact hne hstart
        · exact hold ⟨f, hf, hstart⟩
    · rw [write_of_not_counts hc]
      have hrest := ih hrs fun q hq => hfree q (List.mem_cons_of_mem _ hq)
      refine ⟨fun e => ?_, ?_⟩
      · rw [hrest.1 e]
        simp [hc]
      · simp [hrest.2, hc]

theorem insert_of_last {e : Edit} {es : List Edit} (h : ∀ f ∈ es, f.start < e.start) :
    insert e es = es ++ [e] := by
  induction es with
  | nil => rfl
  | cons g gs ih =>
    obtain ⟨hg, hgs⟩ := List.forall_mem_cons.mp h
    rw [insert, if_neg (by omega), ih hgs, List.cons_append]

/-- Rewrites that come in the order of their places are entered one after the other. -/
theorem edits_enter_of_ordered {b : Ledger} {rs : List Rewrite}
    (h : (b.edits ++ (rs.filter (·.Counts)).map Rewrite.edit).Pairwise (·.start < ·.start)) :
    (b.enter rs).edits = b.edits ++ (rs.filter (·.Counts)).map Rewrite.edit := by
  induction rs generalizing b with
  | nil => simp
  | cons r rs ih =>
    rw [enter_cons]
    by_cases hc : r.Counts
    · have hlast : ∀ f ∈ b.edits, f.start < r.edit.start := by
        intro f hf
        exact (List.pairwise_append.mp h).2.2 f hf r.edit (by simp [hc])
      have hfree : b.isTaken r.literal.start = false := by
        rw [← Bool.not_eq_true, isTaken_iff]
        rintro ⟨f, hf, hstart⟩
        exact absurd hstart (Nat.ne_of_lt (hlast f hf))
      have hedits : b.edits ++ ((r :: rs).filter (·.Counts)).map Rewrite.edit =
          b.edits ++ [r.edit] ++ (rs.filter (·.Counts)).map Rewrite.edit := by simp [hc]
      rw [write_of_counts hc hfree, insert_of_last hlast, hedits]
      exact ih (by rwa [hedits] at h)
    · have hsame : (r :: rs).filter (·.Counts) = rs.filter (·.Counts) := by simp [hc]
      rw [write_of_not_counts hc, hsame]
      exact ih (by rwa [hsame] at h)

end Ledger
end ClassScope
