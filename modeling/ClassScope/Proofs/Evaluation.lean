import ClassScope.Proofs.Ledger
import ClassScope.Proofs.Text.Rim

/-! What a class expression comes to at run time, and the expression that a walk leaves behind. A
walk gives each literal its qualified text, if no two literals start at the same byte. -/
namespace ClassScope

/-- What is known at run time only: for each place in an expression the branch that is taken there
and the text of what is not looked into. A place is the list of turns on the way to it. -/
structure Env where
  branch : List Bool → Bool
  value : List Bool → Text

namespace Env

def first (env : Env) : Env :=
  ⟨fun place => env.branch (false :: place), fun place => env.value (false :: place)⟩

def others (env : Env) : Env :=
  ⟨fun place => env.branch (true :: place), fun place => env.value (true :: place)⟩

def pair (taken : Bool) (a b : Env) : Env where
  branch
    | [] => taken
    | false :: place => a.branch place
    | true :: place => b.branch place
  value
    | [] => []
    | false :: place => a.value place
    | true :: place => b.value place

/-- The same text everywhere. -/
def const (t : Text) : Env := ⟨fun _ => true, fun _ => t⟩

@[simp] theorem branch_pair (taken : Bool) (a b : Env) : (pair taken a b).branch [] = taken := rfl

@[simp] theorem first_pair (taken : Bool) (a b : Env) : (pair taken a b).first = a := rfl

@[simp] theorem others_pair (taken : Bool) (a b : Env) : (pair taken a b).others = b := rfl

end Env

/-- Two lists in turn, the first one first; what is left over comes last. -/
def weave {α : Type} : List α → List α → List α
  | [], bs => bs
  | a :: as, [] => a :: as
  | a :: as, b :: bs => a :: b :: weave as bs

theorem map_weave {α β : Type} (f : α → β) (as bs : List α) :
    (weave as bs).map f = weave (as.map f) (bs.map f) := by
  induction as generalizing bs with
  | nil => rfl
  | cons a as ih =>
    cases bs with
    | nil => rfl
    | cons b bs => simp [weave, ih]

theorem mem_weave {α : Type} {as bs : List α} {c : α} : c ∈ weave as bs ↔ c ∈ as ∨ c ∈ bs := by
  induction as generalizing bs with
  | nil => simp [weave]
  | cons a as ih =>
    cases bs with
    | nil => simp [weave]
    | cons b bs => simp [weave, ih, or_assoc, or_left_comm]

namespace Rewrite

def result (r : Rewrite) : ClassLiteral := { r.literal with text := r.updated }

end Rewrite

namespace ClassExpr

mutual

/-- The text of an expression. -/
def eval (env : Env) : ClassExpr → Text
  | .literal l => l.text
  | .conditional consequent alternate =>
    if env.branch [] then consequent.eval env.first else alternate.eval env.others
  | .template segments interpolations =>
    (weave (segments.map ClassLiteral.text) (evalAll env interpolations)).flatten
  | .join _ arguments => Text.joinFilled (evalAll env arguments)
  | .skipped _ => env.value []

def evalAll (env : Env) : List ClassExpr → List Text
  | [] => []
  | e :: es => e.eval env.first :: evalAll env.others es

end

mutual

def literals : ClassExpr → List ClassLiteral
  | .literal l => [l]
  | .conditional consequent alternate => consequent.literals ++ alternate.literals
  | .template segments interpolations => segments ++ literalsAll interpolations
  | .join _ arguments => literalsAll arguments
  | .skipped _ => []

def literalsAll : List ClassExpr → List ClassLiteral
  | [] => []
  | e :: es => e.literals ++ literalsAll es

end

mutual

/-- The expression with every literal qualified. -/
def qualified (scope : Text) : ClassExpr → ClassExpr
  | .literal l => .literal { l with text := ClassList.qualify scope l.text }
  | .conditional consequent alternate =>
    .conditional (consequent.qualified scope) (alternate.qualified scope)
  | .template segments interpolations =>
    .template ((segmentRewrites scope false segments).map Rewrite.result)
      (qualifiedAll scope interpolations)
  | .join callee arguments => .join callee (qualifiedAll scope arguments)
  | .skipped k => .skipped k

def qualifiedAll (scope : Text) : List ClassExpr → List ClassExpr
  | [] => []
  | e :: es => e.qualified scope :: qualifiedAll scope es

end

end ClassExpr

namespace Ledger

/-- No edit of the ledger starts where one of the literals does. -/
def Free (b : Ledger) (ls : List ClassLiteral) : Prop := ∀ l ∈ ls, b.isTaken l.start = false

/-- No literal of the one list starts where a literal of the other does. -/
def Distinct (ls ks : List ClassLiteral) : Prop := ∀ l ∈ ls, ∀ k ∈ ks, l.start ≠ k.start

theorem isTaken_enter {b : Ledger} {rs : List Rewrite} {n : Nat}
    (h : (b.enter rs).isTaken n = true) :
    b.isTaken n = true ∨ ∃ r ∈ rs, r.literal.start = n := by
  obtain ⟨e, he, hstart⟩ := isTaken_iff.mp h
  rcases mem_edits_enter he with he | ⟨r, hr, -, rfl⟩
  · exact Or.inl (isTaken_iff.mpr ⟨e, he, hstart⟩)
  · exact Or.inr ⟨r, hr, hstart⟩

theorem Free.enter {b : Ledger} {ls : List ClassLiteral} {rs : List Rewrite} (h : b.Free ls)
    (hd : Distinct (rs.map Rewrite.literal) ls) : (b.enter rs).Free ls := by
  intro l hl
  cases htaken : (b.enter rs).isTaken l.start with
  | false => rfl
  | true =>
    rcases isTaken_enter htaken with hb | ⟨r, hr, hstart⟩
    · rw [h l hl] at hb
      cases hb
    · exact absurd hstart (hd _ (List.mem_map_of_mem hr) l hl)

theorem write_fst {b : Ledger} {r : Rewrite} (hfree : b.isTaken r.literal.start = false)
    (hempty : r.literal.text = [] → r.updated = []) :
    (write r.literal r.updated b).1 = r.result := by
  by_cases hr : r.Counts
  · rw [write_of_counts hr hfree]
    rfl
  · rw [write_of_not_counts hr, Rewrite.result]
    have hsame : r.literal.text = r.updated := by
      by_cases ht : r.literal.text = []
      · rw [ht, hempty ht]
      · by_cases hu : r.literal.text = r.updated
        · exact hu
        · exact absurd ⟨ht, hu⟩ hr
    rw [← hsame]

end Ledger

theorem map_literal_segmentRewrites (scope : Text) (after : Bool) (ls : List ClassLiteral) :
    (segmentRewrites scope after ls).map Rewrite.literal = ls := by
  induction ls generalizing after with
  | nil => rfl
  | cons l ls ih => rw [segmentRewrites, List.map_cons, ih]

namespace ClassExpr

mutual

theorem map_literal_rewrites (scope : Text) (e : ClassExpr) :
    (e.rewrites scope).map Rewrite.literal = e.literals := by
  match e with
  | .literal l => rfl
  | .conditional c a =>
    rw [rewrites, literals, List.map_append, map_literal_rewrites scope c,
      map_literal_rewrites scope a]
  | .template segments interpolations =>
    rw [rewrites, literals, List.map_append, map_literal_segmentRewrites,
      map_literal_rewritesAll scope interpolations]
  | .join _ arguments => rw [rewrites, literals, map_literal_rewritesAll scope arguments]
  | .skipped _ => rfl

theorem map_literal_rewritesAll (scope : Text) (es : List ClassExpr) :
    (rewritesAll scope es).map Rewrite.literal = literalsAll es := by
  match es with
  | [] => rfl
  | e :: es =>
    rw [rewritesAll, literalsAll, List.map_append, map_literal_rewrites scope e,
      map_literal_rewritesAll scope es]

end

end ClassExpr

namespace Ledger

theorem Free.leave {b : Ledger} {ls : List ClassLiteral} (h : b.Free ls) (ks : List Skipped) :
    (b.leave ks).Free ls := h

/-- A walk over an expression leaves the places of other literals free. -/
theorem Free.qualify {b : Ledger} {ls : List ClassLiteral} {e : ClassExpr} (scope : Text)
    (h : b.Free ls) (hd : Distinct e.literals ls) : (Ledger.qualify scope e b).2.Free ls := by
  rw [qualify_snd]
  exact (h.enter (ClassExpr.map_literal_rewrites scope e ▸ hd)).leave _

theorem Free.qualifySegments {b : Ledger} {ls segments : List ClassLiteral} (scope : Text)
    (after : Bool) (h : b.Free ls) (hd : Distinct segments ls) :
    (Ledger.qualifySegments scope after segments b).2.Free ls := by
  rw [qualifySegments_snd]
  exact h.enter ((map_literal_segmentRewrites scope after segments).symm ▸ hd)

variable {scope : Text} {b : Ledger}

theorem qualifySegments_fst {after : Bool} {ls : List ClassLiteral} (hfree : b.Free ls)
    (hd : ls.Pairwise (·.start ≠ ·.start)) :
    (qualifySegments scope after ls b).1 = (segmentRewrites scope after ls).map Rewrite.result := by
  induction ls generalizing after b with
  | nil => rfl
  | cons l ls ih =>
    obtain ⟨hl, hls⟩ := List.pairwise_cons.mp hd
    let r : Rewrite := ⟨l, ClassList.qualifySegment scope ⟨after, !ls.isEmpty⟩ l.text⟩
    have hhead : (write l r.updated b).1 = r.result := by
      refine write_fst (r := r) (hfree l List.mem_cons_self) ?_
      intro ht
      simp [r, show l.text = [] from ht, ClassList.qualifySegment]
    have htail : (write l r.updated b).2.Free ls := by
      have hstep : b.Free ls := fun k hk => hfree k (List.mem_cons_of_mem _ hk)
      have hapart : Distinct ([r].map Rewrite.literal) ls := by
        intro k hk
        obtain rfl : k = l := by simpa using hk
        exact hl
      exact hstep.enter hapart
    calc (qualifySegments scope after (l :: ls) b).1
        = (write l r.updated b).1 ::
            (qualifySegments scope true ls (write l r.updated b).2).1 := rfl
      _ = _ := by rw [hhead, ih htail hls]; rfl

mutual

theorem qualify_fst {e : ClassExpr} {b : Ledger} (hfree : b.Free e.literals)
    (hd : e.literals.Pairwise (·.start ≠ ·.start)) :
    (qualify scope e b).1 = e.qualified scope := by
  match e with
  | .literal l =>
    have hwrite := write_fst (r := ⟨l, ClassList.qualify scope l.text⟩)
      (hfree l (List.mem_singleton_self l)) (fun ht => by simp [show l.text = [] from ht])
    exact congrArg ClassExpr.literal hwrite
  | .conditional c a =>
    rw [ClassExpr.literals] at hfree hd
    obtain ⟨hc, ha, hca⟩ := List.pairwise_append.mp hd
    obtain ⟨hfc, hfa⟩ := List.forall_mem_append.mp hfree
    have hrest : (qualify scope c b).2.Free a.literals := Free.qualify scope hfa hca
    calc (qualify scope (.conditional c a) b).1
        = .conditional (qualify scope c b).1 (qualify scope a (qualify scope c b).2).1 := rfl
      _ = _ := by rw [qualify_fst hfc hc, qualify_fst hrest ha, ClassExpr.qualified]
  | .template segments interpolations =>
    rw [ClassExpr.literals] at hfree hd
    obtain ⟨hs, hi, hsi⟩ := List.pairwise_append.mp hd
    obtain ⟨hfs, hfi⟩ := List.forall_mem_append.mp hfree
    have hrest : (qualifySegments scope false segments b).2.Free
        (ClassExpr.literalsAll interpolations) := Free.qualifySegments scope false hfi hsi
    calc (qualify scope (.template segments interpolations) b).1
        = .template (qualifySegments scope false segments b).1
            (qualifyAll scope interpolations (qualifySegments scope false segments b).2).1 := rfl
      _ = _ := by
        rw [qualifySegments_fst hfs hs, qualifyAll_fst hrest hi, ClassExpr.qualified]
  | .join callee arguments =>
    rw [ClassExpr.literals] at hfree hd
    calc (qualify scope (.join callee arguments) b).1
        = .join callee (qualifyAll scope arguments b).1 := rfl
      _ = _ := by rw [qualifyAll_fst hfree hd, ClassExpr.qualified]
  | .skipped k => rfl

theorem qualifyAll_fst {es : List ClassExpr} {b : Ledger}
    (hfree : b.Free (ClassExpr.literalsAll es))
    (hd : (ClassExpr.literalsAll es).Pairwise (·.start ≠ ·.start)) :
    (qualifyAll scope es b).1 = ClassExpr.qualifiedAll scope es := by
  match es with
  | [] => rfl
  | e :: es =>
    rw [ClassExpr.literalsAll] at hfree hd
    obtain ⟨he, hes, hee⟩ := List.pairwise_append.mp hd
    obtain ⟨hfe, hfes⟩ := List.forall_mem_append.mp hfree
    have hrest : (qualify scope e b).2.Free (ClassExpr.literalsAll es) :=
      Free.qualify scope hfes hee
    calc (qualifyAll scope (e :: es) b).1
        = (qualify scope e b).1 :: (qualifyAll scope es (qualify scope e b).2).1 := rfl
      _ = _ := by rw [qualify_fst hfe he, qualifyAll_fst hrest hes, ClassExpr.qualifiedAll]

end

end Ledger
end ClassScope
