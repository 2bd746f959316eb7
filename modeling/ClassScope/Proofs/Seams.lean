import Mathlib.Data.List.Sections
import ClassScope.Proofs.Evaluation

/-! When the class names of an expression stay apart. A literal loses the blanks at its ends when it
is qualified, whatever stands around it, so in a template two names can become one. The rims that
an expression can have, before and after, are finitely many, and they decide whether this can
happen. -/
namespace ClassScope

namespace Rim

def all : List Rim :=
  [void, blank, solid false false, solid false true, solid true false, solid true true]

theorem mem_all (r : Rim) : r ∈ all := by
  cases r with
  | void => decide
  | blank => decide
  | solid l t => cases l <;> cases t <;> decide

theorem exists_of_eq (r : Rim) : ∃ t, of t = r := by
  cases r with
  | void => exact ⟨[], rfl⟩
  | blank => exact ⟨[' '], by decide⟩
  | solid l t =>
    cases l <;> cases t
    · exact ⟨['a'], by decide⟩
    · exact ⟨['a', ' '], by decide⟩
    · exact ⟨[' ', 'a'], by decide⟩
    · exact ⟨[' ', 'a', ' '], by decide⟩

def ofBoth (p : Text × Text) : Rim × Rim := (of p.1, of p.2)

end Rim

theorem mem_sections_cons {α : Type} {l s : List α} {ls : List (List α)} :
    s ∈ (l :: ls).sections ↔ ∃ a ∈ l, ∃ t ∈ ls.sections, s = a :: t := by
  simp only [List.sections, List.mem_flatMap, List.mem_map]
  constructor
  · rintro ⟨t, ht, a, ha, rfl⟩
    exact ⟨a, ha, t, ht, rfl⟩
  · rintro ⟨a, ha, t, ht, rfl⟩
    exact ⟨t, ht, a, ha, rfl⟩

theorem mem_sections_weave {α : Type} {ls ks : List (List α)} {s : List α} :
    s ∈ (weave ls ks).sections ↔ ∃ t ∈ ls.sections, ∃ u ∈ ks.sections, s = weave t u := by
  induction ls generalizing ks s with
  | nil => simp [weave]
  | cons l ls ih =>
    cases ks with
    | nil =>
      have hleft : ∀ t ∈ (l :: ls).sections, weave t [] = t := by
        intro t ht
        obtain ⟨a, -, t', -, rfl⟩ := mem_sections_cons.mp ht
        rfl
      constructor
      · intro hs
        exact ⟨s, hs, [], by simp, (hleft s hs).symm⟩
      · rintro ⟨t, ht, u, hu, rfl⟩
        obtain rfl : u = [] := by simpa using hu
        rwa [hleft t ht]
    | cons k ks =>
      simp only [weave, mem_sections_cons, ih]
      constructor
      · rintro ⟨a, ha, s', ⟨b, hb, s'', ⟨t, ht, u, hu, rfl⟩, rfl⟩, rfl⟩
        exact ⟨a :: t, ⟨a, ha, t, ht, rfl⟩, b :: u, ⟨b, hb, u, hu, rfl⟩, rfl⟩
      · rintro ⟨t', ⟨a, ha, t, ht, rfl⟩, u', ⟨b, hb, u, hu, rfl⟩, rfl⟩
        exact ⟨a, ha, b :: weave t u, ⟨b, hb, weave t u, ⟨t, ht, u, hu, rfl⟩, rfl⟩, rfl⟩

namespace ClassExpr
open Rim

def segmentRims (after : Bool) : List ClassLiteral → List (List (Rim × Rim))
  | [] => []
  | l :: ls =>
    [(of l.text, (of l.text).placed ⟨after, !ls.isEmpty⟩)] :: segmentRims true ls

mutual

/-- The rims that an expression can have, before and after. -/
def rims : ClassExpr → List (Rim × Rim)
  | .literal l => [(of l.text, (of l.text).placed ⟨false, false⟩)]
  | .conditional consequent alternate => consequent.rims ++ alternate.rims
  | .template segments interpolations =>
    (weave (segmentRims false segments) (rimsAll interpolations)).sections.map fun ps =>
      (row (ps.map Prod.fst), row (ps.map Prod.snd))
  | .join _ arguments =>
    (rimsAll arguments).sections.map fun ps =>
      (joined (ps.map Prod.fst), joined (ps.map Prod.snd))
  | .skipped _ => Rim.all.map fun r => (r, r)

def rimsAll : List ClassExpr → List (List (Rim × Rim))
  | [] => []
  | e :: es => e.rims :: rimsAll es

end

mutual

/-- Is there no template whose parts can have rims that make more seams after than before? -/
def isSeamless : ClassExpr → Bool
  | .literal _ | .skipped _ => true
  | .conditional consequent alternate => consequent.isSeamless && alternate.isSeamless
  | .template segments interpolations =>
    areSeamless interpolations &&
      (weave (segmentRims false segments) (rimsAll interpolations)).sections.all fun ps =>
        seams (ps.map Prod.fst) == seams (ps.map Prod.snd)
  | .join _ arguments => areSeamless arguments

def areSeamless : List ClassExpr → Bool
  | [] => true
  | e :: es => e.isSeamless && areSeamless es

end

/-- The text of an expression before and after, in the same environment. -/
def both (scope : Text) (env : Env) (e : ClassExpr) : Text × Text :=
  (e.eval env, (e.qualified scope).eval env)

def bothAll (scope : Text) (env : Env) : List ClassExpr → List (Text × Text)
  | [] => []
  | e :: es => e.both scope env.first :: bothAll scope env.others es

def bothSegments (scope : Text) (after : Bool) (ls : List ClassLiteral) : List (Text × Text) :=
  (segmentRewrites scope after ls).map fun r => (r.literal.text, r.updated)

def bothParts (scope : Text) (env : Env) (segments : List ClassLiteral)
    (interpolations : List ClassExpr) : List (Text × Text) :=
  weave (bothSegments scope false segments) (bothAll scope env interpolations)

variable {scope : Text}

theorem evalAll_eq (scope : Text) (env : Env) (es : List ClassExpr) :
    evalAll env es = (bothAll scope env es).map Prod.fst := by
  induction es generalizing env with
  | nil => rfl
  | cons e es ih => rw [evalAll, bothAll, List.map_cons, ih]; rfl

theorem evalAll_qualifiedAll (env : Env) (es : List ClassExpr) :
    evalAll env (qualifiedAll scope es) = (bothAll scope env es).map Prod.snd := by
  induction es generalizing env with
  | nil => rfl
  | cons e es ih => rw [qualifiedAll, evalAll, bothAll, List.map_cons, ih]; rfl

theorem both_template (env : Env) (segments : List ClassLiteral)
    (interpolations : List ClassExpr) :
    both scope env (.template segments interpolations) =
      (((bothParts scope env segments interpolations).map Prod.fst).flatten,
       ((bothParts scope env segments interpolations).map Prod.snd).flatten) := by
  have hfst : segments.map ClassLiteral.text =
      (bothSegments scope false segments).map Prod.fst := by
    conv_lhs => rw [← map_literal_segmentRewrites scope false segments]
    rw [bothSegments, List.map_map, List.map_map]
    rfl
  have hsnd : ((segmentRewrites scope false segments).map Rewrite.result).map ClassLiteral.text =
      (bothSegments scope false segments).map Prod.snd := by
    rw [bothSegments, List.map_map, List.map_map]
    rfl
  rw [both, eval, qualified, eval, hfst, hsnd, evalAll_qualifiedAll,
    evalAll_eq scope, bothParts, map_weave, map_weave]

theorem both_join (env : Env) (callee : Text) (arguments : List ClassExpr) :
    both scope env (.join callee arguments) =
      (Text.joinFilled ((bothAll scope env arguments).map Prod.fst),
       Text.joinFilled ((bothAll scope env arguments).map Prod.snd)) := by
  rw [both, eval, qualified, eval, evalAll_qualifiedAll, evalAll_eq scope]

theorem mem_sections_segmentRims (hscope : ∀ c ∈ scope, Text.isBlank c = false) {after : Bool}
    {ls : List ClassLiteral} {ps : List (Rim × Rim)} :
    ps ∈ (segmentRims after ls).sections ↔ ps = (bothSegments scope after ls).map ofBoth := by
  induction ls generalizing after ps with
  | nil => simp [segmentRims, bothSegments, segmentRewrites]
  | cons l ls ih =>
    have hhead : ofBoth (l.text, ClassList.qualifySegment scope ⟨after, !ls.isEmpty⟩ l.text) =
        (of l.text, (of l.text).placed ⟨after, !ls.isEmpty⟩) := by
      rw [ofBoth, of_qualifySegment hscope]
    rw [segmentRims, mem_sections_cons]
    constructor
    · rintro ⟨p, hp, qs, hqs, rfl⟩
      obtain rfl := List.mem_singleton.mp hp
      rw [ih.mp hqs, ← hhead]
      rfl
    · rintro rfl
      exact ⟨_, List.mem_singleton_self _, _, ih.mpr rfl, by rw [← hhead]; rfl⟩

theorem mem_sections_parts (hscope : ∀ c ∈ scope, Text.isBlank c = false)
    {segments : List ClassLiteral} {interpolations : List ClassExpr} {ps : List (Rim × Rim)}
    (h : ∀ us, us ∈ (rimsAll interpolations).sections ↔
      ∃ env, us = (bothAll scope env interpolations).map ofBoth) :
    ps ∈ (weave (segmentRims false segments) (rimsAll interpolations)).sections ↔
      ∃ env, ps = (bothParts scope env segments interpolations).map ofBoth := by
  rw [mem_sections_weave]
  constructor
  · rintro ⟨ts, hts, us, hus, rfl⟩
    obtain ⟨env, rfl⟩ := (h us).mp hus
    refine ⟨env, ?_⟩
    rw [(mem_sections_segmentRims hscope).mp hts, bothParts, map_weave]
  · rintro ⟨env, rfl⟩
    refine ⟨_, (mem_sections_segmentRims hscope).mpr rfl, _, (h _).mpr ⟨env, rfl⟩, ?_⟩
    rw [bothParts, map_weave]

theorem ofBoth_row (ps : List (Text × Text)) :
    ofBoth ((ps.map Prod.fst).flatten, (ps.map Prod.snd).flatten) =
      (row ((ps.map ofBoth).map Prod.fst), row ((ps.map ofBoth).map Prod.snd)) := by
  rw [ofBoth, of_flatten, of_flatten]
  simp only [List.map_map]
  rfl

theorem ofBoth_joined (ps : List (Text × Text)) :
    ofBoth (Text.joinFilled (ps.map Prod.fst), Text.joinFilled (ps.map Prod.snd)) =
      (joined ((ps.map ofBoth).map Prod.fst), joined ((ps.map ofBoth).map Prod.snd)) := by
  rw [ofBoth, of_joinFilled, of_joinFilled]
  simp only [List.map_map]
  rfl

mutual

/-- An expression has exactly the rims that some environment gives it. -/
theorem mem_rims (hscope : ∀ c ∈ scope, Text.isBlank c = false) {e : ClassExpr} {p : Rim × Rim} :
    p ∈ e.rims ↔ ∃ env, p = ofBoth (e.both scope env) := by
  match e with
  | .literal l =>
    have hboth : ∀ env, ofBoth (both scope env (.literal l)) =
        (of l.text, (of l.text).placed ⟨false, false⟩) := by
      intro env
      rw [both, eval, qualified, eval, ofBoth, of_qualify hscope]
    rw [rims, List.mem_singleton]
    constructor
    · rintro rfl
      exact ⟨.const [], (hboth _).symm⟩
    · rintro ⟨env, rfl⟩
      exact hboth env
  | .conditional c a =>
    rw [rims, List.mem_append, mem_rims hscope, mem_rims hscope]
    constructor
    · rintro (⟨env, rfl⟩ | ⟨env, rfl⟩)
      · exact ⟨.pair true env env, by simp [both, eval, qualified]⟩
      · exact ⟨.pair false env env, by simp [both, eval, qualified]⟩
    · rintro ⟨env, rfl⟩
      cases hb : env.branch [] with
      | true => exact Or.inl ⟨env.first, by simp [both, eval, qualified, hb]⟩
      | false => exact Or.inr ⟨env.others, by simp [both, eval, qualified, hb]⟩
  | .template segments interpolations =>
    rw [rims, List.mem_map]
    constructor
    · rintro ⟨ps, hps, rfl⟩
      obtain ⟨env, rfl⟩ := (mem_sections_parts hscope fun _ => mem_rimsAll hscope).mp hps
      exact ⟨env, by rw [both_template, ofBoth_row]⟩
    · rintro ⟨env, rfl⟩
      exact ⟨_, (mem_sections_parts hscope fun _ => mem_rimsAll hscope).mpr ⟨env, rfl⟩,
        by rw [both_template, ofBoth_row]⟩
  | .join callee arguments =>
    rw [rims, List.mem_map]
    constructor
    · rintro ⟨ps, hps, rfl⟩
      obtain ⟨env, rfl⟩ := (mem_rimsAll hscope).mp hps
      exact ⟨env, by rw [both_join, ofBoth_joined]⟩
    · rintro ⟨env, rfl⟩
      exact ⟨_, (mem_rimsAll hscope).mpr ⟨env, rfl⟩, by rw [both_join, ofBoth_joined]⟩
  | .skipped k =>
    rw [rims, List.mem_map]
    constructor
    · rintro ⟨r, -, rfl⟩
      obtain ⟨t, rfl⟩ := exists_of_eq r
      exact ⟨.const t, rfl⟩
    · rintro ⟨env, rfl⟩
      exact ⟨_, mem_all _, rfl⟩

theorem mem_rimsAll (hscope : ∀ c ∈ scope, Text.isBlank c = false) {es : List ClassExpr}
    {ps : List (Rim × Rim)} :
    ps ∈ (rimsAll es).sections ↔ ∃ env, ps = (bothAll scope env es).map ofBoth := by
  match es with
  | [] =>
    rw [rimsAll, List.sections, List.mem_singleton]
    exact ⟨fun h => ⟨.const [], h⟩, fun ⟨_, h⟩ => h⟩
  | e :: es =>
    rw [rimsAll, mem_sections_cons]
    constructor
    · rintro ⟨p, hp, qs, hqs, rfl⟩
      obtain ⟨env, rfl⟩ := (mem_rims hscope).mp hp
      obtain ⟨env', rfl⟩ := (mem_rimsAll hscope).mp hqs
      exact ⟨.pair true env env', rfl⟩
    · rintro ⟨env, rfl⟩
      exact ⟨_, (mem_rims hscope).mpr ⟨env.first, rfl⟩, _,
        (mem_rimsAll hscope).mpr ⟨env.others, rfl⟩, rfl⟩

end

/-- There are as many words after as before. -/
def Kept (p : Text × Text) : Prop := (Text.words p.2).length = (Text.words p.1).length

/-- Blanks may have got lost, and with them words, but nothing else. -/
structure Worn (p : Text × Text) : Prop where
  frays : Frays (of p.1) (of p.2)
  words_le : (Text.words p.2).length ≤ (Text.words p.1).length

theorem wordCount_le {ps : List (Text × Text)} (h : ∀ p ∈ ps, Worn p) :
    Text.wordCount (ps.map Prod.snd) ≤ Text.wordCount (ps.map Prod.fst) ∧
    (Text.wordCount (ps.map Prod.snd) = Text.wordCount (ps.map Prod.fst) ↔ ∀ p ∈ ps, Kept p) := by
  induction ps with
  | nil => simp
  | cons p ps ih =>
    obtain ⟨hp, hps⟩ := List.forall_mem_cons.mp h
    obtain ⟨hle, heq⟩ := ih hps
    have hple := hp.words_le
    rw [List.forall_mem_cons, ← heq, Kept]
    simp only [List.map_cons, Text.wordCount]
    omega

theorem frays_ofBoth {ps : List (Text × Text)} (h : ∀ p ∈ ps, Worn p) :
    ∀ q ∈ ps.map ofBoth, Frays q.1 q.2 := by
  intro q hq
  obtain ⟨p, hp, rfl⟩ := List.mem_map.mp hq
  exact (h p hp).frays

/-- The texts of a row: words get lost in one of them or at a new seam. -/
theorem worn_row {ps : List (Text × Text)} (h : ∀ p ∈ ps, Worn p) :
    Worn ((ps.map Prod.fst).flatten, (ps.map Prod.snd).flatten) ∧
    (Kept ((ps.map Prod.fst).flatten, (ps.map Prod.snd).flatten) ↔
      (∀ p ∈ ps, Kept p) ∧
      seams ((ps.map ofBoth).map Prod.fst) = seams ((ps.map ofBoth).map Prod.snd)) := by
  obtain ⟨hrow, hseams⟩ := frays_row (frays_ofBoth h)
  have hboth := ofBoth_row ps
  have hfst := length_words_flatten (ps.map Prod.fst)
  have hsnd := length_words_flatten (ps.map Prod.snd)
  simp only [List.map_map, Function.comp_def, ofBoth] at hfst hsnd hseams hrow hboth ⊢
  obtain ⟨hle, heq⟩ := wordCount_le h
  obtain ⟨hof₁, hof₂⟩ := Prod.mk.inj hboth
  refine ⟨⟨?_, ?_⟩, ?_⟩
  · dsimp only
    rwa [hof₁, hof₂]
  · dsimp only
    omega
  · rw [← heq, Kept]
    dsimp only
    omega

/-- The texts of a join: words get lost in one of them only. -/
theorem worn_joined {ps : List (Text × Text)} (h : ∀ p ∈ ps, Worn p) :
    Worn (Text.joinFilled (ps.map Prod.fst), Text.joinFilled (ps.map Prod.snd)) ∧
    (Kept (Text.joinFilled (ps.map Prod.fst), Text.joinFilled (ps.map Prod.snd)) ↔
      ∀ p ∈ ps, Kept p) := by
  have hjoined := frays_joined (frays_ofBoth h)
  have hboth := ofBoth_joined ps
  have hfst := Text.length_words_joinFilled (ps.map Prod.fst)
  have hsnd := Text.length_words_joinFilled (ps.map Prod.snd)
  simp only [List.map_map, Function.comp_def, ofBoth] at hfst hsnd hjoined hboth ⊢
  obtain ⟨hle, heq⟩ := wordCount_le h
  obtain ⟨hof₁, hof₂⟩ := Prod.mk.inj hboth
  refine ⟨⟨?_, ?_⟩, ?_⟩
  · dsimp only
    rwa [hof₁, hof₂]
  · dsimp only
    omega
  · rw [← heq, Kept]
    dsimp only
    omega

theorem kept_segment (hscope : ∀ c ∈ scope, Text.isBlank c = false) (place : ClassList.Place)
    (t : Text) : Kept (t, ClassList.qualifySegment scope place t) :=
  ClassList.length_words_qualifySegment hscope place t

theorem worn_segment (hscope : ∀ c ∈ scope, Text.isBlank c = false) (place : ClassList.Place)
    (t : Text) : Worn (t, ClassList.qualifySegment scope place t) := by
  refine ⟨?_, Nat.le_of_eq (kept_segment hscope place t)⟩
  rw [of_qualifySegment hscope]
  exact frays_placed place (of t)

theorem mem_bothSegments {after : Bool} {ls : List ClassLiteral} {p : Text × Text}
    (h : p ∈ bothSegments scope after ls) :
    ∃ place t, p = (t, ClassList.qualifySegment scope place t) := by
  induction ls generalizing after with
  | nil => cases h
  | cons l ls ih =>
    rcases List.mem_cons.mp h with rfl | h
    · exact ⟨_, _, rfl⟩
    · exact ih h

theorem worn_bothParts (hscope : ∀ c ∈ scope, Text.isBlank c = false) {env : Env}
    {segments : List ClassLiteral} {interpolations : List ClassExpr}
    (h : ∀ p ∈ bothAll scope env interpolations, Worn p) :
    ∀ p ∈ bothParts scope env segments interpolations, Worn p := by
  intro p hp
  rcases mem_weave.mp hp with hp | hp
  · obtain ⟨place, t, rfl⟩ := mem_bothSegments hp
    exact worn_segment hscope place t
  · exact h p hp

theorem both_literal (env : Env) (l : ClassLiteral) :
    both scope env (.literal l) =
      (l.text, ClassList.qualifySegment scope ⟨false, false⟩ l.text) := by
  rw [both, eval, qualified, eval, ClassList.qualifySegment_alone]

theorem both_conditional (env : Env) (c a : ClassExpr) :
    both scope env (.conditional c a) =
      if env.branch [] then c.both scope env.first else a.both scope env.others := by
  cases hb : env.branch [] <;> simp [both, eval, qualified, hb]

mutual

theorem worn_both (hscope : ∀ c ∈ scope, Text.isBlank c = false) (env : Env) (e : ClassExpr) :
    Worn (e.both scope env) := by
  match e with
  | .literal l =>
    rw [both_literal]
    exact worn_segment hscope _ l.text
  | .conditional c a =>
    rw [both_conditional]
    split
    · exact worn_both hscope env.first c
    · exact worn_both hscope env.others a
  | .template segments interpolations =>
    rw [both_template]
    exact (worn_row (worn_bothParts hscope (worn_bothAll hscope env interpolations))).1
  | .join callee arguments =>
    rw [both_join]
    exact (worn_joined (worn_bothAll hscope env arguments)).1
  | .skipped k => exact ⟨.refl _, Nat.le_refl _⟩

theorem worn_bothAll (hscope : ∀ c ∈ scope, Text.isBlank c = false) (env : Env)
    (es : List ClassExpr) : ∀ p ∈ bothAll scope env es, Worn p := by
  match es with
  | [] => exact fun p hp => by cases hp
  | e :: es =>
    rw [bothAll, List.forall_mem_cons]
    exact ⟨worn_both hscope env.first e, worn_bothAll hscope env.others es⟩

end

/-- The parts of a template: words get lost in an interpolation or at a new seam. -/
theorem kept_template_iff (hscope : ∀ c ∈ scope, Text.isBlank c = false) (env : Env)
    (segments : List ClassLiteral) (interpolations : List ClassExpr) :
    Kept (both scope env (.template segments interpolations)) ↔
      (∀ p ∈ bothAll scope env interpolations, Kept p) ∧
      seams (((bothParts scope env segments interpolations).map ofBoth).map Prod.fst) =
        seams (((bothParts scope env segments interpolations).map ofBoth).map Prod.snd) := by
  have hworn : ∀ p ∈ bothParts scope env segments interpolations, Worn p :=
    worn_bothParts hscope (worn_bothAll hscope env interpolations)
  rw [both_template, (worn_row hworn).2]
  refine and_congr_left fun _ => ?_
  constructor
  · exact fun h p hp => h p (mem_weave.mpr (Or.inr hp))
  · intro h p hp
    rcases mem_weave.mp hp with hp | hp
    · obtain ⟨place, t, rfl⟩ := mem_bothSegments hp
      exact kept_segment hscope place t
    · exact h p hp

mutual

theorem kept_iff_isSeamless (hscope : ∀ c ∈ scope, Text.isBlank c = false) (e : ClassExpr) :
    (∀ env, Kept (e.both scope env)) ↔ e.isSeamless = true := by
  match e with
  | .literal l =>
    refine iff_of_true (fun env => ?_) rfl
    rw [both_literal]
    exact kept_segment hscope _ l.text
  | .conditional c a =>
    rw [isSeamless, Bool.and_eq_true, ← kept_iff_isSeamless hscope c,
      ← kept_iff_isSeamless hscope a]
    constructor
    · intro h
      refine ⟨fun env => ?_, fun env => ?_⟩
      · simpa [both_conditional] using h (.pair true env env)
      · simpa [both_conditional] using h (.pair false env env)
    · rintro ⟨hc, ha⟩ env
      rw [both_conditional]
      split
      · exact hc env.first
      · exact ha env.others
  | .template segments interpolations =>
    rw [isSeamless, Bool.and_eq_true, ← keptAll_iff_areSeamless hscope interpolations,
      List.all_eq_true]
    constructor
    · intro h
      refine ⟨fun env => ((kept_template_iff hscope env _ _).mp (h env)).1, fun ps hps => ?_⟩
      obtain ⟨env, rfl⟩ := (mem_sections_parts hscope fun _ => mem_rimsAll hscope).mp hps
      exact beq_iff_eq.mpr ((kept_template_iff hscope env _ _).mp (h env)).2
    · rintro ⟨hparts, hseams⟩ env
      refine (kept_template_iff hscope env _ _).mpr ⟨hparts env, ?_⟩
      exact beq_iff_eq.mp
        (hseams _ ((mem_sections_parts hscope fun _ => mem_rimsAll hscope).mpr ⟨env, rfl⟩))
  | .join callee arguments =>
    rw [isSeamless, ← keptAll_iff_areSeamless hscope arguments]
    refine forall_congr' fun env => ?_
    rw [both_join, (worn_joined (worn_bothAll hscope env arguments)).2]
  | .skipped k => exact iff_of_true (fun _ => rfl) rfl

theorem keptAll_iff_areSeamless (hscope : ∀ c ∈ scope, Text.isBlank c = false)
    (es : List ClassExpr) :
    (∀ env, ∀ p ∈ bothAll scope env es, Kept p) ↔ areSeamless es = true := by
  match es with
  | [] => exact iff_of_true (fun _ p hp => by cases hp) rfl
  | e :: es =>
    rw [areSeamless, Bool.and_eq_true, ← kept_iff_isSeamless hscope e,
      ← keptAll_iff_areSeamless hscope es]
    simp only [bothAll, List.forall_mem_cons]
    constructor
    · intro h
      exact ⟨fun env => (h (.pair true env env)).1, fun env => (h (.pair true env env)).2⟩
    · rintro ⟨he, hes⟩ env
      exact ⟨he env.first, hes env.others⟩

end

/-- A walk never makes more class names out of fewer, and it never makes one out of two exactly if
the rims allow no new seam. -/
theorem names_stay_apart_iff_isSeamless {s : Settings} (h : s.fault? = none) {e : ClassExpr}
    (hd : e.literals.Pairwise (·.start ≠ ·.start)) :
    (∀ env, (Text.words ((Ledger.qualify s.scope e Ledger.empty).1.eval env)).length ≤
      (Text.words (e.eval env)).length) ∧
    ((∀ env, (Text.words ((Ledger.qualify s.scope e Ledger.empty).1.eval env)).length =
      (Text.words (e.eval env)).length) ↔ e.isSeamless = true) := by
  have hscope := Settings.scope_solid h
  have hwalk : (Ledger.qualify s.scope e Ledger.empty).1 = e.qualified s.scope :=
    Ledger.qualify_fst (fun _ _ => rfl) hd
  rw [hwalk]
  exact ⟨fun env => (worn_both hscope env e).words_le, kept_iff_isSeamless hscope e⟩

/-- A template with a choice that brings its own space: `btn`, and ` active` or nothing. -/
def ownSpace : ClassExpr :=
  .template [⟨.segment, 17, 20, "btn".toList, 1⟩, ⟨.segment, 42, 42, [], 1⟩]
    [.conditional (.literal ⟨.string '"', 27, 36, " active".toList, 1⟩)
      (.literal ⟨.string '"', 39, 41, [], 1⟩)]

theorem own_space_gets_lost :
    Settings.defaults.fault? = none ∧ ownSpace.literals.Pairwise (·.start ≠ ·.start) ∧
    (∀ env, (Text.words ((Ledger.qualify Settings.defaults.scope ownSpace Ledger.empty).1.eval
      env)).length ≤ (Text.words (ownSpace.eval env)).length) ∧
    ¬ ∀ env, (Text.words ((Ledger.qualify Settings.defaults.scope ownSpace Ledger.empty).1.eval
      env)).length = (Text.words (ownSpace.eval env)).length := by
  have hvalid : Settings.defaults.fault? = none := by decide +kernel
  have hdistinct : ownSpace.literals.Pairwise (·.start ≠ ·.start) := by decide +kernel
  have hseams : ownSpace.isSeamless = false := by decide +kernel
  obtain ⟨hle, hiff⟩ := names_stay_apart_iff_isSeamless hvalid hdistinct
  refine ⟨hvalid, hdistinct, hle, fun hsame => ?_⟩
  rw [hiff.mp hsame] at hseams
  cases hseams

example : isSeamless
    (.template [⟨.segment, 17, 21, "btn ".toList, 1⟩, ⟨.segment, 42, 42, [], 1⟩]
      [.conditional (.literal ⟨.string '"', 28, 36, "active".toList, 1⟩)
        (.literal ⟨.string '"', 39, 41, [], 1⟩)]) = true := by
  decide +kernel

end ClassExpr
end ClassScope
