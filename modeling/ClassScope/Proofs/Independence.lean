import Mathlib.Data.List.Forall2
import ClassScope.Proofs.ClassList
import ClassScope.Proofs.Ledger
import ClassScope.Proofs.Tree
import ClassScope.Transform

/-! What a transform touches does not depend on the scope. Whether a literal changes is decided by
its own text and its place in a template, never by the text that is put in front of its names; so
two scopes lead to the same entries at the same places, with other texts in them. -/
namespace ClassScope

def Edit.range (e : Edit) : Nat × Nat := (e.start, e.stop)

def Event.origin (e : Event) : Text × Nat := (e.before, e.line)

namespace Rewrite

/-- Two rewrites of the same literal, of which both count or none does. -/
structure Alike (r q : Rewrite) : Prop where
  literal : r.literal = q.literal
  counts : r.Counts ↔ q.Counts

end Rewrite

open Rewrite

variable {p q : Text}

theorem alike_segment (hp : ∀ c ∈ p, Text.isBlank c = false)
    (hq : ∀ c ∈ q, Text.isBlank c = false) (place : ClassList.Place) (l : ClassLiteral) :
    Alike ⟨l, ClassList.qualifySegment p place l.text⟩
      ⟨l, ClassList.qualifySegment q place l.text⟩ := by
  refine ⟨rfl, and_congr_right fun _ => not_congr ?_⟩
  -- On neither side does the condition mention the scope.
  rw [eq_comm, ClassList.qualifySegment_eq_self_iff hp,
    ← ClassList.qualifySegment_eq_self_iff hq, eq_comm]

theorem alike_segmentRewrites (hp : ∀ c ∈ p, Text.isBlank c = false)
    (hq : ∀ c ∈ q, Text.isBlank c = false) (after : Bool) (ls : List ClassLiteral) :
    List.Forall₂ Alike (segmentRewrites p after ls) (segmentRewrites q after ls) := by
  induction ls generalizing after with
  | nil => exact .nil
  | cons l ls ih => exact .cons (alike_segment hp hq _ l) (ih true)

theorem alike_literal (hp : ∀ c ∈ p, Text.isBlank c = false)
    (hq : ∀ c ∈ q, Text.isBlank c = false) (l : ClassLiteral) :
    List.Forall₂ Alike [⟨l, ClassList.qualify p l.text⟩] [⟨l, ClassList.qualify q l.text⟩] := by
  have halike := alike_segment hp hq ⟨false, false⟩ l
  simp only [ClassList.qualifySegment_alone] at halike
  exact .cons halike .nil

namespace ClassExpr

mutual

theorem alike_rewrites (hp : ∀ c ∈ p, Text.isBlank c = false)
    (hq : ∀ c ∈ q, Text.isBlank c = false) (e : ClassExpr) :
    List.Forall₂ Alike (e.rewrites p) (e.rewrites q) := by
  match e with
  | .literal l =>
    simp only [rewrites]
    exact alike_literal hp hq l
  | .conditional c a =>
    simp only [rewrites]
    exact List.rel_append (alike_rewrites hp hq c) (alike_rewrites hp hq a)
  | .template segments interpolations =>
    simp only [rewrites]
    exact List.rel_append (alike_segmentRewrites hp hq false segments)
      (alike_rewritesAll hp hq interpolations)
  | .join callee arguments =>
    simp only [rewrites]
    exact alike_rewritesAll hp hq arguments
  | .skipped k =>
    simp only [rewrites]
    exact .nil

theorem alike_rewritesAll (hp : ∀ c ∈ p, Text.isBlank c = false)
    (hq : ∀ c ∈ q, Text.isBlank c = false) (es : List ClassExpr) :
    List.Forall₂ Alike (rewritesAll p es) (rewritesAll q es) := by
  match es with
  | [] => exact .nil
  | e :: es =>
    simp only [rewritesAll]
    exact List.rel_append (alike_rewrites hp hq e) (alike_rewritesAll hp hq es)

end

end ClassExpr

theorem ClassValue.alike_rewrites (hp : ∀ c ∈ p, Text.isBlank c = false)
    (hq : ∀ c ∈ q, Text.isBlank c = false) (v : ClassValue) :
    List.Forall₂ Alike (v.rewrites p) (v.rewrites q) := by
  cases v with
  | literal l => exact alike_literal hp hq l
  | slot e => exact e.alike_rewrites hp hq

namespace Ledger

/-- Two ledgers with the same entries at the same places, but for the new texts. -/
structure Alike (a b : Ledger) : Prop where
  ranges : a.edits.map Edit.range = b.edits.map Edit.range
  origins : a.events.map Event.origin = b.events.map Event.origin
  skipped : a.skipped = b.skipped

theorem insert_map_range {e f : Edit} {es fs : List Edit} (h : e.range = f.range)
    (hs : es.map Edit.range = fs.map Edit.range) :
    (insert e es).map Edit.range = (insert f fs).map Edit.range := by
  have hstart : ∀ {e f : Edit}, e.range = f.range → e.start = f.start := congrArg Prod.fst
  induction es generalizing fs with
  | nil =>
    obtain rfl : fs = [] := by simpa using hs.symm
    simp [insert, h]
  | cons e' es ih =>
    obtain ⟨f', fs, rfl⟩ : ∃ f' fs', fs = f' :: fs' := by
      cases fs with
      | nil => simp at hs
      | cons f' fs => exact ⟨f', fs, rfl⟩
    simp only [List.map_cons, List.cons.injEq] at hs
    rw [insert, insert, hstart h, hstart hs.1]
    split
    · simp [h, hs.1, hs.2]
    · simp [hs.1, ih hs.2]

theorem Alike.isTaken {a b : Ledger} (h : a.Alike b) (n : Nat) : a.isTaken n = b.isTaken n := by
  have hany : ∀ es : List Edit, es.any (·.start == n) = (es.map Edit.range).any (·.1 == n) := by
    intro es
    simp [List.any_map, Function.comp_def, Edit.range]
  rw [Ledger.isTaken, Ledger.isTaken, hany, hany, h.ranges]

/-- One entry: ledgers that are alike stay alike. -/
theorem Alike.write {a b : Ledger} {r s : Rewrite} (h : a.Alike b) (hr : Rewrite.Alike r s) :
    (Ledger.write r.literal r.updated a).2.Alike (Ledger.write s.literal s.updated b).2 := by
  have htaken : a.isTaken r.literal.start = b.isTaken s.literal.start := by
    rw [h.isTaken, hr.literal]
  by_cases hc : r.Counts
  · have hsc := hr.counts.mp hc
    cases hfree : a.isTaken r.literal.start with
    | true => rwa [write_of_taken hfree, write_of_taken (htaken ▸ hfree)]
    | false =>
      rw [write_of_counts hc hfree, write_of_counts hsc (htaken ▸ hfree)]
      have hrange : r.edit.range = s.edit.range := by simp [Edit.range, edit, hr.literal]
      have horigin : r.event.origin = s.event.origin := by
        simp [Event.origin, event, hr.literal]
      exact ⟨insert_map_range hrange h.ranges, by simp [h.origins, horigin], h.skipped⟩
  · have hsc : ¬ s.Counts := fun hs => hc (hr.counts.mpr hs)
    rwa [write_of_not_counts hc, write_of_not_counts hsc]

/-- A whole walk: from ledgers that are alike, rewrites that are alike lead to such ledgers. -/
theorem Alike.enter {a b : Ledger} {rs ss : List Rewrite} (h : a.Alike b)
    (hrs : List.Forall₂ Rewrite.Alike rs ss) : (a.enter rs).Alike (b.enter ss) := by
  induction hrs generalizing a b with
  | nil => exact h
  | cons hr _ ih => exact ih (h.write hr)

theorem Alike.leave {a b : Ledger} (h : a.Alike b) (ks : List Skipped) :
    (a.leave ks).Alike (b.leave ks) :=
  ⟨h.ranges, h.origins, by rw [skipped_leave, skipped_leave, h.skipped]⟩

theorem alike_ofValues (hp : ∀ c ∈ p, Text.isBlank c = false)
    (hq : ∀ c ∈ q, Text.isBlank c = false) (values : List ClassValue) :
    (ofValues p values).Alike (ofValues q values) := by
  have hrewrites : List.Forall₂ Rewrite.Alike (values.flatMap (·.rewrites p))
      (values.flatMap (·.rewrites q)) := by
    induction values with
    | nil => exact .nil
    | cons v vs ih => exact List.rel_append (v.alike_rewrites hp hq) ih
  rw [ofValues_eq, ofValues_eq]
  exact (Alike.enter ⟨rfl, rfl, rfl⟩ hrewrites).leave _

end Ledger

namespace Transform

/-- With another scope a transform edits the same bytes, reports the same literals on the same lines
and leaves the same alone. -/
theorem entries_independent_of_scope (source : Source) (nodes : List Node) {settings : Settings}
    {scope : Text} (h : settings.fault? = none)
    (h' : Settings.fault? { settings with scope := scope } = none) :
    let a := ledger source settings nodes
    let b := ledger source { settings with scope := scope } nodes
    a.edits.map (fun e => (e.start, e.stop)) = b.edits.map (fun e => (e.start, e.stop)) ∧
    a.events.map (fun e => (e.before, e.line)) = b.events.map (fun e => (e.before, e.line)) ∧
    a.skipped = b.skipped := by
  intro a b
  have hp : ∀ c ∈ settings.scope, Text.isBlank c = false := Settings.scope_solid h
  have hq : ∀ c ∈ scope, Text.isBlank c = false := Settings.scope_solid h'
  have halike : a.Alike b := Ledger.alike_ofValues hp hq _
  exact ⟨halike.ranges, halike.origins, halike.skipped⟩

def spacedChoice : Source where
  text := "<i className=\x7b`  $\x7bon ? 'app-a' : ' '\x7d $\x7bx\x7d\t`\x7d />;".toList

theorem spacedChoice_entries_independent_of_scope :
    ∃ nodes, Markup.parse .tsx spacedChoice.body = .ok nodes ∧
      Settings.defaults.fault? = none ∧
      Settings.fault? { Settings.defaults with scope := "ui".toList } = none ∧
      (ledger spacedChoice Settings.defaults nodes).edits.map Edit.start = [15, 24, 34, 43] ∧
      let a := ledger spacedChoice Settings.defaults nodes
      let b := ledger spacedChoice { Settings.defaults with scope := "ui".toList } nodes
      a.edits.map (fun e => (e.start, e.stop)) = b.edits.map (fun e => (e.start, e.stop)) ∧
      a.events.map (fun e => (e.before, e.line)) = b.events.map (fun e => (e.before, e.line)) ∧
      a.skipped = b.skipped := by
  have hread : (Markup.parse .tsx spacedChoice.body).toOption.any (fun nodes => decide
      ((ledger spacedChoice Settings.defaults nodes).edits.map Edit.start = [15, 24, 34, 43])) =
      true := by decide +kernel
  have hdefault : Settings.defaults.fault? = none := by decide +kernel
  have hother : Settings.fault? { Settings.defaults with scope := "ui".toList } = none := by
    decide +kernel
  obtain ⟨nodes, hparse, hstarts⟩ := exists_ok_of_any hread
  exact ⟨nodes, hparse, hdefault, hother, of_decide_eq_true hstarts,
    entries_independent_of_scope spacedChoice nodes hdefault hother⟩

end Transform
end ClassScope
