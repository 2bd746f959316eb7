import Mathlib.Data.List.Perm.Basic
import ClassScope.Proofs.Composition

/-! Who gets a place in the ledger. Of the rewrites that start at one byte the first that counts is
entered, with its edit, its event and its new text; the others find the place taken and leave
everything as it is. -/
namespace ClassScope

namespace Rewrite

/-- Does the rewrite come first? It counts, and none of the earlier ones at its place does. -/
def Leads (earlier : List Rewrite) (r : Rewrite) : Prop :=
  r.Counts ∧ ∀ q ∈ earlier, q.Counts → q.literal.start ≠ r.literal.start

instance (earlier : List Rewrite) (r : Rewrite) : Decidable (r.Leads earlier) :=
  inferInstanceAs (Decidable (_ ∧ _))

/-- Those of a number of rewrites that come first, the earlier ones counted in. -/
def leaders (earlier : List Rewrite) : List Rewrite → List Rewrite
  | [] => []
  | r :: rs =>
    if r.Leads earlier then r :: leaders (earlier ++ [r]) rs else leaders (earlier ++ [r]) rs

/-- The literal after its turn. -/
def settled (earlier : List Rewrite) (r : Rewrite) : ClassLiteral :=
  if r.Leads earlier then r.result else r.literal

def settledAll (earlier : List Rewrite) : List Rewrite → List ClassLiteral
  | [] => []
  | r :: rs => r.settled earlier :: settledAll (earlier ++ [r]) rs

variable {earlier rs : List Rewrite} {r : Rewrite}

theorem leaders_append (earlier rs qs : List Rewrite) :
    leaders earlier (rs ++ qs) = leaders earlier rs ++ leaders (earlier ++ rs) qs := by
  induction rs generalizing earlier with
  | nil => simp [leaders]
  | cons r rs ih =>
    simp only [List.cons_append, leaders, ih, List.append_assoc]
    split <;> rfl

theorem settledAll_append (earlier rs qs : List Rewrite) :
    settledAll earlier (rs ++ qs) = settledAll earlier rs ++ settledAll (earlier ++ rs) qs := by
  induction rs generalizing earlier with
  | nil => simp [settledAll]
  | cons r rs ih => simp [settledAll, ih]

@[simp] theorem length_settledAll (earlier rs : List Rewrite) :
    (settledAll earlier rs).length = rs.length := by
  induction rs generalizing earlier with
  | nil => rfl
  | cons r rs ih => simp [settledAll, ih]

theorem mem_leaders :
    r ∈ leaders earlier rs ↔ ∃ pre post, rs = pre ++ r :: post ∧ r.Leads (earlier ++ pre) := by
  constructor
  · intro h
    induction rs generalizing earlier with
    | nil => cases h
    | cons q rs ih =>
      have hlater : r ∈ leaders (earlier ++ [q]) rs →
          ∃ pre post, q :: rs = pre ++ r :: post ∧ r.Leads (earlier ++ pre) := by
        intro h
        obtain ⟨pre, post, rfl, hleads⟩ := ih h
        exact ⟨q :: pre, post, rfl, by simpa using hleads⟩
      rw [leaders] at h
      split at h
      · rename_i hq
        rcases List.mem_cons.mp h with rfl | h
        · exact ⟨[], rs, rfl, by simpa using hq⟩
        · exact hlater h
      · exact hlater h
  · rintro ⟨pre, post, rfl, hleads⟩
    rw [leaders_append, leaders, if_pos hleads]
    exact List.mem_append_right _ List.mem_cons_self

theorem settledAll_getElem? (pre : List Rewrite) (r : Rewrite) (post : List Rewrite) :
    (settledAll [] (pre ++ r :: post))[pre.length]? = some (r.settled pre) := by
  rw [settledAll_append, List.getElem?_append_right (by simp)]
  simp [settledAll]

theorem leaders_of_distinct
    (h : (earlier ++ rs).Pairwise (·.literal.start ≠ ·.literal.start)) :
    leaders earlier rs = rs.filter (·.Counts) := by
  induction rs generalizing earlier with
  | nil => rfl
  | cons r rs ih =>
    have hrest : leaders (earlier ++ [r]) rs = rs.filter (·.Counts) := ih (by simpa using h)
    have hfree : ∀ q ∈ earlier, q.Counts → q.literal.start ≠ r.literal.start :=
      fun q hq _ => (List.pairwise_append.mp h).2.2 q hq r List.mem_cons_self
    by_cases hc : r.Counts
    · rw [leaders, if_pos ⟨hc, hfree⟩, hrest, List.filter_cons_of_pos (by simpa using hc)]
    · rw [leaders, if_neg (fun hleads => hc hleads.1), hrest,
        List.filter_cons_of_neg (by simpa using hc)]

end Rewrite

namespace Ledger
open Rewrite

variable {b : Ledger} {earlier : List Rewrite}

theorem insert_perm (e : Edit) (es : List Edit) : (insert e es).Perm (e :: es) := by
  induction es with
  | nil => exact .refl _
  | cons f fs ih =>
    rw [insert]
    split
    · exact .refl _
    · exact (ih.cons f).trans (.swap e f fs)

/-- The places that are taken are those of the earlier rewrites that count. -/
def Tracks (b : Ledger) (earlier : List Rewrite) : Prop :=
  ∀ n, b.isTaken n = true ↔ ∃ q ∈ earlier, q.Counts ∧ q.literal.start = n

theorem tracks_empty : empty.Tracks [] := by
  intro n
  simp [isTaken, empty]

namespace Tracks

theorem leads_iff (h : b.Tracks earlier) (r : Rewrite) :
    r.Leads earlier ↔ r.Counts ∧ b.isTaken r.literal.start = false := by
  rw [← Bool.not_eq_true, h]
  simp [Leads]

/-- One turn: a rewrite that comes first is entered, any other one changes nothing. -/
theorem write_eq (h : b.Tracks earlier) (r : Rewrite) :
    write r.literal r.updated b = (r.settled earlier,
      if r.Leads earlier then
        { b with edits := insert r.edit b.edits, events := b.events ++ [r.event] }
      else b) := by
  rw [settled]
  split
  · rename_i hleads
    obtain ⟨hc, hfree⟩ := (h.leads_iff r).mp hleads
    exact write_of_counts hc hfree
  · rename_i hleads
    by_cases hc : r.Counts
    · have htaken : b.isTaken r.literal.start = true := by
        by_contra hfree
        exact hleads ((h.leads_iff r).mpr ⟨hc, (Bool.not_eq_true _).mp hfree⟩)
      exact write_of_taken htaken
    · exact write_of_not_counts hc

theorem write (h : b.Tracks earlier) (r : Rewrite) :
    (Ledger.write r.literal r.updated b).2.Tracks (earlier ++ [r]) := by
  intro n
  have htaken : (Ledger.write r.literal r.updated b).2.isTaken n = true ↔
      b.isTaken n = true ∨ r.Leads earlier ∧ r.literal.start = n := by
    rw [h.leads_iff, isTaken_iff, isTaken_iff]
    simp only [mem_edits_write, or_and_right, exists_or, and_assoc]
    refine or_congr_right ⟨?_, ?_⟩
    · rintro ⟨e, hc, hfree, rfl, hstart⟩
      exact ⟨hc, hfree, hstart⟩
    · rintro ⟨hc, hfree, hstart⟩
      exact ⟨r.edit, hc, hfree, rfl, hstart⟩
  rw [htaken, h n]
  simp only [List.mem_append, List.mem_singleton, or_and_right, exists_or, exists_eq_left]
  constructor
  · exact Or.imp_right fun ⟨hleads, hstart⟩ => ⟨hleads.1, hstart⟩
  · rintro (hq | ⟨hc, hstart⟩)
    · exact .inl hq
    · by_cases hleads : r.Leads earlier
      · exact .inr ⟨hleads, hstart⟩
      · -- Another one that counts was there before.
        have hothers : ∃ q ∈ earlier, q.Counts ∧ q.literal.start = r.literal.start := by
          by_contra hnone
          exact hleads ⟨hc, fun q hq hqc heq => hnone ⟨q, hq, hqc, heq⟩⟩
        exact .inl (hstart ▸ hothers)

theorem leave (h : b.Tracks earlier) (ks : List Skipped) : (b.leave ks).Tracks earlier := h

theorem enter (h : b.Tracks earlier) (rs : List Rewrite) :
    (b.enter rs).Tracks (earlier ++ rs) := by
  induction rs generalizing b earlier with
  | nil => simpa using h
  | cons r rs ih => simpa using ih (h.write r)

theorem events_enter (h : b.Tracks earlier) (rs : List Rewrite) :
    (b.enter rs).events = b.events ++ (leaders earlier rs).map Rewrite.event := by
  induction rs generalizing b earlier with
  | nil => simp [leaders]
  | cons r rs ih =>
    rw [enter_cons, ih (h.write r), h.write_eq, leaders]
    split <;> simp

theorem edits_enter_perm (h : b.Tracks earlier) (rs : List Rewrite) :
    (b.enter rs).edits.Perm (b.edits ++ (leaders earlier rs).map Rewrite.edit) := by
  induction rs generalizing b earlier with
  | nil => simp [leaders]
  | cons r rs ih =>
    rw [enter_cons]
    refine (ih (h.write r)).trans ?_
    rw [h.write_eq, leaders]
    split
    · rw [List.map_cons]
      exact ((insert_perm _ _).append_right _).trans List.perm_middle.symm
    · exact .refl _

theorem qualifySegments_fst (h : b.Tracks earlier) (scope : Text) (after : Bool)
    (ls : List ClassLiteral) :
    (qualifySegments scope after ls b).1 =
      settledAll earlier (segmentRewrites scope after ls) := by
  induction ls generalizing after b earlier with
  | nil => rfl
  | cons l ls ih =>
    let r : Rewrite := ⟨l, ClassList.qualifySegment scope ⟨after, !ls.isEmpty⟩ l.text⟩
    calc (qualifySegments scope after (l :: ls) b).1
        = (Ledger.write r.literal r.updated b).1 ::
            (qualifySegments scope true ls (Ledger.write r.literal r.updated b).2).1 := rfl
      _ = _ := by
        rw [ih (h.write r), h.write_eq]
        rfl

mutual

/-- The literals that a walk leaves behind, each as it was settled at its turn. -/
theorem literals_qualify {b : Ledger} {earlier : List Rewrite} (h : b.Tracks earlier)
    (scope : Text) (e : ClassExpr) :
    (qualify scope e b).1.literals = settledAll earlier (e.rewrites scope) := by
  match e with
  | .literal l =>
    let r : Rewrite := ⟨l, ClassList.qualify scope l.text⟩
    calc (qualify scope (.literal l) b).1.literals
        = [(Ledger.write r.literal r.updated b).1] := by
          rw [← ClassExpr.literals]
          rfl
      _ = _ := by
        rw [h.write_eq, ClassExpr.rewrites]
        rfl
  | .conditional c a =>
    have hrest : (qualify scope c b).2.Tracks (earlier ++ c.rewrites scope) := by
      rw [qualify_snd]
      exact (h.enter _).leave _
    calc (qualify scope (.conditional c a) b).1.literals
        = (qualify scope c b).1.literals ++
            (qualify scope a (qualify scope c b).2).1.literals := by
          rw [← ClassExpr.literals]
          rfl
      _ = _ := by
        rw [literals_qualify h, literals_qualify hrest, ClassExpr.rewrites, settledAll_append]
  | .template segments interpolations =>
    have hrest : (qualifySegments scope false segments b).2.Tracks
        (earlier ++ segmentRewrites scope false segments) := by
      rw [qualifySegments_snd]
      exact h.enter _
    calc (qualify scope (.template segments interpolations) b).1.literals
        = (qualifySegments scope false segments b).1 ++ ClassExpr.literalsAll
            (qualifyAll scope interpolations (qualifySegments scope false segments b).2).1 := by
          rw [← ClassExpr.literals]
          rfl
      _ = _ := by
        rw [h.qualifySegments_fst, literals_qualifyAll hrest, ClassExpr.rewrites,
          settledAll_append]
  | .join callee arguments =>
    calc (qualify scope (.join callee arguments) b).1.literals
        = ClassExpr.literalsAll (qualifyAll scope arguments b).1 := by
          rw [← ClassExpr.literals]
          rfl
      _ = _ := by rw [literals_qualifyAll h, ClassExpr.rewrites]
  | .skipped k =>
    rw [ClassExpr.rewrites]
    rfl

theorem literals_qualifyAll {b : Ledger} {earlier : List Rewrite} (h : b.Tracks earlier)
    (scope : Text) (es : List ClassExpr) :
    ClassExpr.literalsAll (qualifyAll scope es b).1 =
      settledAll earlier (ClassExpr.rewritesAll scope es) := by
  match es with
  | [] => rfl
  | e :: es =>
    have hrest : (qualify scope e b).2.Tracks (earlier ++ e.rewrites scope) := by
      rw [qualify_snd]
      exact (h.enter _).leave _
    calc ClassExpr.literalsAll (qualifyAll scope (e :: es) b).1
        = (qualify scope e b).1.literals ++
            ClassExpr.literalsAll (qualifyAll scope es (qualify scope e b).2).1 := by
          rw [← ClassExpr.literalsAll]
          rfl
      _ = _ := by
        rw [literals_qualify h, literals_qualifyAll hrest, ClassExpr.rewritesAll,
          settledAll_append]

end

theorem literals_qualifyValue (h : b.Tracks earlier) (scope : Text) (v : ClassValue) :
    (qualifyValue scope v b).1.literals = settledAll earlier (v.rewrites scope) := by
  cases v with
  | literal l =>
    let r : Rewrite := ⟨l, ClassList.qualify scope l.text⟩
    calc (qualifyValue scope (.literal l) b).1.literals
        = [(Ledger.write r.literal r.updated b).1] := rfl
      _ = _ := by
        rw [h.write_eq]
        rfl
  | slot e => exact h.literals_qualify scope e

end Tracks

/-- A walk over a number of values, with one ledger for all of them. -/
def qualifyValues (scope : Text) : List ClassValue → Ledger → List ClassValue × Ledger
  | [], b => ([], b)
  | v :: vs, b =>
    let (v, b) := qualifyValue scope v b
    let (vs, b) := qualifyValues scope vs b
    (v :: vs, b)

theorem qualifyValues_snd (scope : Text) (values : List ClassValue) (b : Ledger) :
    (qualifyValues scope values b).2 = values.foldl (fun b v => (qualifyValue scope v b).2) b := by
  induction values generalizing b with
  | nil => rfl
  | cons v vs ih => exact ih _

theorem Tracks.literals_qualifyValues (h : b.Tracks earlier) (scope : Text)
    (values : List ClassValue) :
    (qualifyValues scope values b).1.flatMap ClassValue.literals =
      settledAll earlier (values.flatMap (·.rewrites scope)) := by
  induction values generalizing b earlier with
  | nil => rfl
  | cons v vs ih =>
    have hrest : (qualifyValue scope v b).2.Tracks (earlier ++ v.rewrites scope) := by
      rw [qualifyValue_snd]
      exact (h.enter _).leave _
    calc (qualifyValues scope (v :: vs) b).1.flatMap ClassValue.literals
        = (qualifyValue scope v b).1.literals ++
            (qualifyValues scope vs (qualifyValue scope v b).2).1.flatMap ClassValue.literals := rfl
      _ = _ := by
        rw [h.literals_qualifyValue, ih hrest, List.flatMap_cons, settledAll_append]

theorem map_literal_rewrites (scope : Text) (values : List ClassValue) :
    (values.flatMap (·.rewrites scope)).map Rewrite.literal =
      values.flatMap ClassValue.literals := by
  rw [List.map_flatMap]
  refine congrArg (values.flatMap ·) (funext fun v => ?_)
  cases v with
  | literal l => rfl
  | slot e => exact ClassExpr.map_literal_rewrites scope e

theorem edits_ofValues_ordered (scope : Text) (values : List ClassValue) :
    (ofValues scope values).edits.Pairwise (·.start < ·.start) := by
  rw [ofValues_eq]
  exact edits_enter_pairwise _ .nil

theorem edits_ofValues_perm (scope : Text) (values : List ClassValue) :
    (ofValues scope values).edits.Perm
      ((leaders [] (values.flatMap (·.rewrites scope))).map Rewrite.edit) := by
  rw [ofValues_eq]
  exact tracks_empty.edits_enter_perm _

/-- Where all literals start at different places, the order of the values does not matter. -/
theorem edits_ofValues_of_perm {scope : Text} {values others : List ClassValue}
    (hd : (values.flatMap ClassValue.literals).Pairwise (·.start ≠ ·.start))
    (hperm : others.Perm values) :
    (ofValues scope others).edits = (ofValues scope values).edits := by
  have hasked : (others.flatMap (·.rewrites scope)).Perm (values.flatMap (·.rewrites scope)) :=
    hperm.flatMap_right _
  have hdist : (values.flatMap (·.rewrites scope)).Pairwise
      (·.literal.start ≠ ·.literal.start) := by
    rw [← map_literal_rewrites scope] at hd
    exact (List.pairwise_map (f := Rewrite.literal)).mp hd
  have hdist' := hasked.symm.pairwise hdist Ne.symm
  have hentered : ((leaders [] (others.flatMap (·.rewrites scope))).map Rewrite.edit).Perm
      ((leaders [] (values.flatMap (·.rewrites scope))).map Rewrite.edit) := by
    rw [leaders_of_distinct (by simpa using hdist'), leaders_of_distinct (by simpa using hdist)]
    exact (hasked.filter _).map _
  have hedits := (edits_ofValues_perm scope others).trans
    (hentered.trans (edits_ofValues_perm scope values).symm)
  refine hedits.eq_of_pairwise (fun e f _ _ hlt hgt => ?_) (edits_ofValues_ordered scope others)
    (edits_ofValues_ordered scope values)
  exact absurd hlt (Nat.lt_asymm hgt)

/-- What the ledger and the literals are after a walk over a number of values. The edits stand in
the order of their places, and the events belong to them one to one: both are those of the rewrites
that come first at their places, which have got their new text. Any other literal has left the books
as they were and kept its text. All that is not looked into is noted in order, and the edits do not
depend on the order of the values if no two literals start at the same byte. -/
theorem first_that_counts_is_entered (scope : Text) (values : List ClassValue) :
    let after := qualifyValues scope values empty
    let asked := values.flatMap (·.rewrites scope)
    let entered := leaders [] asked
    after.2 = ofValues scope values ∧
    after.2 = (empty.enter asked).leave (values.flatMap (·.skips)) ∧
    after.2.edits.Pairwise (·.start < ·.start) ∧
    after.2.events.length = after.2.edits.length ∧
    after.2.events = entered.map Rewrite.event ∧
    after.2.edits.Perm (entered.map Rewrite.edit) ∧
    entered.Pairwise (·.literal.start ≠ ·.literal.start) ∧
    (∀ r, r ∈ entered ↔ ∃ pre post, asked = pre ++ r :: post ∧ r.Leads pre) ∧
    (∀ pre r post, asked = pre ++ r :: post →
      (after.1.flatMap ClassValue.literals)[pre.length]? =
        some (if r.Leads pre then r.result else r.literal) ∧
      (¬ r.Leads pre → empty.enter (pre ++ [r]) = empty.enter pre)) ∧
    after.2.skipped = values.flatMap (·.skips) ∧
    ((values.flatMap ClassValue.literals).Pairwise (·.start ≠ ·.start) →
      ∀ others : List ClassValue, others.Perm values →
        (ofValues scope others).edits = after.2.edits) := by
  intro after asked entered
  have hafter : after.2 = ofValues scope values := qualifyValues_snd scope values empty
  have hbooks : after.2 = (empty.enter asked).leave (values.flatMap (·.skips)) :=
    hafter.trans (ofValues_eq scope values)
  have hordered : after.2.edits.Pairwise (·.start < ·.start) :=
    hafter ▸ edits_ofValues_ordered scope values
  have hperm : after.2.edits.Perm (entered.map Rewrite.edit) :=
    hafter ▸ edits_ofValues_perm scope values
  have hevents : after.2.events = entered.map Rewrite.event := by
    rw [hbooks, events_leave, tracks_empty.events_enter]
    rfl
  have hdistinct : entered.Pairwise (·.literal.start ≠ ·.literal.start) := by
    have hstarts : after.2.edits.Pairwise (·.start ≠ ·.start) := hordered.imp Nat.ne_of_lt
    exact (List.pairwise_map (f := Rewrite.edit)).mp (hperm.pairwise hstarts Ne.symm)
  refine ⟨hafter, hbooks, hordered, ?_, hevents, hperm, hdistinct, ?_, ?_, ?_, ?_⟩
  · rw [hevents, hperm.length_eq, List.length_map, List.length_map]
  · intro r
    simp only [entered, mem_leaders, List.nil_append]
  · intro pre r post hasked
    refine ⟨?_, fun hleads => ?_⟩
    · rw [tracks_empty.literals_qualifyValues scope values]
      change (settledAll [] asked)[pre.length]? = _
      rw [hasked]
      exact settledAll_getElem? pre r post
    · rw [enter_append, enter_cons, enter_nil, (tracks_empty.enter pre).write_eq]
      exact if_neg hleads
  · rw [hbooks, skipped_leave, skipped_enter]
    rfl
  · intro hd others hothers
    rw [hafter]
    exact edits_ofValues_of_perm hd hothers

def sharedPlace : List ClassValue :=
  [.slot (.conditional (.literal ⟨.string '"', 5, 7, [], 1⟩)
      (.literal ⟨.string '\'', 5, 8, ['a'], 1⟩)),
    .slot (.join "classnames".toList
      [.skipped ⟨.shape .object, 2⟩, .literal ⟨.string '"', 5, 9, ['b'], 2⟩]),
    .literal ⟨.attr '"', 1, 4, ['c'], 3⟩]

theorem second_literal_gets_shared_place :
    (qualifyValues "ui".toList sharedPlace empty).2.edits =
      [⟨1, 4, "\"ui-c\"".toList⟩, ⟨5, 8, "'ui-a'".toList⟩] ∧
    (qualifyValues "ui".toList sharedPlace empty).2.events =
      [⟨['a'], "ui-a".toList, 1⟩, ⟨['c'], "ui-c".toList, 3⟩] ∧
    (qualifyValues "ui".toList sharedPlace empty).2.skipped = [⟨.shape .object, 2⟩] ∧
    ((qualifyValues "ui".toList sharedPlace empty).1.flatMap ClassValue.literals)[2]? =
      some ⟨.string '"', 5, 9, ['b'], 2⟩ ∧
    (ofValues "ui".toList [sharedPlace[2], sharedPlace[1]]).edits =
      (ofValues "ui".toList [sharedPlace[1], sharedPlace[2]]).edits := by
  have hshared := first_that_counts_is_entered "ui".toList sharedPlace
  have hapart := first_that_counts_is_entered "ui".toList [sharedPlace[1], sharedPlace[2]]
  obtain ⟨-, -, -, -, -, -, -, -, hturns, hskipped, -⟩ := hshared
  obtain ⟨hafter, -, -, -, -, -, -, -, -, -, horder⟩ := hapart
  have hthird := (hturns [⟨⟨.string '"', 5, 7, [], 1⟩, []⟩,
    ⟨⟨.string '\'', 5, 8, ['a'], 1⟩, "ui-a".toList⟩] ⟨⟨.string '"', 5, 9, ['b'], 2⟩, "ui-b".toList⟩
    [⟨⟨.attr '"', 1, 4, ['c'], 3⟩, "ui-c".toList⟩] (by decide +kernel)).1
  rw [if_neg (by decide +kernel)] at hthird
  refine ⟨by decide +kernel, by decide +kernel, hskipped, hthird, ?_⟩
  rw [horder (by decide +kernel) _ (.swap _ _ _), hafter]

end Ledger
end ClassScope
