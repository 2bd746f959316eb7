import Mathlib.Data.List.Flatten
import Mathlib.Data.List.Perm.Basic
import Mathlib.Data.List.Perm.Subperm
import ClassScope.Proofs.ClassPosition
import ClassScope.Proofs.Splice

/-! The edits of a transform are the literals in class position that change, each once, and what
stands between them stays as it is. No literal is met twice: the rewrites that an attribute asks
for, together with those of the attributes nested in it, stand at different places of the tree. -/
namespace ClassScope

namespace Rewrite

/-- The stretch of source that is rewritten. -/
def place (r : Rewrite) : Span := ⟨r.literal.start + 1, r.literal.stop + 1⟩

end Rewrite

namespace Node

variable {s : Source} {scope joinName : Text} {settings : Settings}

theorem place_of_slice? {span : Span} {t : Text} (h : s.slice? span = some t) :
    (⟨span.lo - 1 + 1, span.hi - 1 + 1⟩ : Span) = span := by
  obtain ⟨hlo, hle, -⟩ := Source.slice?_eq_some_iff.mp h
  have hlo' : span.lo - 1 + 1 = span.lo := by omega
  have hhi' : span.hi - 1 + 1 = span.hi := by omega
  rw [hlo', hhi']

theorem map_place_segmentRewrites {after : Bool} {segments : List Segment}
    (h : ∀ g ∈ segments, s.slice? g.span = some g.raw) :
    (segmentRewrites scope after (segments.map s.segmentLiteral)).map Rewrite.place =
      segments.map Segment.span := by
  induction segments generalizing after with
  | nil => rfl
  | cons g gs ih =>
    have hg : (⟨g.span.lo - 1 + 1, g.span.hi - 1 + 1⟩ : Span) = g.span :=
      place_of_slice? (h g List.mem_cons_self)
    have hgs : ∀ g ∈ gs, s.slice? g.span = some g.raw :=
      fun g' hg' => h g' (List.mem_cons_of_mem _ hg')
    rw [List.map_cons, segmentRewrites, List.map_cons, List.map_cons, ih hgs]
    exact congrArg (· :: _) hg

theorem map_place_ownRewrites_sublist {n : Node} (h : n.Reads s) :
    ((n.ownRewrites s scope).map Rewrite.place).Sublist n.ownPlaces := by
  unfold ownRewrites
  split
  · rename_i span text
    cases hl : s.stringLiteral? span text with
    | none => exact List.nil_sublist _
    | some l =>
      obtain ⟨quote, raw, -, hraw, rfl⟩ := Source.stringLiteral?_eq_some_iff.mp hl
      have hplace : (⟨span.lo - 1 + 1, span.hi - 1 + 1⟩ : Span) = span := place_of_slice? hraw
      simp [Rewrite.place, hplace, ownPlaces]
  · split
    · exact List.nil_sublist _
    · rw [map_place_segmentRewrites h.2]
      exact List.Sublist.refl _
  · exact List.nil_sublist _

theorem flatMap_subperm {α β : Type} {l : List α} {f g : α → List β}
    (h : ∀ a ∈ l, (f a).Subperm (g a)) : (l.flatMap f).Subperm (l.flatMap g) := by
  induction l with
  | nil => exact List.Subperm.refl _
  | cons a l ih =>
    rw [List.flatMap_cons, List.flatMap_cons]
    exact (h a List.mem_cons_self).append (ih fun b hb => h b (List.mem_cons_of_mem _ hb))

theorem allRewrites_eq (n : Node) :
    n.allRewrites s settings =
      (n.ownValues settings.attributeName).flatMap (valueRewrites s settings) ++
        n.parts.flatMap (allRewrites s settings) := by
  rw [allRewrites, valuesOf_eq, List.flatMap_append, List.flatMap_assoc]
  rfl

/-- One node: what its own literals ask for, what the parts ask for that it leads on to, and what
the attributes in its parts ask for. -/
theorem subperm_places_of_parts {n : Node} {own : List Rewrite} {ps : List Node}
    {asked nested : Node → List Rewrite}
    (hown : (own.map Rewrite.place).Sublist n.ownPlaces) (hps : ps.Sublist n.parts)
    (hparts : ∀ p ∈ n.parts, ((asked p ++ nested p).map Rewrite.place).Subperm p.places) :
    ((own ++ ps.flatMap asked ++ n.parts.flatMap nested).map Rewrite.place).Subperm n.places := by
  have hasked : (ps.flatMap asked ++ n.parts.flatMap nested).Subperm
      (n.parts.flatMap fun p => asked p ++ nested p) := by
    refine List.Subperm.trans ?_ (List.flatMap_append_perm n.parts asked nested).subperm
    exact (hps.flatMap asked).subperm.append (List.Subperm.refl _)
  obtain ⟨qs, hperm, hsub⟩ := hasked
  have hplace : ((ps.flatMap asked ++ n.parts.flatMap nested).map Rewrite.place).Subperm
      ((n.parts.flatMap fun p => asked p ++ nested p).map Rewrite.place) :=
    ⟨qs.map Rewrite.place, hperm.map _, hsub.map _⟩
  rw [places_eq, List.append_assoc, List.map_append]
  refine hown.subperm.append (hplace.trans ?_)
  rw [List.map_flatMap]
  exact flatMap_subperm hparts

theorem subperm_places_attr {name : Option Text} {v : Node} (hreads : (Node.attr name v).Reads s)
    (h : (Node.attr none v).Reads s →
      ((v.valueRewrites s settings ++ v.allRewrites s settings).map Rewrite.place).Subperm
        v.places) :
    (((s.classify settings.joinName (.attr name v)).rewrites settings.scope ++
      (Node.attr name v).allRewrites s settings).map Rewrite.place).Subperm v.places := by
  have hvalue := h (by cases v <;> exact hreads)
  rw [allRewrites_eq]
  by_cases hname : name = some settings.attributeName
  · simpa [ownValues, hname, parts, Source.classify, Source.skip, ClassExpr.rewrites] using hvalue
  · rw [List.map_append] at hvalue
    have hnested := (List.sublist_append_right _ _).subperm.trans hvalue
    simpa [ownValues, hname, parts, Source.classify, Source.skip, ClassExpr.rewrites] using hnested

/-- What an expression asks for, and what the attributes nested in it do, stands at different
places of the tree; and so for the value of an attribute. -/
theorem subperm_places (settings : Settings) {n : Node} (h : n.Faithful s) :
    (((s.classify settings.joinName n).rewrites settings.scope ++ n.allRewrites s settings).map
      Rewrite.place).Subperm n.places ∧
    ((Node.attr none n).Reads s →
      ((n.valueRewrites s settings ++ n.allRewrites s settings).map Rewrite.place).Subperm
        n.places) := by
  induction n using parts_induction with
  | h n ih =>
    have hexpr : ∀ p ∈ n.parts, _ := fun p hp => (ih p hp (h.part hp)).1
    have hfirst : (((s.classify settings.joinName n).rewrites settings.scope ++
        n.allRewrites s settings).map Rewrite.place).Subperm n.places := by
      by_cases hattr : ∃ name v, n = .attr name v
      · obtain ⟨name, v, rfl⟩ := hattr
        exact subperm_places_attr h.placed.reads
          (ih v (List.mem_singleton_self v) (h.part (List.mem_singleton_self v))).2
      · have hnone : n.ownValues settings.attributeName = [] := by
          rw [List.eq_nil_iff_forall_not_mem]
          intro v hv
          exact hattr ⟨_, v, mem_ownValues.mp hv⟩
        rw [rewrites_classify h.placed.reads, allRewrites_eq, hnone, List.flatMap_nil,
          List.nil_append]
        exact subperm_places_of_parts (map_place_ownRewrites_sublist h.placed.reads)
          (carriers_sublist _ n) hexpr
    refine ⟨hfirst, fun hreads => ?_⟩
    rcases valueRewrites_cases settings hreads with
      ⟨span, rfl, heq⟩ | ⟨span, inner, rfl, heq⟩ | ⟨_, _, _, rfl, heq⟩
    · rw [heq]
      cases hl : s.attributeLiteral? span with
      | none => exact (List.nil_sublist _).subperm
      | some l =>
        obtain ⟨quote, text, -, hraw, rfl⟩ := Source.attributeLiteral?_eq_some_iff.mp hl
        have hplace : (⟨span.lo - 1 + 1, span.hi - 1 + 1⟩ : Span) = span := place_of_slice? hraw
        simp [Rewrite.place, hplace, places, allRewrites, valuesOf]
    · rw [heq]
      exact hexpr inner (List.mem_singleton_self inner)
    · rw [heq]
      exact hfirst

theorem allRewrites_apart {n : Node} (h : n.Faithful s) :
    (n.allRewrites s settings).Pairwise fun r q => r.place.Apart q.place := by
  obtain ⟨ps, hperm, hsub⟩ := (subperm_places settings h).1
  have hps : ps.Pairwise Span.Apart := h.places_apart.1.sublist hsub
  have hall := hperm.pairwise hps Span.Apart.symm
  rw [List.map_append] at hall
  exact List.pairwise_map.mp (hall.sublist (List.sublist_append_right _ _))

/-- A literal in class position has a place in the source, and one that is not empty has bytes
there. -/
theorem InClassPosition.exists_slice? {nodes : List Node} {r : Rewrite}
    (hr : InClassPosition s settings nodes r) (h : (root nodes).Faithful s) :
    ∃ old, s.text.slice? r.literal.start r.literal.stop = some old ∧
      (r.literal.text ≠ [] → old ≠ []) := by
  cases hr with
  | quoted _ hraw => exact ⟨_, (Source.slice?_eq_some_iff.mp hraw).2.2, fun _ => by simp⟩
  | string _ _ hraw => exact ⟨_, (Source.slice?_eq_some_iff.mp hraw).2.2, fun _ => by simp⟩
  | segment hattr hm _ hg =>
    have htemplate := hm.faithful (h.sub (expr_mem_subtrees_root hattr))
    have hraw := htemplate.placed.reads.2 _ (List.mem_of_getElem? hg)
    exact ⟨_, (Source.slice?_eq_some_iff.mp hraw).2.2, fun h => h⟩

end Node

namespace Transform
open Node

variable {source : Source} {settings : Settings} {nodes : List Node}

theorem ledger_eq (source : Source) (settings : Settings) (nodes : List Node) :
    ledger source settings nodes =
      (Ledger.empty.enter ((root nodes).allRewrites source settings)).leave
        ((root nodes).allSkips source settings) := by
  rw [ledger, Ledger.ofValues_eq, List.flatMap_map, List.flatMap_map]
  rfl

theorem ofNodes?_eq (source : Source) (nodes : List Node) (hscope : settings.scope ≠ []) :
    ofNodes? source settings nodes =
      (Edit.splice? source.text (ledger source settings nodes).edits).map fun code =>
        ⟨code, (ledger source settings nodes).edits, (ledger source settings nodes).events,
          (ledger source settings nodes).skipped⟩ := by
  have hempty : settings.scope.isEmpty = false := by simpa using hscope
  cases hcode : Edit.splice? source.text (ledger source settings nodes).edits <;>
    simp [ofNodes?, hempty, hcode]

theorem start_lt_stop {r : Rewrite} (h : (root nodes).Faithful source)
    (hr : r ∈ (root nodes).allRewrites source settings) (hc : r.Counts) :
    r.literal.start < r.literal.stop := by
  obtain ⟨old, hold, hne⟩ := ((mem_allRewrites h).mp hr).exists_slice? h
  obtain ⟨before, after, -, hbefore, hstop⟩ := Text.slice?_eq_some_iff.mp hold
  have hpos := Text.size_pos (hne hc.1)
  omega

/-- A rewrite that starts before one that counts ends before that one starts. -/
theorem stop_le_start {r q : Rewrite} (h : (root nodes).Faithful source)
    (hr : r ∈ (root nodes).allRewrites source settings)
    (hq : q ∈ (root nodes).allRewrites source settings) (hqc : q.Counts)
    (hlt : r.literal.start < q.literal.start) : r.literal.stop ≤ q.literal.start := by
  have hne : r ≠ q := by
    rintro rfl
    exact Nat.lt_irrefl _ hlt
  have : Std.Symm fun r q : Rewrite => r.place.Apart q.place := ⟨fun _ _ => Span.Apart.symm⟩
  have hapart : r.place.Apart q.place := (allRewrites_apart h).forall hr hq hne
  have hqlt := start_lt_stop h hq hqc
  unfold Span.Apart Rewrite.place at hapart
  dsimp only at hapart
  omega

theorem allRewrites_distinct (settings : Settings) (h : (root nodes).Faithful source) :
    ((root nodes).allRewrites source settings).Pairwise fun r q =>
      r.Counts → q.Counts → r.literal.start ≠ q.literal.start := by
  refine (allRewrites_apart h).imp_of_mem ?_
  intro r q hr hq hapart hrc hqc heq
  have hrlt := start_lt_stop h hr hrc
  have hqlt := start_lt_stop h hq hqc
  unfold Span.Apart Rewrite.place at hapart
  dsimp only at hapart
  omega

theorem ledger_entries (settings : Settings) (h : (root nodes).Faithful source) :
    (∀ e, e ∈ (ledger source settings nodes).edits ↔
      ∃ r ∈ (root nodes).allRewrites source settings, r.Counts ∧ e = r.edit) ∧
    (ledger source settings nodes).events =
      (((root nodes).allRewrites source settings).filter (·.Counts)).map Rewrite.event := by
  have hentries := Ledger.enter_of_distinct (b := Ledger.empty)
    (allRewrites_distinct settings h) (fun _ _ _ => rfl)
  rw [ledger_eq, Ledger.edits_leave, Ledger.events_leave]
  refine ⟨fun e => ?_, hentries.2⟩
  rw [hentries.1]
  simp [Ledger.empty]

theorem mem_edits_ledger {e : Edit} (h : (root nodes).Faithful source) :
    e ∈ (ledger source settings nodes).edits ↔
      ∃ r ∈ (root nodes).allRewrites source settings, r.Counts ∧ e = r.edit :=
  (ledger_entries settings h).1 e

theorem edits_ledger_ordered (h : (root nodes).Faithful source) :
    (ledger source settings nodes).edits.Pairwise fun e f =>
      e.start < f.start ∧ e.stop ≤ f.start := by
  have hstart : (ledger source settings nodes).edits.Pairwise (·.start < ·.start) := by
    rw [ledger_eq]
    exact Ledger.edits_enter_pairwise _ List.Pairwise.nil
  refine hstart.imp_of_mem ?_
  intro e f he hf hlt
  obtain ⟨r, hr, -, rfl⟩ := (mem_edits_ledger h).mp he
  obtain ⟨q, hq, hqc, rfl⟩ := (mem_edits_ledger h).mp hf
  exact ⟨hlt, stop_le_start h hr hq hqc hlt⟩

theorem exists_splice?_ledger (settings : Settings) (h : (root nodes).Faithful source) :
    ∃ code, Edit.splice? source.text (ledger source settings nodes).edits = some code ∧
      Edit.Spliced 0 (ledger source settings nodes).edits source.text code := by
  have hslice : ∀ e ∈ (ledger source settings nodes).edits,
      ∃ old, source.text.slice? e.start e.stop = some old := by
    intro e he
    obtain ⟨r, hr, -, rfl⟩ := (mem_edits_ledger h).mp he
    obtain ⟨old, hold, -⟩ := ((mem_allRewrites h).mp hr).exists_slice? h
    exact ⟨old, hold⟩
  have hwhole : source.text = [] ++ source.text := rfl
  obtain ⟨code, hcode⟩ := Edit.exists_spliceFrom?_eq_some hwhole (fun _ _ => Nat.zero_le _) hslice
    ((edits_ledger_ordered h).imp And.right)
  refine ⟨code, hcode, (Edit.splice?_eq_some_iff ?_).mp hcode⟩
  intro e he
  obtain ⟨old, hold⟩ := hslice e he
  exact (Text.slice?_le hold).1

/-- The edits are the literals in class position whose text is not empty and changes, one for each
and none that overlap, and nothing else of the source is touched. -/
theorem edits_are_literals_in_class_position (hscope : settings.scope ≠ [])
    (h : (root nodes).Faithful source) :
    ∃ (o : Outcome) (rs : List Rewrite), ofNodes? source settings nodes = some o ∧
      (∀ r, r ∈ rs ↔ InClassPosition source settings nodes r ∧ r.Counts) ∧
      rs.Pairwise (·.literal.start ≠ ·.literal.start) ∧
      o.edits.Perm (rs.map Rewrite.edit) ∧ o.events = rs.map Rewrite.event ∧
      o.edits.Pairwise (·.stop ≤ ·.start) ∧ Edit.Spliced 0 o.edits source.text o.code := by
  obtain ⟨code, hcode, hspliced⟩ := exists_splice?_ledger settings h
  have hdist : (((root nodes).allRewrites source settings).filter (·.Counts)).Pairwise
      (·.literal.start ≠ ·.literal.start) := by
    refine ((allRewrites_distinct settings h).sublist List.filter_sublist).imp_of_mem ?_
    intro r q hr hq hne
    simp only [List.mem_filter, decide_eq_true_eq] at hr hq
    exact hne hr.2 hq.2
  refine ⟨_, ((root nodes).allRewrites source settings).filter (·.Counts),
    by rw [ofNodes?_eq source nodes hscope, hcode, Option.map_some], ?_, hdist, ?_, ?_,
    (edits_ledger_ordered h).imp And.right, hspliced⟩
  · intro r
    rw [List.mem_filter, mem_allRewrites h, decide_eq_true_eq]
  · -- Both lists hold the same edits, and neither holds one twice.
    have hedits : (ledger source settings nodes).edits.Nodup := by
      refine (edits_ledger_ordered h).imp ?_
      rintro e f ⟨hlt, -⟩ rfl
      exact Nat.lt_irrefl _ hlt
    have hmap : ((((root nodes).allRewrites source settings).filter (·.Counts)).map
        Rewrite.edit).Nodup := by
      refine List.pairwise_map.mpr (hdist.imp ?_)
      intro r q hne heq
      exact hne (congrArg Edit.start heq)
    refine (List.perm_ext_iff_of_nodup hedits hmap).mpr fun e => ?_
    rw [mem_edits_ledger h, List.mem_map]
    refine exists_congr fun r => ?_
    rw [List.mem_filter, decide_eq_true_eq, and_assoc, eq_comm]
  · exact (ledger_entries settings h).2

/-- An attribute inside the value of another, in an interpolation of a template. -/
def nestedAttributes : Source where
  text := ("<i className=\x7bclassnames(on ? 'a' : " ++
    "`b $\x7b<i className=\"c d\" />\x7d`, ...['e'])\x7d />;").toList

theorem nested_attributes_are_rewritten_once :
    ∃ nodes, Markup.parse .tsx nestedAttributes.body = .ok nodes ∧
      Settings.defaults.scope ≠ [] ∧ (root nodes).Faithful nestedAttributes ∧
      (ledger nestedAttributes Settings.defaults nodes).edits.map Edit.start = [30, 37, 54] ∧
      ∃ (o : Outcome) (rs : List Rewrite),
        ofNodes? nestedAttributes Settings.defaults nodes = some o ∧
        (∀ r, r ∈ rs ↔ InClassPosition nestedAttributes Settings.defaults nodes r ∧ r.Counts) ∧
        rs.Pairwise (·.literal.start ≠ ·.literal.start) ∧
        o.edits.Perm (rs.map Rewrite.edit) ∧ o.events = rs.map Rewrite.event ∧
        o.edits.Pairwise (·.stop ≤ ·.start) ∧
        Edit.Spliced 0 o.edits nestedAttributes.text o.code := by
  have hread : (Markup.parse .tsx nestedAttributes.body).toOption.any (fun nodes =>
      decide ((root nodes).Faithful nestedAttributes ∧
        (ledger nestedAttributes Settings.defaults nodes).edits.map Edit.start = [30, 37, 54])) =
      true := by decide +kernel
  have hscope : Settings.defaults.scope ≠ [] := by decide +kernel
  cases hparse : Markup.parse .tsx nestedAttributes.body with
  | error f =>
    rw [hparse] at hread
    cases hread
  | ok nodes =>
    rw [hparse] at hread
    obtain ⟨hfaithful, hstarts⟩ := of_decide_eq_true hread
    exact ⟨nodes, rfl, hscope, hfaithful, hstarts,
      edits_are_literals_in_class_position hscope hfaithful⟩

end Transform
end ClassScope
