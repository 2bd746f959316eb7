import ClassScope.Invocation.Reader
import ClassScope.Proofs.Precedence
import ClassScope.Proofs.Run.Effect
import ClassScope.Proofs.Sweep.Strips
import ClassScope.Proofs.Unchanged

/-! What the report on a file lists. The structural way enters a literal only if it gets a new text,
so it lists real changes, and none exactly if the file stays as it is. A sweep lists every string
that it finds, and an empty string stays empty. -/
namespace ClassScope

namespace Ledger
open Rewrite

variable {scope : Text} {values : List ClassValue}

theorem events_ofValues (scope : Text) (values : List ClassValue) :
    (ofValues scope values).events =
      (leaders [] (values.flatMap (·.rewrites scope))).map Rewrite.event := by
  rw [ofValues_eq, events_leave, tracks_empty.events_enter]
  rfl

theorem ne_of_mem_events_ofValues {e : Event} (he : e ∈ (ofValues scope values).events) :
    e.before ≠ e.after := by
  rw [events_ofValues] at he
  obtain ⟨r, hr, rfl⟩ := List.mem_map.mp he
  obtain ⟨_, _, _, hleads⟩ := mem_leaders.mp hr
  exact hleads.1.2

theorem events_ofValues_eq_nil_iff :
    (ofValues scope values).events = [] ↔ (ofValues scope values).edits = [] := by
  have hperm := edits_ofValues_perm scope values
  rw [events_ofValues, List.map_eq_nil_iff]
  constructor
  · intro hnone
    rw [hnone] at hperm
    exact hperm.eq_nil
  · intro hnone
    rw [hnone] at hperm
    exact List.map_eq_nil_iff.mp hperm.symm.eq_nil

end Ledger

namespace Transform

theorem events_of_ofNodes? {s : Source} {settings : Settings} {nodes : List Node} {o : Outcome}
    (ho : ofNodes? s settings nodes = some o) :
    (∀ e ∈ o.events, e.before ≠ e.after) ∧ (o.events = [] ↔ o.isUnchanged = true) := by
  by_cases hscope : settings.scope = []
  · have hnone : o = ⟨s.text, [], [], []⟩ := by simpa [ofNodes?, hscope] using ho.symm
    subst hnone
    exact ⟨by simp, iff_of_true rfl rfl⟩
  · rw [ofNodes?_eq s nodes hscope] at ho
    obtain ⟨code, -, rfl⟩ := Option.map_eq_some_iff.mp ho
    refine ⟨fun e he => Ledger.ne_of_mem_events_ofValues he, ?_⟩
    rw [Outcome.isUnchanged, List.isEmpty_iff]
    exact Ledger.events_ofValues_eq_nil_iff

theorem parse_of_read_ok {s : Source} {dialect : Dialect} {nodes : List Node}
    (hplain : s.text.head? ≠ some '\uFEFF') (h : read s dialect = .ok nodes) :
    Markup.parse dialect s.text = .ok nodes := by
  rw [read, Source.body_of_head?_ne hplain] at h
  split at h
  · cases h
    assumption
  · cases h

end Transform

namespace Sweep
open Text Strip

section Rows

variable {scope : Text} {p q : List Strip}

theorem target_eq_source_of_before_eq_nil (hp : ∀ e ∈ events p, Qualifies scope e)
    (h : ∀ e ∈ events p, e.before = []) : target p = source p := by
  induction p with
  | nil => rfl
  | cons s p ih =>
    cases s with
    | kept c => exact congrArg (c :: ·) (ih hp h)
    | changed e =>
      obtain ⟨he, hrest⟩ := List.forall_mem_cons.mp hp
      obtain ⟨hbefore, hrest'⟩ := List.forall_mem_cons.mp h
      have hafter : e.after = ClassList.qualify scope e.before := he
      simp [hbefore, hafter, ih hrest hrest']

/-- A pass without names in its strings takes their blanks away and does nothing else. -/
theorem length_source_of_no_names (hp : ∀ e ∈ events p, Qualifies scope e)
    (h : ((events p).flatMap fun e => words e.before).length = 0) :
    (source p).length = (target p).length + ((events p).flatMap (·.before)).length := by
  have hwords := List.flatMap_eq_nil_iff.mp (List.length_eq_zero_iff.mp h)
  exact length_source_of_after_eq_nil fun e he =>
    (hp e he).trans (ClassList.qualify_eq_nil_iff.mpr (hwords e he))

/-- Two passes that give back the text have found nothing but empty strings. -/
theorem before_eq_nil_of_both (hscope : ∀ c ∈ scope, isBlank c = false)
    (hp : ∀ e ∈ events p, Qualifies scope e) (hq : ∀ e ∈ events q, Qualifies scope e)
    (hmiddle : target p = source q) (h : target q = source p) :
    ∀ e ∈ events p ++ events q, e.before = [] := by
  -- Names only ever come to more, so there are none in either pass.
  have hgrowth := length_solid_target hscope hp
  have hgrowth' := length_solid_target hscope hq
  rw [hmiddle] at hgrowth
  rw [h] at hgrowth'
  have hsucc : 0 < scope.length + 1 := Nat.succ_pos _
  have hnone : ((events p).flatMap fun e => words e.before).length * (scope.length + 1) = 0 := by
    omega
  have hnone' : ((events q).flatMap fun e => words e.before).length * (scope.length + 1) = 0 := by
    omega
  have hlength := length_source_of_no_names hp
    ((Nat.mul_eq_zero.mp hnone).resolve_right hsucc.ne')
  have hlength' := length_source_of_no_names hq
    ((Nat.mul_eq_zero.mp hnone').resolve_right hsucc.ne')
  rw [hmiddle] at hlength
  rw [h] at hlength'
  have hblank : (events p).flatMap (·.before) = [] := List.length_eq_zero_iff.mp (by omega)
  have hblank' : (events q).flatMap (·.before) = [] := List.length_eq_zero_iff.mp (by omega)
  exact List.forall_mem_append.mpr
    ⟨List.flatMap_eq_nil_iff.mp hblank, List.flatMap_eq_nil_iff.mp hblank'⟩

end Rows

variable {settings : Settings}

theorem qualifies_sweep (settings : Settings) (t : Text) :
    ∀ e ∈ (sweep settings t).events, Qualifies settings.scope e := by
  by_cases hscope : settings.scope = []
  · simp [sweep, hscope]
  · rw [sweep_eq hscope]
    exact List.forall_mem_append.mpr
      ⟨qualifies_joinStrips _ _ _, qualifies_attributeStrips _ _ _⟩

theorem code_sweep_eq_iff (hvalid : settings.fault? = none) (t : Text) :
    (sweep settings t).code = t ↔ ∀ e ∈ (sweep settings t).events, e.before = [] := by
  by_cases hscope : settings.scope = []
  · simp [sweep, hscope]
  · rw [sweep_eq hscope]
    let p := joinStrips settings.scope settings.joinName t
    let q := attributeStrips settings.scope settings.attributeName (target p)
    have hp : ∀ e ∈ events p, Qualifies settings.scope e := qualifies_joinStrips _ _ _
    have hq : ∀ e ∈ events q, Qualifies settings.scope e := qualifies_attributeStrips _ _ _
    have hsource : source p = t := source_joinStrips _ _ _
    have hmiddle : target p = source q := (source_attributeStrips _ _ _).symm
    constructor
    · intro h
      exact before_eq_nil_of_both (Settings.scope_solid hvalid) hp hq hmiddle (h.trans hsource.symm)
    · intro h
      obtain ⟨hnone, hnone'⟩ := List.forall_mem_append.mp h
      calc target q = source q := target_eq_source_of_before_eq_nil hq hnone'
        _ = target p := hmiddle.symm
        _ = source p := target_eq_source_of_before_eq_nil hp hnone
        _ = t := hsource

theorem before_eq_after_iff (hvalid : settings.fault? = none) {e : Event}
    (he : Qualifies settings.scope e) : e.before = e.after ↔ e.before = [] := by
  have hafter : e.after = ClassList.qualify settings.scope e.before := he
  constructor
  · intro heq
    by_contra hne
    exact ClassList.qualify_ne_self (Settings.scope_solid hvalid) hne (hafter.symm.trans heq.symm)
  · intro hnil
    rw [hafter, hnil, ClassList.qualify_nil]

end Sweep

namespace Run
open Node

variable {i : Invocation} {settings : Settings} {tree : FileTree} {path : Path} {f : Processed}

/-- Every change that the report lists is one, and none is listed exactly if the file counts as
unchanged. -/
structure ListsRealChanges (r : FileReport) : Prop where
  ne : ∀ e ∈ r.events, e.before ≠ e.after
  status_iff : r.status = .unchanged ↔ r.events = []

/-- A file that has not failed holds a text, and the report tells what became of it. -/
theorem exists_product (hprocess : (process i settings tree path).2 = some f)
    (h : f.report.status ≠ .failed) :
    ∃ t p, tree.find? path = some (.file (.text t)) ∧ qualify i.strategy settings path t = .ok p ∧
      f.report.events = p.events ∧ (f.report.status = .unchanged ↔ p.code = t) := by
  rcases process_cases hprocess with ⟨t, p, hfile, hp, rfl⟩ | ⟨message, rfl, -⟩
  · refine ⟨t, p, hfile, hp, rfl, ?_⟩
    by_cases hsame : p.code = t <;> simp [processed, hsame]
  · exact absurd rfl h

theorem outcome_of_qualify {t : Text} {p : Product}
    (h : qualify .structural settings path t = .ok p) :
    ∃ o, Transform.run ⟨t⟩ settings (Dialect.ofFileName (some path)) = .ok o ∧
      p = ⟨o.code, o.events, o.skipped.map remark⟩ := by
  simp only [qualify] at h
  split at h
  · rename_i o ho
    cases h
    exact ⟨o, ho, rfl⟩
  · cases h

theorem product_of_qualify {t : Text} {p : Product} (h : qualify .sweep settings path t = .ok p) :
    p = ⟨(Sweep.sweep settings t).code, (Sweep.sweep settings t).events, []⟩ :=
  (Except.ok.inj h).symm

/-- The file, if it holds a text, starts with no byte order mark, and the grammar finds every part
of it where it stands. -/
def ReadsTrue (tree : FileTree) (path : Path) : Prop :=
  ∀ t, tree.find? path = some (.file (.text t)) → t.head? ≠ some '\uFEFF' ∧
    ∀ nodes, Markup.parse (Dialect.ofFileName (some path)) t = .ok nodes →
      (root nodes).Faithful ⟨t⟩ ∧ (root nodes).Legible ⟨t⟩

/-- The report on a file that has not failed lists real changes, and none exactly if the file counts
as unchanged, if class values are found by the grammar. If they are found by the look of the text,
the file counts as unchanged exactly if nothing but empty strings is listed, and an empty string is
no change: the report is what it should be exactly if it lists none. -/
theorem reports_list_real_changes (i : Invocation) {settings : Settings} (tree : FileTree)
    (path : Path) (hvalid : settings.fault? = none)
    (hprocess : (process i settings tree path).2 = some f) (hdone : f.report.status ≠ .failed) :
    let r := f.report
    (i.strategy = .structural →
      (∀ e ∈ r.events, e.before ≠ e.after) ∧ (ReadsTrue tree path → ListsRealChanges r)) ∧
    (i.strategy = .sweep →
      (r.status = .unchanged ↔ ∀ e ∈ r.events, e.before = []) ∧
      (ListsRealChanges r ↔ ∀ e ∈ r.events, e.before ≠ [])) := by
  intro r
  obtain ⟨t, p, hfile, hp, hevents, hstatus⟩ := exists_product hprocess hdone
  refine ⟨fun hstrategy => ?_, fun hstrategy => ?_⟩
  · obtain ⟨o, hrun, rfl⟩ := outcome_of_qualify (hstrategy ▸ hp)
    obtain ⟨-, nodes, hread, ho⟩ := Transform.run_eq_ok_iff.mp hrun
    have hlisted : r.events = o.events := hevents
    obtain ⟨hreal, hnone⟩ := Transform.events_of_ofNodes? ho
    have hne : ∀ e ∈ r.events, e.before ≠ e.after := hlisted ▸ hreal
    refine ⟨hne, fun htrue => ⟨hne, ?_⟩⟩
    obtain ⟨hplain, hnodes⟩ := htrue t hfile
    obtain ⟨h, hspelt⟩ := hnodes nodes (Transform.parse_of_read_ok hplain hread)
    obtain ⟨o', ho', hunchanged⟩ := Transform.exists_outcome hvalid h hspelt
    obtain rfl : o' = o := Option.some.inj (ho'.symm.trans ho)
    calc r.status = .unchanged ↔ o'.code = t := hstatus
      _ ↔ o'.isUnchanged = true := hunchanged.symm
      _ ↔ o'.events = [] := hnone.symm
      _ ↔ r.events = [] := by rw [hlisted]
  · obtain rfl := product_of_qualify (hstrategy ▸ hp)
    have hlisted : r.events = (Sweep.sweep settings t).events := hevents
    have hsame : r.status = .unchanged ↔ ∀ e ∈ r.events, e.before = [] := by
      rw [hlisted]
      exact hstatus.trans (Sweep.code_sweep_eq_iff hvalid t)
    have hkept : ∀ e ∈ r.events, (e.before = e.after ↔ e.before = []) := by
      rw [hlisted]
      exact fun e he => Sweep.before_eq_after_iff hvalid (Sweep.qualifies_sweep settings t e he)
    refine ⟨hsame, fun h e he => mt (hkept e he).mpr (h.ne e he), fun h => ⟨?_, ?_⟩⟩
    · exact fun e he => mt (hkept e he).mp (h e he)
    · rw [hsame, List.eq_nil_iff_forall_not_mem]
      exact ⟨fun hempty e he => h e he (hempty e he), fun hnone e he => absurd he (hnone e)⟩

def emptyList : Source where
  text := "<i className=\"\" />;".toList

def emptyListTree : FileTree := ⟨[], [(["a.jsx".toList], .file (.text emptyList.text))]⟩

def byGrammar : Invocation := Invocation.Draft.invocation {}

def byLook : Invocation :=
  Invocation.Draft.invocation { values := [(.strategy, "regex".toList)] }

theorem empty_list_is_listed_by_sweep :
    ∃ f f', (process byGrammar Settings.defaults emptyListTree "a.jsx".toList).2 = some f ∧
      (process byLook Settings.defaults emptyListTree "a.jsx".toList).2 = some f' ∧
      Settings.defaults.fault? = none ∧ ReadsTrue emptyListTree "a.jsx".toList ∧
      byGrammar.strategy = .structural ∧ f.report.status = .unchanged ∧ f.report.events = [] ∧
      ListsRealChanges f.report ∧ byLook.strategy = .sweep ∧ f'.report.status = .unchanged ∧
      f'.report.events = [⟨[], [], 1⟩] ∧ ¬ ListsRealChanges f'.report := by
  have hvalid : Settings.defaults.fault? = none := by decide +kernel
  have hfile : emptyListTree.find? "a.jsx".toList = some (.file (.text emptyList.text)) := by
    decide +kernel
  have hread : (Markup.parse (Dialect.ofFileName (some "a.jsx".toList))
      emptyList.text).toOption.any (fun nodes =>
        decide ((root nodes).Faithful emptyList ∧ (root nodes).Legible emptyList)) = true := by
    decide +kernel
  have htrue : ReadsTrue emptyListTree "a.jsx".toList := by
    intro t ht
    rw [hfile] at ht
    cases ht
    refine ⟨by decide +kernel, fun nodes hnodes => ?_⟩
    rw [hnodes] at hread
    exact of_decide_eq_true hread
  have hgrammar : byGrammar.strategy = .structural := by decide +kernel
  have hlook : byLook.strategy = .sweep := by decide +kernel
  have hstatus : (process byGrammar Settings.defaults emptyListTree "a.jsx".toList).2.map
      (·.report.status) = some .unchanged := by decide +kernel
  have hlisted : (process byLook Settings.defaults emptyListTree "a.jsx".toList).2.map
      (fun f' => (f'.report.status, f'.report.events)) = some (.unchanged, [⟨[], [], 1⟩]) := by
    decide +kernel
  obtain ⟨f, hf, hstatus⟩ := Option.map_eq_some_iff.mp hstatus
  obtain ⟨f', hf', hlisted⟩ := Option.map_eq_some_iff.mp hlisted
  obtain ⟨hstatus', hevents'⟩ := Prod.mk.inj hlisted
  have hdone : f.report.status ≠ .failed := by
    rw [hstatus]
    decide
  have hdone' : f'.report.status ≠ .failed := by
    rw [hstatus']
    decide
  have hreal : ListsRealChanges f.report :=
    ((reports_list_real_changes byGrammar _ _ hvalid hf hdone).1 hgrammar).2 htrue
  have hiff := ((reports_list_real_changes byLook _ _ hvalid hf' hdone').2 hlook).2
  refine ⟨f, f', hf, hf', hvalid, htrue, hgrammar, hstatus, hreal.status_iff.mp hstatus, hreal,
    hlook, hstatus', hevents', fun h => ?_⟩
  have hempty := hiff.mp h ⟨[], [], 1⟩ (hevents' ▸ List.mem_singleton_self _)
  exact hempty rfl

end Run
end ClassScope
