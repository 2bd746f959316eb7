import ClassScope.Exemption
import ClassScope.Proofs.Mark.Transparency
import ClassScope.Proofs.Sweep.Strips
import ClassScope.Run

/-! Exemptions that are put together step by step. A name is exempt by nature or because of one of
the steps, whatever the order of the steps, so that a name which is exempt stays so. Whichever way a
text is qualified, its events bring in the qualified form of each name. -/
namespace ClassScope
open Text

/-- The names after the event are the qualified names before it, one by one. -/
def Event.Renames (scope : Text) (e : Event) : Prop :=
  words e.after = (words e.before).map (ClassList.qualifyName scope)

section Renames

variable {scope : Text}

theorem renames_segmentRewrites (hscope : ∀ c ∈ scope, isBlank c = false) (after : Bool)
    (ls : List ClassLiteral) : ∀ r ∈ segmentRewrites scope after ls, r.event.Renames scope := by
  induction ls generalizing after with
  | nil => simp [segmentRewrites]
  | cons l ls ih =>
    rw [segmentRewrites, List.forall_mem_cons]
    exact ⟨ClassList.words_qualifySegment hscope _ l.text, ih true⟩

theorem renames_literal (hscope : ∀ c ∈ scope, isBlank c = false) (l : ClassLiteral) :
    ∀ r ∈ [(⟨l, ClassList.qualify scope l.text⟩ : Rewrite)], r.event.Renames scope := by
  simp only [List.forall_mem_singleton]
  exact ClassList.words_qualify hscope l.text

mutual

theorem ClassExpr.renames_rewrites (hscope : ∀ c ∈ scope, isBlank c = false) (e : ClassExpr) :
    ∀ r ∈ e.rewrites scope, r.event.Renames scope := by
  match e with
  | .literal l =>
    rw [rewrites]
    exact renames_literal hscope l
  | .conditional c a =>
    rw [rewrites, List.forall_mem_append]
    exact ⟨c.renames_rewrites hscope, a.renames_rewrites hscope⟩
  | .template segments interpolations =>
    rw [rewrites, List.forall_mem_append]
    exact ⟨renames_segmentRewrites hscope false segments,
      ClassExpr.renames_rewritesAll hscope interpolations⟩
  | .join callee arguments =>
    rw [rewrites]
    exact ClassExpr.renames_rewritesAll hscope arguments
  | .skipped k => simp [rewrites]

theorem ClassExpr.renames_rewritesAll (hscope : ∀ c ∈ scope, isBlank c = false)
    (es : List ClassExpr) : ∀ r ∈ rewritesAll scope es, r.event.Renames scope := by
  match es with
  | [] => simp [rewritesAll]
  | e :: es =>
    rw [rewritesAll, List.forall_mem_append]
    exact ⟨e.renames_rewrites hscope, ClassExpr.renames_rewritesAll hscope es⟩

end

theorem ClassValue.renames_rewrites (hscope : ∀ c ∈ scope, isBlank c = false) (v : ClassValue) :
    ∀ r ∈ v.rewrites scope, r.event.Renames scope := by
  cases v with
  | literal l => exact renames_literal hscope l
  | slot e => exact e.renames_rewrites hscope

theorem Ledger.mem_events_enter {b : Ledger} {rs : List Rewrite} {e : Event}
    (he : e ∈ (b.enter rs).events) : e ∈ b.events ∨ ∃ r ∈ rs, e = r.event := by
  induction rs generalizing b with
  | nil => exact .inl he
  | cons r rs ih =>
    rcases ih (enter_cons b r rs ▸ he) with hone | ⟨q, hq, rfl⟩
    · rw [write] at hone
      split at hone
      · exact .inl hone
      · rcases List.mem_append.mp hone with hold | hnew
        · exact .inl hold
        · exact .inr ⟨r, List.mem_cons_self, List.mem_singleton.mp hnew⟩
    · exact .inr ⟨q, List.mem_cons_of_mem r hq, rfl⟩

theorem Transform.renames_ofNodes? {source : Source} {settings : Settings} {nodes : List Node}
    {o : Outcome} (hscope : ∀ c ∈ settings.scope, isBlank c = false)
    (h : ofNodes? source settings nodes = some o) :
    ∀ e ∈ o.events, e.Renames settings.scope := by
  by_cases hempty : settings.scope = []
  · have ho : o = ⟨source.text, [], [], []⟩ := by simpa [ofNodes?, hempty, eq_comm] using h
    simp [ho]
  · rw [ofNodes?_eq source nodes hempty] at h
    obtain ⟨code, -, rfl⟩ := Option.map_eq_some_iff.mp h
    intro e he
    rw [ledger_eq, Ledger.events_leave] at he
    rcases Ledger.mem_events_enter he with hnone | ⟨r, hr, rfl⟩
    · cases hnone
    · obtain ⟨v, -, hv⟩ := List.mem_flatMap.mp hr
      exact ClassValue.renames_rewrites hscope _ r hv

theorem Sweep.renames_sweep {settings : Settings}
    (hscope : ∀ c ∈ settings.scope, isBlank c = false) (t : Text) :
    ∀ e ∈ (sweep settings t).events, e.Renames settings.scope := by
  by_cases hempty : settings.scope = []
  · simp [sweep, hempty]
  · have hwords : ∀ e, Qualifies settings.scope e → e.Renames settings.scope := by
      intro e he
      rw [Event.Renames, he, ClassList.words_qualify hscope]
    rw [sweep_eq hempty]
    intro e he
    rcases List.mem_append.mp he with hfirst | hsecond
    · exact hwords e (qualifies_joinStrips _ _ _ e hfirst)
    · exact hwords e (qualifies_attributeStrips _ _ _ e hsecond)

theorem Run.renames_qualify {strategy : Strategy} {settings : Settings} {path : Path} {t : Text}
    {product : Product} (hvalid : settings.fault? = .none)
    (h : qualify strategy settings path t = .ok product) :
    ∀ e ∈ product.events, e.Renames settings.scope := by
  have hscope := Settings.scope_solid hvalid
  cases strategy with
  | structural =>
    simp only [qualify] at h
    split at h
    · rename_i o ho
      cases h
      obtain ⟨-, nodes, -, hnodes⟩ := Transform.run_eq_ok_iff.mp ho
      exact Transform.renames_ofNodes? hscope hnodes
    · cases h
  | sweep =>
    cases h
    exact Sweep.renames_sweep hscope t

end Renames

namespace Exemptions

/-- What can be added to exemptions. -/
inductive Step where
  | exact (name : Text)
  | pattern (text : Text)
  | introduced (events : List Event)

namespace Step

def add (e : Exemptions) : Step → Except BadPattern Exemptions
  | exact name => .ok (e.addExact name)
  | pattern text => e.addPattern text
  | introduced events => .ok (e.addIntroduced events)

/-- Can the step be made? -/
def isReadable : Step → Bool
  | pattern text => (Pattern.ofText? text).isSome
  | _ => true

/-- Does the step by itself make the name exempt? Rules look at the name without the blanks around
it, the names that were introduced at the name as it is. -/
def exempts (name : Text) : Step → Bool
  | exact rule => rule == name.trim
  | pattern text => (Pattern.ofText? text).any (·.isFoundIn name.trim)
  | introduced events =>
    events.any fun event => name == event.after || event.after.words.contains name

end Step

def build (steps : List Step) : Except BadPattern Exemptions := steps.foldlM Step.add none

variable {e e' : Exemptions} {step : Step} {steps : List Step}

theorem isRuled_addRule (e : Exemptions) (rule : ExemptionRule) (name : Text) :
    (e.addRule rule).isRuled name = (e.isRuled name || rule.accepts name.trim) := by
  simp [isRuled, addRule]

theorem isExempt_addRule (e : Exemptions) (rule : ExemptionRule) (name : Text) :
    (e.addRule rule).isExempt name = (e.isExempt name || rule.accepts name.trim) := by
  rw [isExempt, isExempt, isRuled_addRule, introduced_addRule]
  cases e.isRuled name <;> cases rule.accepts name.trim <;> simp

theorem contains_traces (event : Event) (name : Text) :
    (traces event).contains name = (name == event.after || event.after.words.contains name) := by
  rw [traces, List.contains_cons]

theorem isExempt_addIntroduced (e : Exemptions) (events : List Event) (name : Text) :
    (e.addIntroduced events).isExempt name =
      (e.isExempt name || (Step.introduced events).exempts name) := by
  have hcontains : (events.flatMap traces).contains name =
      (Step.introduced events).exempts name := by
    simp only [Step.exempts, ← contains_traces]
    rw [Bool.eq_iff_iff]
    simp
  have hruled : (e.addIntroduced events).isRuled name = e.isRuled name := rfl
  have hadded : (e.addIntroduced events).introduced.contains name =
      (e.introduced.contains name || (Step.introduced events).exempts name) := by
    rw [← hcontains]
    simp [addIntroduced]
  rw [isExempt, isExempt, hruled, hadded, Bool.or_assoc]
  simp only [Bool.or_assoc]

theorem isExempt_add (h : step.add e = .ok e') (name : Text) :
    e'.isExempt name = (e.isExempt name || step.exempts name) := by
  cases step with
  | exact rule =>
    cases h
    exact isExempt_addRule e _ name
  | pattern text =>
    simp only [Step.add, addPattern] at h
    split at h
    · rename_i p hp
      cases h
      rw [isExempt_addRule, Step.exempts, hp]
      rfl
    · cases h
  | introduced events =>
    cases h
    exact isExempt_addIntroduced e events name

theorem exists_add_iff : (∃ e', step.add e = .ok e') ↔ step.isReadable = true := by
  cases step with
  | exact name => simp [Step.add, Step.isReadable]
  | pattern text =>
    simp only [Step.add, addPattern, Step.isReadable]
    cases Pattern.ofText? text <;> simp
  | introduced events => simp [Step.add, Step.isReadable]

theorem foldlM_add_cons :
    (step :: steps).foldlM Step.add e = .ok e' ↔
      ∃ next, step.add e = .ok next ∧ steps.foldlM Step.add next = .ok e' := by
  rw [List.foldlM_cons]
  cases step.add e <;> simp [bind, Except.bind]

/-- Many steps: the names that were exempt, and those that one of the steps makes so. -/
theorem isExempt_foldlM (h : steps.foldlM Step.add e = .ok e') (name : Text) :
    e'.isExempt name = (e.isExempt name || steps.any (·.exempts name)) := by
  induction steps generalizing e with
  | nil =>
    cases h
    simp
  | cons step steps ih =>
    obtain ⟨next, hstep, hrest⟩ := foldlM_add_cons.mp h
    rw [ih hrest, isExempt_add hstep, List.any_cons, Bool.or_assoc]

theorem exists_foldlM_iff :
    (∃ e', steps.foldlM Step.add e = .ok e') ↔ ∀ step ∈ steps, step.isReadable = true := by
  induction steps generalizing e with
  | nil => simp [pure, Except.pure]
  | cons step steps ih =>
    simp only [foldlM_add_cons, List.forall_mem_cons]
    constructor
    · rintro ⟨e', next, hstep, hrest⟩
      exact ⟨exists_add_iff.mp ⟨next, hstep⟩, ih.mp ⟨e', hrest⟩⟩
    · rintro ⟨hstep, hrest⟩
      obtain ⟨next, hnext⟩ := exists_add_iff (e := e).mpr hstep
      obtain ⟨e', he'⟩ := ih (e := next).mpr hrest
      exact ⟨e', next, hnext, he'⟩

theorem isExempt_iff (h : build steps = .ok e) (name : Text) :
    e.isExempt name = true ↔ name.trim = [] ∨ startsForeign name = true ∨
      ∃ step ∈ steps, step.exempts name = true := by
  rw [isExempt_foldlM h]
  simp [isExempt, isRuled, none, or_assoc]

/-- What an event has introduced is exempt: the whole text and each word of it. -/
theorem isExempt_of_introduced (h : build steps = .ok e) {events : List Event}
    (hmem : .introduced events ∈ steps) {event : Event} (hevent : event ∈ events) :
    e.isExempt event.after = true ∧ ∀ word ∈ words event.after, e.isExempt word = true := by
  have htrace : ∀ name ∈ traces event, e.isExempt name = true := by
    intro name hname
    refine (isExempt_iff h name).mpr (.inr (.inr ⟨_, hmem, ?_⟩))
    rw [Step.exempts, List.any_eq_true]
    exact ⟨event, hevent, by rw [← contains_traces]; simpa using hname⟩
  exact ⟨htrace _ List.mem_cons_self, fun word hword => htrace _ (List.mem_cons_of_mem _ hword)⟩

/-- A name is exempt by nature or by one of the steps. So what was introduced is exempt, each text
and each word of it, which after qualifying a text either way is the qualified form of each name
that was found; and no further step and no other order takes an exemption away. -/
theorem introduced_names_stay_exempt (h : build steps = .ok e) :
    (∀ name, e.isExempt name = true ↔ name.trim = [] ∨ startsForeign name = true ∨
      ∃ step ∈ steps, step.exempts name = true) ∧
    (∀ events, .introduced events ∈ steps → ∀ event ∈ events,
      e.isExempt event.after = true ∧ ∀ word ∈ words event.after, e.isExempt word = true) ∧
    (∀ (strategy : Strategy) (settings : Settings) (path : Path) (t : Text)
      (product : Run.Product), settings.fault? = .none →
      Run.qualify strategy settings path t = .ok product →
      .introduced product.events ∈ steps → ∀ event ∈ product.events, ∀ name ∈ words event.before,
        e.isExempt (ClassList.qualifyName settings.scope name) = true) ∧
    (∀ more others : List Step, others.Perm (steps ++ more) →
      (∀ step ∈ more, step.isReadable = true) →
      ∃ e', build others = .ok e' ∧ ∀ name, e.isExempt name = true → e'.isExempt name = true) := by
  refine ⟨isExempt_iff h, fun events hmem event => isExempt_of_introduced h hmem, ?_, ?_⟩
  · intro strategy settings path t product hvalid hproduct hmem event hevent name hname
    have hwords := Run.renames_qualify hvalid hproduct event hevent
    refine (isExempt_of_introduced h hmem hevent).2 _ ?_
    rw [hwords]
    exact List.mem_map_of_mem hname
  · intro more others hperm hmore
    have hreadable : ∀ step ∈ others, step.isReadable = true := by
      intro step hstep
      rcases List.mem_append.mp (hperm.mem_iff.mp hstep) with hold | hnew
      · exact exists_foldlM_iff.mp ⟨e, h⟩ step hold
      · exact hmore step hnew
    obtain ⟨e', he'⟩ := exists_foldlM_iff (e := none).mpr hreadable
    refine ⟨e', he', fun name hname => (isExempt_iff he' name).mpr ?_⟩
    refine ((isExempt_iff h name).mp hname).imp_right (Or.imp_right ?_)
    rintro ⟨step, hstep, hexempts⟩
    exact ⟨step, hperm.mem_iff.mpr (List.mem_append_left more hstep), hexempts⟩

def spacedSegment : Text := "<i className=\x7b`a $\x7bx\x7d`\x7d />;".toList

theorem spaced_segment_stays_exempt :
    ∃ product e e',
      Run.qualify .structural Settings.defaults "a.jsx".toList spacedSegment = .ok product ∧
      product.events.map (·.after) = ["app-a ".toList] ∧
      build [.pattern "^js-".toList, .introduced product.events, .exact "c".toList] = .ok e ∧
      build [.exact "c".toList, .pattern "x$".toList, .pattern "^js-".toList,
        .introduced product.events] = .ok e' ∧
      (e.isExempt "app-a ".toList = true ∧ e.isExempt "app-a".toList = true) ∧
      (e'.isExempt "app-a ".toList = true ∧ e'.isExempt "app-a".toList = true) ∧
      e.isExempt "a".toList = false := by
  have hread : (Run.qualify .structural Settings.defaults "a.jsx".toList spacedSegment).toOption.any
      (fun product => decide (product.events = [⟨"a ".toList, "app-a ".toList, 1⟩])) = true := by
    decide +kernel
  obtain ⟨product, hproduct, hdecided⟩ := exists_ok_of_any hread
  have hevents := of_decide_eq_true hdecided
  have hreadable : ∀ step ∈ [Step.pattern "^js-".toList, .introduced product.events,
      .exact "c".toList], step.isReadable = true := by
    rw [hevents]
    decide +kernel
  obtain ⟨e, he⟩ := exists_foldlM_iff (e := none).mpr hreadable
  obtain ⟨hiff, hintroduced, hengine, hstay⟩ := introduced_names_stay_exempt he
  obtain ⟨e', he', hkept⟩ := hstay [.pattern "x$".toList] [.exact "c".toList, .pattern "x$".toList,
    .pattern "^js-".toList, .introduced product.events]
    (@List.perm_append_comm _ [_, _] [_, _]) (by decide +kernel)
  have hevent : (⟨"a ".toList, "app-a ".toList, 1⟩ : Event) ∈ product.events := by simp [hevents]
  have hwhole := (hintroduced product.events (by simp) _ hevent).1
  have hname := hengine .structural Settings.defaults _ _ product (by decide +kernel) hproduct
    (by simp) _ hevent "a".toList (by decide +kernel)
  refine ⟨product, e, e', hproduct, by rw [hevents]; rfl, he, he', ⟨hwhole, hname⟩,
    ⟨hkept _ hwhole, hkept _ hname⟩, ?_⟩
  rw [Bool.eq_false_iff, Ne, hiff, hevents]
  decide +kernel

end Exemptions
end ClassScope
