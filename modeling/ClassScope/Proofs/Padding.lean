import ClassScope.Proofs.Exemption
import ClassScope.Proofs.Text.Trim

/-! Exemptions and the blanks around a name. Rules and blank names are decided on the trimmed name,
the first character and the texts that were introduced on the name as it is. So padding can take an
exemption away, where the first character or an introduced text gave it, and it can give one, where
a text was introduced with the padding. -/
namespace ClassScope.Exemptions
open Text

def Step.written (rule : Text) : Step :=
  match ExemptionRule.slashed? rule with
  | some inner => .pattern inner
  | .none => .exact rule

def Step.introduces : Step → List Text
  | introduced events => events.flatMap traces
  | _ => []

variable {start e e' : Exemptions} {step : Step} {steps : List Step} {name : Text}

theorem addWritten_eq (e : Exemptions) (rule : Text) :
    e.addWritten rule = (Step.written rule).add e := by
  unfold addWritten Step.written
  cases ExemptionRule.slashed? rule <;> rfl

theorem ofWritten_eq_build (rules : List Text) :
    ofWritten rules = build (rules.map Step.written) := by
  have hadd : addWritten = fun e rule => (Step.written rule).add e :=
    funext fun e => funext fun rule => addWritten_eq e rule
  rw [ofWritten, build, List.foldlM_map, hadd]

theorem introduced_add (h : step.add e = .ok e') :
    e'.introduced = e.introduced ++ step.introduces := by
  cases step with
  | exact rule =>
    cases h
    simp [Step.introduces, addExact]
  | pattern text =>
    simp only [Step.add, addPattern] at h
    split at h
    · cases h
      simp [Step.introduces]
    · cases h
  | introduced events =>
    cases h
    rfl

theorem introduced_foldlM (h : steps.foldlM Step.add e = .ok e') :
    e'.introduced = e.introduced ++ steps.flatMap Step.introduces := by
  induction steps generalizing e with
  | nil =>
    cases h
    simp
  | cons step steps ih =>
    obtain ⟨next, hstep, hrest⟩ := foldlM_add_cons.mp h
    rw [ih hrest, introduced_add hstep, List.flatMap_cons, List.append_assoc]

theorem introduced_ofWritten {rules : List Text} (h : ofWritten rules = .ok start) :
    start.introduced = [] := by
  have hsilent : (rules.map Step.written).flatMap Step.introduces = [] := by
    rw [List.flatMap_eq_nil_iff, List.forall_mem_map]
    intro rule _
    unfold Step.written
    split <;> rfl
  rw [ofWritten_eq_build] at h
  rw [introduced_foldlM h, hsilent]
  rfl

theorem mem_introduces_iff :
    name ∈ step.introduces ↔ ∃ events, step = .introduced events ∧ ∃ event ∈ events,
      event.after = name ∨ name ∈ words event.after := by
  cases step with
  | introduced events => simp [Step.introduces, traces, eq_comm]
  | exact rule => simp [Step.introduces]
  | pattern text => simp [Step.introduces]

/-- An event introduces its whole text as it is and the words of it, which have no blanks around
them. -/
theorem mem_introduced_iff (hstart : start.introduced = [])
    (h : steps.foldlM Step.add start = .ok e) (name : Text) :
    name ∈ e.introduced ↔ ∃ events, .introduced events ∈ steps ∧ ∃ event ∈ events,
      event.after = name ∨ name.trim = name ∧ name ∈ words event.after := by
  have hword : ∀ event : Event, name ∈ words event.after →
      name.trim = name ∧ name ∈ words event.after :=
    fun event hmem => ⟨trim_of_solid (solid_of_mem_words hmem), hmem⟩
  rw [introduced_foldlM h, hstart, List.nil_append, List.mem_flatMap]
  constructor
  · rintro ⟨step, hstep, hmem⟩
    obtain ⟨events, rfl, event, hevent, hafter⟩ := mem_introduces_iff.mp hmem
    exact ⟨events, hstep, event, hevent, hafter.imp_right (hword event)⟩
  · rintro ⟨events, hstep, event, hevent, hafter⟩
    exact ⟨_, hstep, mem_introduces_iff.mpr
      ⟨events, rfl, event, hevent, hafter.imp_right And.right⟩⟩

theorem isRuled_trim (e : Exemptions) (name : Text) : e.isRuled name.trim = e.isRuled name := by
  rw [isRuled, isRuled, trim_trim]

theorem not_blank_of_startsForeign {c : Char} {t : Text} (h : startsForeign (c :: t) = true) :
    isBlank c = false := by
  simp only [startsForeign, List.head?_cons, Option.any_some, Bool.or_eq_true, Bool.and_eq_true,
    decide_eq_true_eq, beq_iff_eq] at h
  rcases h with ⟨hlow, hhigh⟩ | rfl
  · have hlow' : 65 ≤ c.toNat := hlow
    have hhigh' : c.toNat ≤ 90 := hhigh
    simp only [isBlank, Bool.or_eq_false_iff, Bool.and_eq_false_iff, decide_eq_false_iff_not,
      beq_eq_false_iff_ne]
    omega
  · decide

theorem startsForeign_iff :
    startsForeign name = true ↔ atGap name = false ∧ startsForeign name.trim = true := by
  cases hgap : atGap name with
  | false => simp [startsForeign, head?_trim hgap]
  | true =>
    cases name with
    | nil => simp [startsForeign]
    | cons c t =>
      have hplain : ¬ startsForeign (c :: t) = true := by
        intro hforeign
        simp [not_blank_of_startsForeign hforeign] at hgap
      simp [hplain]

theorem isExempt_eq_true_iff (e : Exemptions) (name : Text) :
    e.isExempt name = true ↔ e.isRuled name = true ∨ name.trim = [] ∨
      startsForeign name = true ∨ name ∈ e.introduced := by
  simp [isExempt, or_assoc]

/-- A name that no rule and no first character exempts is exempt with its blanks if it was
introduced with them, and without them if it then starts like a foreign name or was introduced
so. -/
theorem isExempt_trim_iff (e : Exemptions) (name : Text) :
    e.isExempt name = e.isExempt name.trim ↔
      e.isRuled name = true ∨ name.trim = [] ∨ startsForeign name = true ∨
        (name ∈ e.introduced ↔ startsForeign name.trim = true ∨ name.trim ∈ e.introduced) := by
  rw [Bool.eq_iff_iff, isExempt_eq_true_iff, isExempt_eq_true_iff, isRuled_trim, trim_trim]
  by_cases hruled : e.isRuled name = true
  · simp [hruled]
  · by_cases hblank : name.trim = []
    · simp [hblank]
    · by_cases hforeign : startsForeign name = true
      · simp [hforeign, (startsForeign_iff.mp hforeign).2]
      · simp [hruled, hblank, hforeign]

/-- Rules do not see the blanks around a name, and the first character counts only without a blank
in front of it. So padding makes no difference exactly if a rule accepts the name, or it is blank,
or it starts like a foreign name without a blank in front, or it was introduced with its blanks just
in case without them it starts like a foreign name or was introduced. -/
theorem padding_is_unseen_iff {rules : List Text} (hwritten : ofWritten rules = .ok start)
    (hsteps : steps.foldlM Step.add start = .ok e) :
    (∀ name, e.isRuled name = e.isRuled name.trim) ∧
    (∀ name, startsForeign name = true ↔ atGap name = false ∧ startsForeign name.trim = true) ∧
    (∀ name, e.isExempt name = e.isExempt name.trim ↔
      e.isRuled name = true ∨ name.trim = [] ∨ startsForeign name = true ∨
        (name ∈ e.introduced ↔ startsForeign name.trim = true ∨ name.trim ∈ e.introduced)) ∧
    ∀ name, name ∈ e.introduced ↔ ∃ events, .introduced events ∈ steps ∧ ∃ event ∈ events,
      event.after = name ∨ name.trim = name ∧ name ∈ words event.after := by
  refine ⟨fun name => (isRuled_trim e name).symm, fun name => startsForeign_iff,
    fun name => isExempt_trim_iff e name, fun name => ?_⟩
  exact mem_introduced_iff (introduced_ofWritten hwritten) hsteps name

theorem padded_component_is_not_exempt :
    ∃ start e, ofWritten ["clearfix".toList] = .ok start ∧
      [Step.introduced [⟨"a b ".toList, "app-a app-b ".toList, 1⟩]].foldlM Step.add start = .ok e ∧
      (e.isExempt " Button".toList = false ∧ e.isExempt "Button".toList = true) ∧
      (e.isExempt "app-a app-b ".toList = true ∧ e.isExempt "app-a app-b".toList = false) ∧
      e.isExempt " clearfix ".toList = e.isExempt "clearfix".toList := by
  let start : Exemptions := ⟨[.exact "clearfix".toList], []⟩
  let e := start.addIntroduced [⟨"a b ".toList, "app-a app-b ".toList, 1⟩]
  have hwritten : ofWritten ["clearfix".toList] = .ok start := rfl
  have hsteps : [Step.introduced [⟨"a b ".toList, "app-a app-b ".toList, 1⟩]].foldlM Step.add
      start = .ok e := rfl
  obtain ⟨-, -, hiff, -⟩ := padding_is_unseen_iff hwritten hsteps
  have hbutton : e.isExempt " Button".toList ≠ e.isExempt "Button".toList := by
    refine (hiff " Button".toList).not.mpr ?_
    decide
  have hpair : e.isExempt "app-a app-b ".toList ≠ e.isExempt "app-a app-b".toList := by
    refine (hiff "app-a app-b ".toList).not.mpr ?_
    decide
  have hruled : e.isExempt " clearfix ".toList = e.isExempt "clearfix".toList :=
    (hiff " clearfix ".toList).mpr (.inl (by decide))
  have hexempt : e.isExempt "Button".toList = true := by decide
  have hwhole : e.isExempt "app-a app-b ".toList = true := by decide
  refine ⟨start, e, hwritten, hsteps, ⟨?_, hexempt⟩, ⟨hwhole, ?_⟩, hruled⟩
  · rwa [hexempt, Ne, Bool.not_eq_true] at hbutton
  · rwa [hwhole, ne_comm, Ne, Bool.not_eq_true] at hpair

end ClassScope.Exemptions
