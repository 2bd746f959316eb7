import ClassScope.Settings.Basic

/-! Layers of settings. A layer speaks of some settings and leaves the others to the layer below it,
so of two layers the upper one wins wherever it speaks. A query is a layer, and so is an options
document: whatever settings it is read over, it replaces the same ones by the same values. -/
namespace ClassScope.Settings
open Query

structure Layer where
  scope : Option Text := none
  debugging : Option Bool := none
  attributeName : Option Text := none
  joinName : Option Text := none
  deriving DecidableEq, Repr

namespace Layer

def cover (l : Layer) (s : Settings) : Settings where
  scope := l.scope.getD s.scope
  debugging := l.debugging.getD s.debugging
  attributeName := l.attributeName.getD s.attributeName
  joinName := l.joinName.getD s.joinName

/-- Two layers as one: the first where it speaks, and else the second. -/
def onto (l k : Layer) : Layer where
  scope := l.scope.or k.scope
  debugging := l.debugging.or k.debugging
  attributeName := l.attributeName.or k.attributeName
  joinName := l.joinName.or k.joinName

theorem cover_onto (l k : Layer) (s : Settings) : (l.onto k).cover s = l.cover (k.cover s) := by
  simp only [onto, cover, Option.getD_or]

theorem eq_of_getD_eq {α : Type} {a b : Option α} {x y : α} (hne : x ≠ y)
    (hx : a.getD x = b.getD x) (hy : a.getD y = b.getD y) : a = b := by
  cases a <;> cases b <;> simp_all

theorem ext_cover {l k : Layer} (h : ∀ s, l.cover s = k.cover s) : l = k := by
  let blank : Settings := ⟨[], false, [], []⟩
  let marked : Settings := ⟨['-'], true, ['-'], ['-']⟩
  have hblank := h blank
  have hmarked := h marked
  simp only [cover, Settings.mk.injEq] at hblank hmarked
  obtain ⟨hscope, hdebugging, hattribute, hjoin⟩ := hblank
  obtain ⟨hscope', hdebugging', hattribute', hjoin'⟩ := hmarked
  rw [Layer.mk.injEq]
  exact ⟨eq_of_getD_eq (by decide) hscope hscope',
    eq_of_getD_eq (by decide) hdebugging hdebugging',
    eq_of_getD_eq (by decide) hattribute hattribute', eq_of_getD_eq (by decide) hjoin hjoin'⟩

def ofQuery (query : Text) : Layer where
  scope := param? "prefix".toList query
  debugging := (param? "enableDebugging".toList query).bind flag?
  attributeName := param? "attributeName".toList query
  joinName := param? "joinCallName".toList query

end Layer

theorem validated_eq_ok_iff {s s' : Settings} :
    s.validated = .ok s' ↔ s' = s ∧ s'.fault? = none := by
  unfold validated
  split
  · rename_i f hf
    refine ⟨nofun, ?_⟩
    rintro ⟨rfl, hnone⟩
    rw [hf] at hnone
    cases hnone
  · rename_i hnone
    constructor
    · rintro ⟨⟩
      exact ⟨rfl, hnone⟩
    · rintro ⟨rfl, -⟩
      rfl

theorem validated_eq_error_iff {s : Settings} {f : Fault} :
    s.validated = .error f ↔ s.fault? = some f := by
  unfold validated
  split
  · rename_i g hg
    rw [hg]
    exact ⟨fun h => by cases h; rfl, fun h => by cases h; rfl⟩
  · rename_i hnone
    rw [hnone]
    exact ⟨nofun, nofun⟩

/-- What a query says about debugging means something, if it says anything. -/
def FlagIsRead (query : Text) : Prop :=
  ∀ v ∈ param? "enableDebugging".toList query, (flag? v).isSome = true

theorem applyQuery_of_flagIsRead (s : Settings) {query : Text} (h : FlagIsRead query) :
    s.applyQuery query = ((Layer.ofQuery query).cover s).validated := by
  cases hparam : param? "enableDebugging".toList query with
  | none =>
    rw [applyQuery, hparam, Layer.cover, Layer.ofQuery, hparam]
    rfl
  | some v =>
    obtain ⟨on, hon⟩ := Option.isSome_iff_exists.mp (h v hparam)
    simp only [applyQuery, Layer.cover, Layer.ofQuery, hparam, Option.bind_some, hon]
    rfl

theorem applyQuery_of_flag?_eq_none (s : Settings) {query v : Text}
    (hparam : param? "enableDebugging".toList query = some v) (hflag : flag? v = none) :
    s.applyQuery query = .error (.badValue "enableDebugging".toList v) := by
  simp only [applyQuery, hparam, hflag]

theorem exists_of_not_flagIsRead {query : Text} (h : ¬ FlagIsRead query) :
    ∃ v, param? "enableDebugging".toList query = some v ∧ flag? v = none := by
  simpa [FlagIsRead] using h

theorem applyQuery_eq_ok_iff {s s' : Settings} {query : Text} :
    s.applyQuery query = .ok s' ↔
      FlagIsRead query ∧ s' = (Layer.ofQuery query).cover s ∧ s'.fault? = none := by
  by_cases hread : FlagIsRead query
  · rw [applyQuery_of_flagIsRead s hread, validated_eq_ok_iff, and_iff_right hread]
  · obtain ⟨v, hparam, hflag⟩ := exists_of_not_flagIsRead hread
    rw [applyQuery_of_flag?_eq_none s hparam hflag]
    exact ⟨nofun, fun h => absurd h.1 hread⟩

end ClassScope.Settings
