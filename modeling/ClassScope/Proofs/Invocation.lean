import ClassScope.Invocation.Basic
import ClassScope.Proofs.Settings.Document

/-! The settings of a run, layer by layer. The single options of the command line lie over the
query, that over the options document, and that over the defaults; the last layer that speaks of a
setting decides it. Each layer is checked when it is put on, so a fault in one of them is reported
although a later one would have covered it. -/
namespace ClassScope.Invocation
open Settings Query

/-- What the single options of the command line say. They can switch debugging on and not off. -/
def flagLayer (i : Invocation) : Layer where
  scope := i.scope
  debugging := if i.debugging then some true else none
  attributeName := i.attributeName
  joinName := i.joinName

def queryLayer (i : Invocation) : Layer := i.query.elim {} Layer.ofQuery

/-- The layer says what the options document says, or nothing if there is none. -/
def DocumentSays (i : Invocation) (l : Layer) : Prop :=
  match i.options with
  | some document => Says document l
  | none => l = {}

variable {i : Invocation} {s d q : Settings} {f : Fault}

theorem flagged_eq (i : Invocation) (s : Settings) : i.flagged s = i.flagLayer.cover s := by
  cases h : i.debugging <;> simp [flagged, flagLayer, Layer.cover, h]

theorem documentSays_of_some {document : Text} (h : i.options = some document) (l : Layer) :
    i.DocumentSays l ↔ Says document l := by
  rw [DocumentSays, h]

theorem documentSays_of_none (h : i.options = none) (l : Layer) : i.DocumentSays l ↔ l = {} := by
  rw [DocumentSays, h]

theorem DocumentSays.unique {l k : Layer} (hl : i.DocumentSays l) (hk : i.DocumentSays k) :
    l = k := by
  cases hoptions : i.options with
  | some document =>
    rw [documentSays_of_some hoptions] at hl hk
    exact hl.unique hk
  | none =>
    rw [documentSays_of_none hoptions] at hl hk
    exact hl.trans hk.symm

theorem covers_of_documented (h : i.documented = .ok d) :
    ∃ l, i.DocumentSays l ∧ d = l.cover defaults := by
  cases hoptions : i.options with
  | some document =>
    rw [documented, hoptions] at h
    simp only [documentSays_of_some hoptions]
    cases hread : ofOptions? document with
    | some s =>
      simp only [ofOptions, hread] at h
      obtain ⟨rfl, -⟩ := validated_eq_ok_iff.mp h
      rw [ofOptions?_eq_readOver?] at hread
      exact exists_says hread
    | none => simp [ofOptions, hread] at h
  | none =>
    rw [documented, hoptions] at h
    cases h
    exact ⟨{}, (documentSays_of_none hoptions _).mpr rfl, rfl⟩

theorem covers_of_queried (h : i.queried d = .ok q) : q = i.queryLayer.cover d := by
  cases hquery : i.query with
  | some query =>
    rw [queried, hquery] at h
    rw [queryLayer, hquery]
    exact (applyQuery_eq_ok_iff.mp h).2.1
  | none =>
    rw [queried, hquery] at h
    cases h
    rw [queryLayer, hquery]
    rfl

theorem bind_eq_ok_iff {x : Except Fault Settings} {g : Settings → Except Fault Settings} :
    x.bind g = .ok s ↔ ∃ d, x = .ok d ∧ g d = .ok s := by
  cases x <;> simp [Except.bind]

theorem bind_eq_error_iff {x : Except Fault Settings} {g : Settings → Except Fault Settings} :
    x.bind g = .error f ↔ x = .error f ∨ ∃ d, x = .ok d ∧ g d = .error f := by
  cases x <;> simp [Except.bind]

theorem settings_eq_bind (i : Invocation) :
    i.settings = i.documented.bind fun d => (i.queried d).bind fun q => (i.flagged q).validated :=
  rfl

theorem settings_eq_ok_iff :
    i.settings = .ok s ↔ ∃ d q, i.documented = .ok d ∧ i.queried d = .ok q ∧
      s = i.flagged q ∧ s.fault? = none := by
  simp only [settings_eq_bind, bind_eq_ok_iff, validated_eq_ok_iff, exists_and_left]

theorem settings_eq_error_iff :
    i.settings = .error f ↔ i.documented = .error f ∨
      (∃ d, i.documented = .ok d ∧ i.queried d = .error f) ∨
      ∃ d q, i.documented = .ok d ∧ i.queried d = .ok q ∧ (i.flagged q).fault? = some f := by
  simp only [settings_eq_bind, bind_eq_error_iff, validated_eq_error_iff, and_or_left, exists_or,
    exists_and_left]

/-- Whatever the options document says, the settings are the layers one over the other. -/
theorem covers_of_settings {l : Layer} (h : i.settings = .ok s) (hl : i.DocumentSays l) :
    s = (i.flagLayer.onto (i.queryLayer.onto l)).cover defaults := by
  obtain ⟨d, q, hd, hq, rfl, -⟩ := settings_eq_ok_iff.mp h
  obtain ⟨k, hk, rfl⟩ := covers_of_documented hd
  obtain rfl : k = l := hk.unique hl
  rw [Layer.cover_onto, Layer.cover_onto, flagged_eq, covers_of_queried hq]

/-- There are settings exactly if the options document, the query on top of it and the single
options on top of both are accepted. Then each setting is what the last layer says that speaks of
it, or its default; and debugging is on if the single options switch it on. Otherwise the fault is
that of the first layer that is not accepted. -/
theorem last_layer_that_speaks_wins (i : Invocation) :
    (∀ s, i.settings = .ok s ↔ ∃ d q, i.documented = .ok d ∧ i.queried d = .ok q ∧
      s = i.flagged q ∧ s.fault? = none) ∧
    (∀ s, i.settings = .ok s → s.fault? = none ∧ (∃ l, i.DocumentSays l) ∧
      ∀ l, i.DocumentSays l →
        s.scope =
          (i.scope.or ((i.query.bind (param? "prefix".toList)).or l.scope)).getD defaults.scope ∧
        s.attributeName =
          (i.attributeName.or ((i.query.bind (param? "attributeName".toList)).or
            l.attributeName)).getD defaults.attributeName ∧
        s.joinName =
          (i.joinName.or ((i.query.bind (param? "joinCallName".toList)).or l.joinName)).getD
            defaults.joinName ∧
        s.debugging =
          (i.debugging || (((i.query.bind (param? "enableDebugging".toList)).bind flag?).or
            l.debugging).getD false)) ∧
    ∀ f, i.settings = .error f ↔ i.documented = .error f ∨
      (∃ d, i.documented = .ok d ∧ i.queried d = .error f) ∨
      ∃ d q, i.documented = .ok d ∧ i.queried d = .ok q ∧ (i.flagged q).fault? = some f := by
  refine ⟨fun s => settings_eq_ok_iff, fun s h => ?_, fun f => settings_eq_error_iff⟩
  obtain ⟨d, q, hd, -, -, hvalid⟩ := settings_eq_ok_iff.mp h
  obtain ⟨k, hk, -⟩ := covers_of_documented hd
  refine ⟨hvalid, ⟨k, hk⟩, fun l hl => ?_⟩
  have hquery : i.queryLayer = ⟨i.query.bind (param? "prefix".toList),
      (i.query.bind (param? "enableDebugging".toList)).bind flag?,
      i.query.bind (param? "attributeName".toList),
      i.query.bind (param? "joinCallName".toList)⟩ := by
    unfold queryLayer
    cases i.query <;> rfl
  rw [covers_of_settings h hl, hquery]
  refine ⟨rfl, rfl, rfl, ?_⟩
  cases hon : i.debugging with
  | true =>
    simp only [Layer.cover, Layer.onto, flagLayer, hon, if_true, Bool.true_or]
    rfl
  | false =>
    simp only [Layer.cover, Layer.onto, flagLayer, hon]
    rfl

def threeLayers : Invocation where
  paths := []
  scope := some "flag".toList
  attributeName := none
  joinName := none
  options := some
    "\x7b \"prefix\": \"json\", \"attributeName\": \"class\", \"enableDebugging\": true \x7d".toList
  query := some "?prefix=query&joinCallName=cx&enableDebugging=0".toList
  debugging := false
  debugLog := "classnames.log".toList
  strategy := .structural
  write := false
  outFolder := none
  ignored := []
  format := .human
  verbose := false

/-- Three layers, with a scope in the options document that nothing may be qualified by. -/
def coveredFault : Invocation :=
  { threeLayers with options := some "[\"a b\"]".toList }

theorem three_layers_are_resolved :
    (∃ s l, threeLayers.settings = .ok s ∧ threeLayers.DocumentSays l ∧
      l.scope = some "json".toList ∧ l.debugging = some true ∧
      (s.scope = "flag".toList ∧ s.attributeName = "class".toList ∧ s.joinName = "cx".toList ∧
        s.debugging = false)) ∧
      coveredFault.settings = .error (.badScope "a b".toList) := by
  constructor
  · obtain ⟨hok, hfields, -⟩ := last_layer_that_speaks_wins threeLayers
    have hsettings : threeLayers.settings =
        .ok ⟨"flag".toList, false, "class".toList, "cx".toList⟩ :=
      (hok _).mpr ⟨⟨"json".toList, true, "class".toList, "classnames".toList⟩,
        ⟨"query".toList, false, "class".toList, "cx".toList⟩, rfl, rfl, rfl, rfl⟩
    have hsaid : threeLayers.DocumentSays
        ⟨some "json".toList, some true, some "class".toList, none⟩ := fun s => rfl
    obtain ⟨-, -, hlayers⟩ := hfields _ hsettings
    exact ⟨_, _, hsettings, hsaid, rfl, rfl, hlayers _ hsaid⟩
  · obtain ⟨-, -, hfault⟩ := last_layer_that_speaks_wins coveredFault
    exact (hfault _).mpr (.inl rfl)

end ClassScope.Invocation
