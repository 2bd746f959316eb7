import ClassScope.Proofs.Evaluation

/-! The names of a template with its values put in. A name of the whole text is a row of runs, each
of them a word of one segment or of one value, and two runs stand in one row where no blank parts
them. Qualifying the segments keeps these rows and puts the scope in front of every run that comes
from a segment. -/
namespace ClassScope

namespace Text

/-- Two lists of rows of which the last of the one and the first of the other are one row. -/
def glue {α : Type} : List (List α) → List (List α) → List (List α)
  | [], ys => ys
  | [x], [] => [x]
  | [x], y :: ys => (x ++ y) :: ys
  | x :: x' :: xs, ys => x :: glue (x' :: xs) ys

/-- Two lists of rows one after the other, glued if they are `joined`. -/
def meet {α : Type} (joined : Bool) (xs ys : List (List α)) : List (List α) :=
  if joined then glue xs ys else xs ++ ys

section Meet

variable {α β : Type}

theorem flatten_glue (xs ys : List (List α)) :
    (glue xs ys).flatten = xs.flatten ++ ys.flatten := by
  fun_induction glue xs ys with
  | case1 ys => simp
  | case2 x => simp
  | case3 x y ys => simp
  | case4 x x' xs ys ih => simp [ih]

theorem flatten_meet (joined : Bool) (xs ys : List (List α)) :
    (meet joined xs ys).flatten = xs.flatten ++ ys.flatten := by
  cases joined with
  | true => exact flatten_glue xs ys
  | false => exact List.flatten_append

theorem map_glue {f : List α → List β} (hf : ∀ x y, f (x ++ y) = f x ++ f y)
    (xs ys : List (List α)) : (glue xs ys).map f = glue (xs.map f) (ys.map f) := by
  fun_induction glue xs ys with
  | case1 ys => simp [glue]
  | case2 x => simp [glue]
  | case3 x y ys => simp [glue, hf]
  | case4 x x' xs ys ih => simpa [glue] using ih

theorem map_meet {f : List α → List β} (hf : ∀ x y, f (x ++ y) = f x ++ f y) (joined : Bool)
    (xs ys : List (List α)) : (meet joined xs ys).map f = meet joined (xs.map f) (ys.map f) := by
  cases joined with
  | true => exact map_glue hf xs ys
  | false => exact List.map_append

theorem glue_grown (a : α) (x : List α) (xs ys : List (List α)) :
    ∃ y zs, glue (x :: xs) ys = y :: zs ∧ glue ((a :: x) :: xs) ys = (a :: y) :: zs := by
  cases xs with
  | nil =>
    cases ys with
    | nil => exact ⟨x, [], rfl, rfl⟩
    | cons y ys => exact ⟨x ++ y, ys, rfl, rfl⟩
  | cons x' xs => exact ⟨x, glue (x' :: xs) ys, rfl, rfl⟩

end Meet

theorem words_append (s t : Text) : words (s ++ t) = meet (touch s t) (words s) (words t) := by
  induction s with
  | nil => simp [touch, meet]
  | cons c s ih =>
    by_cases hs : s = []
    · subst hs
      cases hc : isBlank c with
      | true => simp [words, touch, meet, hc]
      | false =>
        cases hg : atGap t with
        | true => simp [words, touch, meet, hc, hg]
        | false =>
          obtain ⟨w, ws, hw⟩ := List.exists_cons_of_ne_nil (words_ne_nil_of_not_atGap hg)
          simp [words, touch, meet, glue, hc, hg, hw]
    · have hgap : atGap (s ++ t) = atGap s := by simp [hs]
      rw [List.cons_append, touch_cons hs, words, words, hgap, ih]
      cases hc : isBlank c with
      | true => simp
      | false =>
        cases htouch : touch s t with
        | false =>
          cases hg : atGap s with
          | true => simp [meet]
          | false =>
            obtain ⟨w, ws, hw⟩ := List.exists_cons_of_ne_nil (words_ne_nil_of_not_atGap hg)
            simp [meet, hw]
        | true =>
          -- The text in front ends in the middle of a word, so it has one.
          have hne : words s ≠ [] := by
            intro hnone
            simp [touch, (atGap_of_words_eq_nil hnone).2] at htouch
          obtain ⟨w, ws, hw⟩ := List.exists_cons_of_ne_nil hne
          cases hg : atGap s with
          | true => simp [meet, hw, glue]
          | false =>
            obtain ⟨y, zs, hy, hgrown⟩ := glue_grown c w ws (words t)
            simp [meet, hw, hy, hgrown]

end Text

open Text ClassList

/-- A part of a template with its values put in. -/
inductive Part where
  | segment (text : Text)
  | value (text : Text)
  deriving DecidableEq, Repr

namespace Part

def text : Part → Text
  | segment t | value t => t

/-- The words of a part, each with where it comes from. -/
def runs : Part → List Part
  | segment t => (words t).map segment
  | value t => (words t).map value

def qualified (scope : Text) : Part → Part
  | segment t => segment (qualifyName scope t)
  | value t => value t

theorem map_text_runs (p : Part) : p.runs.map text = words p.text := by
  cases p <;> simp [runs, text, Function.comp_def]

def row (segments values : List Text) : List Part :=
  weave (segments.map segment) (values.map value)

theorem row_cons (t v : Text) (ts vs : List Text) :
    row (t :: ts) (v :: vs) = segment t :: value v :: row ts vs := by
  simp [row, weave]

theorem flatMap_text_row (segments values : List Text) :
    (row segments values).flatMap text = (weave segments values).flatten := by
  rw [row, List.flatMap_def, map_weave]
  simp [Function.comp_def, text]

/-- The names of a row of parts, each as the row of runs that it is made of. -/
def names : List Part → List (List Part)
  | [] => []
  | p :: ps => meet (touch p.text (ps.flatMap text)) (p.runs.map ([·])) (names ps)

theorem flatten_names (ps : List Part) : (names ps).flatten = ps.flatMap runs := by
  induction ps with
  | nil => rfl
  | cons p ps ih =>
    have hruns : (p.runs.map ([·])).flatten = p.runs := by
      rw [← List.flatMap_def, List.flatMap_singleton']
    rw [names, flatten_meet, hruns, ih, List.flatMap_cons]

theorem map_names (ps : List Part) :
    (names ps).map (·.flatMap text) = words (ps.flatMap text) := by
  induction ps with
  | nil => rfl
  | cons p ps ih =>
    have hruns : (p.runs.map ([·])).map (·.flatMap text) = words p.text := by
      simp [← map_text_runs]
    rw [names, map_meet (fun _ _ => List.flatMap_append), ih, hruns, List.flatMap_cons,
      words_append]

end Part

namespace ClassList

variable {scope : Text}

/-- Towards an interpolation in front a segment ends as before. -/
theorem atGap_qualifySegment (hscope : ∀ c ∈ scope, isBlank c = false) (before : Bool) (t : Text) :
    atGap (qualifySegment scope ⟨true, before⟩ t) = atGap t := by
  rw [← Rim.lead_of, ← Rim.lead_of, Rim.of_qualifySegment hscope]
  cases Rim.of t <;> simp [Rim.placed, Rim.lead]

theorem atGap_reverse_qualifySegment (hscope : ∀ c ∈ scope, isBlank c = false) (after : Bool)
    (t : Text) : atGap (qualifySegment scope ⟨after, true⟩ t).reverse = atGap t.reverse := by
  rw [← Rim.trail_of, ← Rim.trail_of, Rim.of_qualifySegment hscope]
  cases Rim.of t <;> simp [Rim.placed, Rim.trail]

theorem qualifySegment_eq_nil_iff (hscope : ∀ c ∈ scope, isBlank c = false) (before : Bool)
    (t : Text) : qualifySegment scope ⟨true, before⟩ t = [] ↔ t = [] := by
  rw [← Rim.of_eq_void_iff, ← Rim.of_eq_void_iff, Rim.of_qualifySegment hscope]
  cases Rim.of t <;> simp [Rim.placed]

def qualifiedSegments (scope : Text) (after : Bool) : List Text → List Text
  | [] => []
  | t :: ts =>
    qualifySegment scope ⟨after, !ts.isEmpty⟩ t :: qualifiedSegments scope true ts

theorem mapIdx_qualifySegment (after : Bool) (ts : List Text) :
    (ts.mapIdx fun i t =>
      qualifySegment scope ⟨after || decide (0 < i), decide (i + 1 < ts.length)⟩ t) =
      qualifiedSegments scope after ts := by
  induction ts generalizing after with
  | nil => rfl
  | cons t ts ih =>
    have hbefore : decide (0 + 1 < (t :: ts).length) = !ts.isEmpty := by cases ts <;> simp
    rw [List.mapIdx_cons, qualifiedSegments, ← ih true, hbefore]
    simp

end ClassList

namespace Part

variable {scope : Text}

theorem runs_qualifySegment (hscope : ∀ c ∈ scope, isBlank c = false) (place : ClassList.Place)
    (t : Text) :
    (segment (qualifySegment scope place t)).runs = (segment t).runs.map (qualified scope) := by
  simp [runs, words_qualifySegment hscope, Function.comp_def, qualified]

theorem map_qualified_runs (scope t : Text) :
    (value t).runs.map (qualified scope) = (value t).runs := by
  simp [runs, Function.comp_def, qualified]

theorem row_qualified (after : Bool) {t v : Text} {ts vs : List Text} (hts : ts ≠ []) :
    row (qualifiedSegments scope after (t :: ts)) (v :: vs) =
      segment (qualifySegment scope ⟨after, true⟩ t) :: value v ::
        row (qualifiedSegments scope true ts) vs := by
  have hbefore : (!ts.isEmpty) = true := by simpa using hts
  rw [qualifiedSegments, hbefore, row_cons]

theorem atGap_row_qualified (hscope : ∀ c ∈ scope, isBlank c = false)
    {segments values : List Text} (hlen : segments.length = values.length + 1) :
    atGap ((row (qualifiedSegments scope true segments) values).flatMap text) =
      atGap ((row segments values).flatMap text) := by
  induction segments generalizing values with
  | nil => simp at hlen
  | cons t ts ih =>
    cases values with
    | nil =>
      obtain rfl : ts = [] := by simpa using hlen
      have hstart := atGap_qualifySegment hscope false t
      simpa [qualifiedSegments, row, weave, text] using hstart
    | cons v vs =>
      have hts : ts ≠ [] := by
        rintro rfl
        simp at hlen
      have hrest : ts.length = vs.length + 1 := by simpa using hlen
      have hempty := qualifySegment_eq_nil_iff hscope true t
      have hstart := atGap_qualifySegment hscope true t
      rw [row_qualified true hts, row_cons]
      by_cases ht : t = []
      · subst ht
        have hnone := hempty.mpr rfl
        by_cases hv : v = [] <;> simp [text, hnone, hv, ih hrest]
      · have hne : qualifySegment scope ⟨true, true⟩ t ≠ [] := fun h => ht (hempty.mp h)
        simp [text, hne, ht, hstart]

/-- Qualifying the segments keeps the rows and changes only the runs of segments. -/
theorem names_qualified (hscope : ∀ c ∈ scope, isBlank c = false) (after : Bool)
    {segments values : List Text} (hlen : segments.length = values.length + 1) :
    names (row (qualifiedSegments scope after segments) values) =
      (names (row segments values)).map (List.map (qualified scope)) := by
  induction segments generalizing after values with
  | nil => simp at hlen
  | cons t ts ih =>
    have hrows : ∀ p q : Part, q.runs = p.runs.map (qualified scope) →
        q.runs.map ([·]) = (p.runs.map ([·])).map (List.map (qualified scope)) := by
      intro p q hq
      simp [hq]
    cases values with
    | nil =>
      obtain rfl : ts = [] := by simpa using hlen
      have hsegment := hrows _ _ (runs_qualifySegment hscope ⟨after, false⟩ t)
      simp [qualifiedSegments, row, weave, names, touch, meet, hsegment]
    | cons v vs =>
      have hts : ts ≠ [] := by
        rintro rfl
        simp at hlen
      have hrest : ts.length = vs.length + 1 := by simpa using hlen
      have hnames := ih true hrest
      have hgap := atGap_row_qualified hscope hrest
      have hfollow : atGap ((value v :: row (qualifiedSegments scope true ts) vs).flatMap text) =
          atGap ((value v :: row ts vs).flatMap text) := by
        by_cases hv : v = [] <;> simp [text, hv, hgap]
      -- Where two runs met they still do: no end at an interpolation has gained or lost its blank.
      have hmeets : touch (qualifySegment scope ⟨after, true⟩ t)
          ((value v :: row (qualifiedSegments scope true ts) vs).flatMap text) =
          touch t ((value v :: row ts vs).flatMap text) := by
        rw [touch, touch, hfollow, atGap_reverse_qualifySegment hscope]
      have hmeets' : touch v ((row (qualifiedSegments scope true ts) vs).flatMap text) =
          touch v ((row ts vs).flatMap text) := by
        rw [touch, touch, hgap]
      have happend : ∀ x y : List Part,
          (x ++ y).map (qualified scope) = x.map (qualified scope) ++ y.map (qualified scope) :=
        fun _ _ => List.map_append
      have hsegment := hrows _ _ (runs_qualifySegment hscope ⟨after, true⟩ t)
      have hvalue := hrows _ _ (map_qualified_runs scope v).symm
      rw [row_qualified after hts, row_cons, names, names, names, names, map_meet happend,
        map_meet happend, hnames, ← hsegment, ← hvalue]
      simp only [text, hmeets, hmeets']

/-- A blank stands between every segment and the values beside it; the first and the last segment
may be empty. -/
def Parted (segments : List Text) : Prop :=
  ∀ (i : Nat) (h : i < segments.length),
    (0 < i → startsBlank segments[i] = true ∨ segments[i] = [] ∧ i + 1 = segments.length) ∧
    (i + 1 < segments.length → endsBlank segments[i] = true ∨ segments[i] = [] ∧ i = 0)

instance (segments : List Text) : Decidable (Parted segments) :=
  inferInstanceAs (Decidable (∀ (i : Nat) (h : i < segments.length),
    (0 < i → startsBlank segments[i] = true ∨ segments[i] = [] ∧ i + 1 = segments.length) ∧
    (i + 1 < segments.length → endsBlank segments[i] = true ∨ segments[i] = [] ∧ i = 0)))

theorem atGap_append_of_startsBlank {t : Text} (h : startsBlank t = true) (u : Text) :
    atGap (t ++ u) = true := by
  cases t with
  | nil => simp [startsBlank] at h
  | cons c t => exact h

/-- Segments that are parted from their values make no name together with one. The segments are the
last ones of a template, behind `k` others. -/
theorem names_of_parted {k : Nat} {segments values : List Text}
    (hlen : segments.length = values.length + 1)
    (h : ∀ (i : Nat) (hi : i < segments.length),
      (0 < i + k → startsBlank segments[i] = true ∨ segments[i] = [] ∧ i + 1 = segments.length) ∧
      (i + 1 < segments.length → endsBlank segments[i] = true ∨ segments[i] = [] ∧ i + k = 0)) :
    names (row segments values) = ((row segments values).flatMap runs).map ([·]) ∧
      (0 < k → atGap ((row segments values).flatMap text) = true) := by
  induction segments generalizing k values with
  | nil => simp at hlen
  | cons t ts ih =>
    obtain ⟨hstart, hend⟩ := h 0 (by simp)
    simp only [List.getElem_cons_zero, Nat.zero_add] at hstart hend
    cases values with
    | nil =>
      obtain rfl : ts = [] := by simpa using hlen
      refine ⟨by simp [row, weave, names, touch, meet], fun hk => ?_⟩
      rcases hstart hk with hblank | ⟨rfl, -⟩
      · simpa [row, weave, text] using atGap_append_of_startsBlank hblank []
      · rfl
    | cons v vs =>
      have hlt : 1 < (t :: ts).length := by simp at hlen ⊢; omega
      have htail : ∀ (i : Nat) (hi : i < ts.length),
          (0 < i + (k + 1) → startsBlank ts[i] = true ∨ ts[i] = [] ∧ i + 1 = ts.length) ∧
          (i + 1 < ts.length → endsBlank ts[i] = true ∨ ts[i] = [] ∧ i + (k + 1) = 0) := by
        intro i hi
        obtain ⟨hs, he⟩ := h (i + 1) (by simpa using hi)
        simp only [List.getElem_cons_succ, List.length_cons, Nat.add_lt_add_iff_right,
          Nat.add_right_cancel_iff] at hs he
        exact ⟨fun _ => hs (by omega), fun hi' => (he hi').imp_right fun he => ⟨he.1, by omega⟩⟩
      have hrest : ts.length = vs.length + 1 := by simpa using hlen
      obtain ⟨hnames, hgap⟩ := ih hrest htail
      have hvalue : touch v ((row ts vs).flatMap text) = false := by
        simp [touch, hgap (Nat.succ_pos k)]
      have hsegment : touch t (v ++ (row ts vs).flatMap text) = false := by
        rcases hend hlt with hblank | ⟨rfl, -⟩
        · have hgap : atGap t.reverse = true := by
            simpa using atGap_append_of_startsBlank hblank []
          simp [touch, hgap]
        · rfl
      rw [row_cons]
      refine ⟨?_, fun hk => ?_⟩
      · simp [names, text, hvalue, hsegment, meet, hnames]
      · rcases hstart hk with hblank | ⟨-, hlast⟩
        · exact atGap_append_of_startsBlank hblank _
        · exact absurd hlast (Nat.ne_of_lt hlt)

/-- The runs of a row, with the scope in front of those that come from a segment. -/
theorem flatMap_runs_row (scope : Text) (segments values : List Text) :
    ((row segments values).flatMap runs).map (fun p => (p.qualified scope).text) =
      (weave (segments.map fun t => (words t).map (qualifyName scope))
        (values.map words)).flatten := by
  have hsegment : ∀ t, (segment t).runs.map (fun p => (p.qualified scope).text) =
      (words t).map (qualifyName scope) := by
    intro t
    simp [runs, qualified, text, Function.comp_def]
  have hvalue : ∀ t, (value t).runs.map (fun p => (p.qualified scope).text) = words t := by
    intro t
    simp [runs, qualified, text, Function.comp_def]
  rw [List.map_flatMap, List.flatMap_def, row, map_weave]
  simp [Function.comp_def, hsegment, hvalue]

/-- With the segments qualified a template has as many names as before: each is the row of the same
runs, with the scope in front of those that come from a segment. If blanks part the segments from
the values, the names are those of the segments, qualified, and of the values, as they are. -/
theorem interpolated_names_stay_apart {settings : Settings} (h : settings.fault? = none)
    {segments values : List Text} (hlen : segments.length = values.length + 1) :
    let new := segments.mapIdx fun i t => qualifySegment settings.scope
      ⟨decide (0 < i), decide (i + 1 < segments.length)⟩ t
    (words (weave new values).flatten).length = (words (weave segments values).flatten).length ∧
    (∃ rows : List (List Part), rows.flatten = (row segments values).flatMap runs ∧
      words (weave segments values).flatten = rows.map (·.flatMap text) ∧
      words (weave new values).flatten =
        rows.map fun r => (r.map (qualified settings.scope)).flatMap text) ∧
    (Parted segments → words (weave new values).flatten =
      (weave (segments.map fun t => (words t).map (qualifyName settings.scope))
        (values.map words)).flatten) := by
  intro new
  have hscope := Settings.scope_solid h
  have hnew : new = qualifiedSegments settings.scope false segments := by
    rw [← mapIdx_qualifySegment]
    simp [new]
  have hold : words (weave segments values).flatten =
      (names (row segments values)).map (·.flatMap text) := by
    rw [map_names, flatMap_text_row]
  have hwords : words (weave new values).flatten =
      (names (row segments values)).map fun r =>
        (r.map (qualified settings.scope)).flatMap text := by
    rw [hnew, ← flatMap_text_row, ← map_names, names_qualified hscope false hlen, List.map_map]
    rfl
  refine ⟨by rw [hold, hwords, List.length_map, List.length_map],
    ⟨names (row segments values), flatten_names _, hold, hwords⟩, fun hparted => ?_⟩
  obtain ⟨hnames, -⟩ := names_of_parted (k := 0) hlen hparted
  rw [hwords, hnames, ← flatMap_runs_row, List.map_map]
  simp [Function.comp_def]

/-- A value between two segments that touch it, and an empty value. -/
theorem name_of_runs_is_qualified :
    Settings.defaults.fault? = none ∧
    (∃ rows : List (List Part),
      rows.flatten = (row (["a b-", "-c", " d "].map String.toList)
        (["x y", ""].map String.toList)).flatMap runs ∧
      rows.map (·.flatMap text) = ["a", "b-x", "y-c", "d"].map String.toList ∧
      (rows.map fun r => (r.map (qualified Settings.defaults.scope)).flatMap text) =
        ["app-a", "app-b-x", "yapp--c", "app-d"].map String.toList) ∧
    Parted (["", " a b ", " c"].map String.toList) ∧
    (weave ((["", " a b ", " c"].map String.toList).map fun t =>
      (words t).map (qualifyName Settings.defaults.scope))
      ((["x", "y z"].map String.toList).map words)).flatten =
        ["x", "app-a", "app-b", "y", "z", "app-c"].map String.toList := by
  have hvalid : Settings.defaults.fault? = none := by decide +kernel
  have hparted : Parted (["", " a b ", " c"].map String.toList) := by decide +kernel
  have htouching : (["a b-", "-c", " d "].map String.toList).length =
      (["x y", ""].map String.toList).length + 1 := rfl
  have hspaced : (["", " a b ", " c"].map String.toList).length =
      (["x", "y z"].map String.toList).length + 1 := rfl
  obtain ⟨-, ⟨rows, hruns, hold, hnew⟩, -⟩ := interpolated_names_stay_apart hvalid htouching
  obtain ⟨-, -, hnames⟩ := interpolated_names_stay_apart hvalid hspaced
  refine ⟨hvalid, ⟨rows, hruns, ?_, ?_⟩, hparted, ?_⟩
  · rw [← hold]
    decide +kernel
  · rw [← hnew]
    decide +kernel
  · rw [← hnames hparted]
    decide +kernel

end Part
end ClassScope
