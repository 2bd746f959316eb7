import ClassScope.Proofs.ClassList

/-! The rim of a text is what its neighbours see of it when texts stand in a row. Six rims are
enough to tell where two words become one, and the rim of a row follows from the rims in it. -/
namespace ClassScope

/-- Nothing, nothing but blanks, or words, with a blank in front of them and behind them or not. -/
inductive Rim where
  | void
  | blank
  | solid (lead trail : Bool)
  deriving DecidableEq, Repr

namespace Text

def wordCount : List Text → Nat
  | [] => 0
  | t :: ts => (words t).length + wordCount ts

theorem words_eq_nil_iff {t : Text} : words t = [] ↔ ∀ c ∈ t, isBlank c = true := by
  induction t with
  | nil => simp
  | cons c t ih =>
    rw [← List.length_eq_zero_iff, length_words_cons, List.forall_mem_cons, ← ih,
      ← List.length_eq_zero_iff]
    constructor
    · intro h
      have ht : (words t).length = 0 := by omega
      refine ⟨?_, ht⟩
      -- An empty list of words leaves no word that the first character could belong to.
      have hgap : atGap t = true := by
        cases hg : atGap t with
        | true => rfl
        | false => exact absurd (List.length_eq_zero_iff.mp ht) (words_ne_nil_of_not_atGap hg)
      cases hc : isBlank c with
      | true => rfl
      | false => simp [hc, hgap] at h
    · rintro ⟨hc, ht⟩
      simp [hc, ht]

theorem words_append_eq_nil_iff {s t : Text} :
    words (s ++ t) = [] ↔ words s = [] ∧ words t = [] := by
  simp only [words_eq_nil_iff, List.forall_mem_append]

theorem atGap_of_words_eq_nil {t : Text} (h : words t = []) :
    atGap t = true ∧ atGap t.reverse = true := by
  have hr : words t.reverse = [] := by
    rw [words_eq_nil_iff] at h ⊢
    exact fun c hc => h c (List.mem_reverse.mp hc)
  constructor
  · cases hg : atGap t with
    | true => rfl
    | false => exact absurd h (words_ne_nil_of_not_atGap hg)
  · cases hg : atGap t.reverse with
    | true => rfl
    | false => exact absurd hr (words_ne_nil_of_not_atGap hg)

end Text

namespace Rim
open Text

def of (t : Text) : Rim :=
  if t = [] then void
  else if words t = [] then blank
  else solid (atGap t) (atGap t.reverse)

/-- Does a word in front stay a word of its own? -/
def lead : Rim → Bool
  | solid l _ => l
  | _ => true

def trail : Rim → Bool
  | solid _ t => t
  | _ => true

def append : Rim → Rim → Rim
  | void, r => r
  | r, void => r
  | blank, blank => blank
  | blank, solid _ t => solid true t
  | solid l _, blank => solid l true
  | solid l _, solid _ t => solid l t

/-- Does the last word of the one become one with the first word of the other? -/
def touch (r q : Rim) : Bool := !r.trail && !q.lead

@[simp] theorem of_nil : of [] = void := rfl

theorem of_eq_void_iff {t : Text} : of t = void ↔ t = [] := by
  unfold of
  split
  · simp [*]
  · split <;> simp [*]

theorem of_eq_blank {t : Text} (hne : t ≠ []) (h : words t = []) : of t = blank := by
  rw [of, if_neg hne, if_pos h]

theorem of_eq_solid {t : Text} (h : words t ≠ []) : of t = solid (atGap t) (atGap t.reverse) := by
  have hne : t ≠ [] := by
    rintro rfl
    exact h rfl
  rw [of, if_neg hne, if_neg h]

@[simp] theorem lead_of (t : Text) : (of t).lead = atGap t := by
  by_cases h : words t = []
  · by_cases hne : t = []
    · subst hne; rfl
    · rw [of_eq_blank hne h, (atGap_of_words_eq_nil h).1]; rfl
  · rw [of_eq_solid h]; rfl

@[simp] theorem trail_of (t : Text) : (of t).trail = atGap t.reverse := by
  by_cases h : words t = []
  · by_cases hne : t = []
    · subst hne; rfl
    · rw [of_eq_blank hne h, (atGap_of_words_eq_nil h).2]; rfl
  · rw [of_eq_solid h]; rfl

theorem touch_of (s t : Text) : (of s).touch (of t) = Text.touch s t := by
  rw [touch, trail_of, lead_of, Text.touch]

@[simp] theorem append_void (r : Rim) : r.append void = r := by cases r <;> rfl

@[simp] theorem void_append (r : Rim) : void.append r = r := by cases r <;> rfl

theorem of_append (s t : Text) : of (s ++ t) = (of s).append (of t) := by
  by_cases hs : s = []
  · subst hs; simp
  by_cases ht : t = []
  · subst ht; simp
  have hst : s ++ t ≠ [] := by simp [hs]
  by_cases hws : words s = [] <;> by_cases hwt : words t = []
  · rw [of_eq_blank hst (words_append_eq_nil_iff.mpr ⟨hws, hwt⟩), of_eq_blank hs hws,
      of_eq_blank ht hwt]
    rfl
  · have hw : words (s ++ t) ≠ [] := fun h => hwt (words_append_eq_nil_iff.mp h).2
    have hgap := (atGap_of_words_eq_nil hws).1
    rw [of_eq_solid hw, of_eq_blank hs hws, of_eq_solid hwt, List.reverse_append, atGap_append,
      atGap_append, if_neg hs, if_neg (by simpa using ht), hgap]
    rfl
  · have hw : words (s ++ t) ≠ [] := fun h => hws (words_append_eq_nil_iff.mp h).1
    have hgap := (atGap_of_words_eq_nil hwt).2
    rw [of_eq_solid hw, of_eq_solid hws, of_eq_blank ht hwt, List.reverse_append, atGap_append,
      atGap_append, if_neg hs, if_neg (by simpa using ht), hgap]
    rfl
  · have hw : words (s ++ t) ≠ [] := fun h => hws (words_append_eq_nil_iff.mp h).1
    rw [of_eq_solid hw, of_eq_solid hws, of_eq_solid hwt, List.reverse_append, atGap_append,
      atGap_append, if_neg hs, if_neg (by simpa using ht)]
    rfl

/-- The rim of a number of texts in a row. -/
def row : List Rim → Rim
  | [] => void
  | r :: rs => r.append (row rs)

/-- How often in a row two words become one. -/
def seams : List Rim → Nat
  | [] => 0
  | r :: rs => (r.touch (row rs)).toNat + seams rs

/-- The rim of two texts with a space between them, unless one is empty. -/
def spaced (r q : Rim) : Rim :=
  if r = void then q
  else if q = void then r
  else r.append (blank.append q)

def joined : List Rim → Rim
  | [] => void
  | r :: rs => r.spaced (joined rs)

theorem of_flatten (ts : List Text) : of ts.flatten = row (ts.map of) := by
  induction ts with
  | nil => rfl
  | cons t ts ih => rw [List.flatten_cons, of_append, ih, List.map_cons, row]

/-- The words of a row are those of the texts in it, less one for each seam. -/
theorem length_words_flatten (ts : List Text) :
    (words ts.flatten).length + seams (ts.map of) = wordCount ts := by
  induction ts with
  | nil => rfl
  | cons t ts ih =>
    have happend := length_words_append t ts.flatten
    have htouch : (of t).touch (row (ts.map of)) = Text.touch t ts.flatten := by
      rw [← of_flatten, touch_of]
    rw [List.flatten_cons, List.map_cons, wordCount, seams, htouch]
    omega

end Rim

namespace Text

def joinFilled (ts : List Text) : Text := join [' '] (ts.filter (· ≠ []))

theorem joinFilled_cons_nil (ts : List Text) : joinFilled ([] :: ts) = joinFilled ts := by
  simp [joinFilled]

theorem joinFilled_cons {t : Text} (ht : t ≠ []) (ts : List Text) :
    joinFilled (t :: ts) = if joinFilled ts = [] then t else t ++ ' ' :: joinFilled ts := by
  rw [joinFilled, joinFilled, List.filter_cons_of_pos (by simpa using ht)]
  cases hf : ts.filter (· ≠ []) with
  | nil => rfl
  | cons u us =>
    have hu : u ≠ [] := by
      have hmem : u ∈ ts.filter (· ≠ []) := hf ▸ List.mem_cons_self
      simpa using (List.mem_filter.mp hmem).2
    have hne : join [' '] (u :: us) ≠ [] := by cases us <;> simp [join, hu]
    rw [if_neg hne, join_cons_cons, List.append_assoc]
    rfl

theorem length_words_joinFilled (ts : List Text) :
    (words (joinFilled ts)).length = wordCount ts := by
  induction ts with
  | nil => rfl
  | cons t ts ih =>
    rw [wordCount, ← ih]
    by_cases ht : t = []
    · rw [ht, joinFilled_cons_nil, words_nil, List.length_nil, Nat.zero_add]
    · rw [joinFilled_cons ht]
      split
      · rename_i hrest
        simp [hrest]
      · rw [words_append_blank t (by decide), List.length_append]

end Text

namespace Rim
open Text

theorem of_joinFilled (ts : List Text) : of (joinFilled ts) = joined (ts.map of) := by
  induction ts with
  | nil => rfl
  | cons t ts ih =>
    rw [List.map_cons, joined, spaced, ← ih]
    by_cases ht : t = []
    · rw [if_pos (of_eq_void_iff.mpr ht), ht, joinFilled_cons_nil]
    · rw [if_neg (fun h => ht (of_eq_void_iff.mp h)), joinFilled_cons ht]
      by_cases hrest : joinFilled ts = []
      · rw [if_pos hrest, if_pos (of_eq_void_iff.mpr hrest)]
      · have hspace : of [' '] = blank := by decide
        rw [if_neg hrest, if_neg (fun h => hrest (of_eq_void_iff.mp h)), ← hspace, ← of_append,
          ← of_append]
        rfl

def placed (place : ClassList.Place) : Rim → Rim
  | void => void
  | blank => if place.after || place.before then blank else void
  | solid l t => solid (place.after && l) (place.before && t)

theorem of_qualifySegment {scope : Text} (hscope : ∀ c ∈ scope, isBlank c = false)
    (place : ClassList.Place) (t : Text) :
    of (ClassList.qualifySegment scope place t) = (of t).placed place := by
  by_cases hw : words t = []
  · rw [ClassList.qualifySegment_of_words_eq_nil hw]
    by_cases ht : t = []
    · subst ht
      simp [placed]
    · rw [of_eq_blank ht hw, placed]
      have hspace : of [' '] = blank := by decide
      split <;> simp_all
  · have hne : t ≠ [] := by
      rintro rfl
      exact hw rfl
    obtain ⟨hlead, htrail⟩ := ClassList.not_atGap_qualify hscope hw
    have hqualify : of (ClassList.qualify scope t) = solid false false := by
      rw [of_eq_solid (words_ne_nil_of_not_atGap hlead), hlead, htrail]
    have hspace : of [' '] = blank := by decide
    have hstart : ClassList.startsBlank t = atGap t := by
      cases t with
      | nil => exact absurd rfl hne
      | cons c t => rfl
    have hend : ClassList.endsBlank t = atGap t.reverse := by
      rw [ClassList.endsBlank]
      cases hr : t.reverse with
      | nil => exact absurd (List.reverse_eq_nil_iff.mp hr) hne
      | cons c u => rfl
    rw [ClassList.qualifySegment_of_words_ne_nil hw, of_append, of_append, hqualify, hstart, hend,
      of_eq_solid hw, placed]
    cases place.after && atGap t <;> cases place.before && atGap t.reverse <;>
      simp [hspace, append]

theorem of_qualify {scope : Text} (hscope : ∀ c ∈ scope, isBlank c = false) (t : Text) :
    of (ClassList.qualify scope t) = (of t).placed ⟨false, false⟩ := by
  rw [← ClassList.qualifySegment_alone, of_qualifySegment hscope]

/-- The second rim is what may be left of the first when blanks get lost. -/
structure Frays (r q : Rim) : Prop where
  void : r = .void → q = .void
  lead : r.lead = false → q.lead = false
  trail : r.trail = false → q.trail = false

theorem Frays.refl (r : Rim) : Frays r r := ⟨id, id, id⟩

theorem frays_placed (place : ClassList.Place) (r : Rim) : Frays r (r.placed place) := by
  cases r with
  | void => exact .refl _
  | blank => exact ⟨nofun, nofun, nofun⟩
  | solid l t =>
    refine ⟨nofun, fun h => ?_, fun h => ?_⟩
    · have hl : l = false := h
      simp [placed, lead, hl]
    · have ht : t = false := h
      simp [placed, trail, ht]

/-- The two ends of what two rims make are those of the one and of the other, unless one is
empty. -/
structure Ends (r q p : Rim) : Prop where
  void : p = .void ↔ r = .void ∧ q = .void
  lead : p.lead = if r = .void then q.lead else r.lead
  trail : p.trail = if q = .void then r.trail else q.trail

theorem ends_append (r q : Rim) : Ends r q (r.append q) := by
  constructor <;> cases r <;> cases q <;> simp [append, Rim.lead, Rim.trail]

theorem ends_spaced (r q : Rim) : Ends r q (r.spaced q) := by
  constructor <;> cases r <;> cases q <;> simp [spaced, append, Rim.lead, Rim.trail]

theorem Frays.of_ends {r q p r' q' p' : Rim} (hr : Frays r r') (hq : Frays q q')
    (hp : Ends r q p) (hp' : Ends r' q' p') : Frays p p' := by
  refine ⟨fun h => ?_, fun h => ?_, fun h => ?_⟩
  · obtain ⟨h₁, h₂⟩ := hp.void.mp h
    exact hp'.void.mpr ⟨hr.void h₁, hq.void h₂⟩
  · rw [hp.lead] at h
    rw [hp'.lead]
    by_cases hv : r = .void
    · rw [if_pos hv] at h
      rw [if_pos (hr.void hv)]
      exact hq.lead h
    · -- A rim without a blank in front is not empty.
      rw [if_neg hv] at h
      have hlead := hr.lead h
      have hv' : r' ≠ .void := by
        rintro rfl
        cases hlead
      rw [if_neg hv', hlead]
  · rw [hp.trail] at h
    rw [hp'.trail]
    by_cases hv : q = .void
    · rw [if_pos hv] at h
      rw [if_pos (hq.void hv)]
      exact hr.trail h
    · rw [if_neg hv] at h
      have htrail := hq.trail h
      have hv' : q' ≠ .void := by
        rintro rfl
        cases htrail
      rw [if_neg hv', htrail]

theorem Frays.touch {r q r' q' : Rim} (hr : Frays r r') (hq : Frays q q') :
    (r.touch q).toNat ≤ (r'.touch q').toNat := by
  cases htouch : r.touch q with
  | false => exact Nat.zero_le _
  | true =>
    simp only [Rim.touch, Bool.and_eq_true, Bool.not_eq_true'] at htouch
    simp [Rim.touch, hr.trail htouch.1, hq.lead htouch.2]

variable {ps : List (Rim × Rim)}

/-- In a row of rims that fray, seams can only be added. -/
theorem frays_row (h : ∀ p ∈ ps, Frays p.1 p.2) :
    Frays (row (ps.map Prod.fst)) (row (ps.map Prod.snd)) ∧
    seams (ps.map Prod.fst) ≤ seams (ps.map Prod.snd) := by
  induction ps with
  | nil => exact ⟨.refl _, Nat.le_refl _⟩
  | cons p ps ih =>
    obtain ⟨hp, hps⟩ := List.forall_mem_cons.mp h
    obtain ⟨hrow, hseams⟩ := ih hps
    refine ⟨hp.of_ends hrow (ends_append _ _) (ends_append _ _), ?_⟩
    exact Nat.add_le_add (hp.touch hrow) hseams

theorem frays_joined (h : ∀ p ∈ ps, Frays p.1 p.2) :
    Frays (joined (ps.map Prod.fst)) (joined (ps.map Prod.snd)) := by
  induction ps with
  | nil => exact .refl _
  | cons p ps ih =>
    obtain ⟨hp, hps⟩ := List.forall_mem_cons.mp h
    exact hp.of_ends (ih hps) (ends_spaced _ _) (ends_spaced _ _)

end Rim
end ClassScope
