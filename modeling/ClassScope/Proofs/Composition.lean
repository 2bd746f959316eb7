import ClassScope.Proofs.Evaluation

/-! Walks one after the other. A walk leaves behind what another walk can take up: the names of a
list that was qualified are whole names again, and the blanks that a segment kept are kept again.
So two walks come to one walk, with a scope that is put together from the two. -/
namespace ClassScope

namespace ClassList
open Text

variable {q : Text}

theorem qualifyName_qualifyName (p q name : Text) :
    qualifyName p (qualifyName q name) = qualifyName (qualifyName p q) name := by
  simp [qualifyName]

theorem qualify_qualify (hq : ∀ c ∈ q, isBlank c = false) (p t : Text) :
    qualify p (qualify q t) = qualify (qualifyName p q) t := by
  have hnames : (words (qualify q t)).map (qualifyName p) =
      (words t).map (qualifyName (qualifyName p q)) := by
    simp [words_qualify hq, qualifyName_qualifyName]
  rw [qualify, hnames, qualify]

/-- A segment that was qualified has a blank in front exactly if it stands behind an interpolation
and had one before. -/
theorem startsBlank_qualifySegment (hq : ∀ c ∈ q, isBlank c = false) {t : Text}
    (h : words t ≠ []) (place : Place) :
    startsBlank (qualifySegment q place t) = (place.after && startsBlank t) := by
  obtain ⟨hlead, -⟩ := not_atGap_qualify hq h
  obtain ⟨c, u, hc⟩ : ∃ c u, qualify q t = c :: u :=
    List.exists_cons_of_ne_nil fun hnil => h (qualify_eq_nil_iff.mp hnil)
  have hsolid : isBlank c = false := by simpa [hc] using hlead
  rw [qualifySegment_of_words_ne_nil h, hc]
  cases place.after && startsBlank t with
  | true => rfl
  | false => simpa [startsBlank] using hsolid

theorem endsBlank_qualifySegment (hq : ∀ c ∈ q, isBlank c = false) {t : Text}
    (h : words t ≠ []) (place : Place) :
    endsBlank (qualifySegment q place t) = (place.before && endsBlank t) := by
  obtain ⟨-, htrail⟩ := not_atGap_qualify hq h
  obtain ⟨c, u, hc⟩ : ∃ c u, (qualify q t).reverse = c :: u :=
    List.exists_cons_of_ne_nil fun hnil =>
      h (qualify_eq_nil_iff.mp (List.reverse_eq_nil_iff.mp hnil))
  have hsolid : isBlank c = false := by simpa [hc] using htrail
  rw [qualifySegment_of_words_ne_nil h, endsBlank, List.reverse_append, List.reverse_append, hc]
  cases place.before && endsBlank t with
  | true => rfl
  | false => simpa [startsBlank] using hsolid

/-- Wherever a segment stands, qualifying it twice is qualifying it once. -/
theorem qualifySegment_qualifySegment (hq : ∀ c ∈ q, isBlank c = false) (p : Text) (place : Place)
    (t : Text) :
    qualifySegment p place (qualifySegment q place t) =
      qualifySegment (qualifyName p q) place t := by
  have hwords := words_qualifySegment hq place t
  by_cases h : words t = []
  · -- Nothing but blanks: a space is left of them or nothing, and the same of that.
    have hblank : words (qualifySegment q place t) = [] := by simp [hwords, h]
    rw [qualifySegment_of_words_eq_nil hblank, qualifySegment_of_words_eq_nil h,
      qualifySegment_of_words_eq_nil h]
    cases place.after || place.before <;> cases t.isEmpty <;> simp
  · have hnames : words (qualifySegment q place t) ≠ [] := by simpa [hwords] using h
    have hlist : qualify p (qualifySegment q place t) = qualify (qualifyName p q) t := by
      rw [← qualify_qualify hq, qualify, qualify, hwords, words_qualify hq]
    rw [qualifySegment_of_words_ne_nil hnames, hlist, startsBlank_qualifySegment hq h,
      endsBlank_qualifySegment hq h, qualifySegment_of_words_ne_nil h]
    simp

end ClassList

variable {q : Text}

theorem results_segmentRewrites_twice (hq : ∀ c ∈ q, Text.isBlank c = false) (p : Text)
    (after : Bool) (ls : List ClassLiteral) :
    (segmentRewrites p after ((segmentRewrites q after ls).map Rewrite.result)).map
      Rewrite.result =
    (segmentRewrites (ClassList.qualifyName p q) after ls).map Rewrite.result := by
  induction ls generalizing after with
  | nil => rfl
  | cons l ls ih =>
    have hlast : ((segmentRewrites q true ls).map Rewrite.result).isEmpty = ls.isEmpty := by
      cases ls <;> rfl
    simp only [segmentRewrites, List.map_cons, ih, hlast, Rewrite.result,
      ClassList.qualifySegment_qualifySegment hq]

namespace ClassExpr

mutual

theorem qualified_qualified (hq : ∀ c ∈ q, Text.isBlank c = false) (p : Text) (e : ClassExpr) :
    (e.qualified q).qualified p = e.qualified (ClassList.qualifyName p q) := by
  match e with
  | .literal l => simp only [qualified, ClassList.qualify_qualify hq]
  | .conditional c a =>
    simp only [qualified, qualified_qualified hq p c, qualified_qualified hq p a]
  | .template segments interpolations =>
    simp only [qualified, results_segmentRewrites_twice hq,
      qualifiedAll_qualifiedAll hq p interpolations]
  | .join callee arguments => simp only [qualified, qualifiedAll_qualifiedAll hq p arguments]
  | .skipped k => simp only [qualified]

theorem qualifiedAll_qualifiedAll (hq : ∀ c ∈ q, Text.isBlank c = false) (p : Text)
    (es : List ClassExpr) :
    qualifiedAll p (qualifiedAll q es) = qualifiedAll (ClassList.qualifyName p q) es := by
  match es with
  | [] => rfl
  | e :: es =>
    simp only [qualifiedAll, qualified_qualified hq p e, qualifiedAll_qualifiedAll hq p es]

end

theorem map_start_segmentRewrites (scope : Text) (after : Bool) (ls : List ClassLiteral) :
    ((segmentRewrites scope after ls).map Rewrite.result).map ClassLiteral.start =
      ls.map ClassLiteral.start := by
  induction ls generalizing after with
  | nil => rfl
  | cons l ls ih => simp [segmentRewrites, ih, Rewrite.result]

mutual

theorem map_start_qualified (scope : Text) (e : ClassExpr) :
    (e.qualified scope).literals.map ClassLiteral.start = e.literals.map ClassLiteral.start := by
  match e with
  | .literal l => simp [qualified, literals]
  | .conditional c a =>
    simp [qualified, literals, map_start_qualified scope c, map_start_qualified scope a]
  | .template segments interpolations =>
    simp only [qualified, literals, List.map_append, map_start_segmentRewrites,
      map_start_qualifiedAll scope interpolations]
  | .join callee arguments => simp [qualified, literals, map_start_qualifiedAll scope arguments]
  | .skipped k => simp [qualified]

theorem map_start_qualifiedAll (scope : Text) (es : List ClassExpr) :
    (literalsAll (qualifiedAll scope es)).map ClassLiteral.start =
      (literalsAll es).map ClassLiteral.start := by
  match es with
  | [] => rfl
  | e :: es =>
    simp [qualifiedAll, literalsAll, map_start_qualified scope e, map_start_qualifiedAll scope es]

end

mutual

theorem skips_qualified (scope : Text) (e : ClassExpr) : (e.qualified scope).skips = e.skips := by
  match e with
  | .literal l => simp [qualified, skips]
  | .conditional c a => simp [qualified, skips, skips_qualified scope c, skips_qualified scope a]
  | .template segments interpolations =>
    simp [qualified, skips, skipsAll_qualifiedAll scope interpolations]
  | .join callee arguments => simp [qualified, skips, skipsAll_qualifiedAll scope arguments]
  | .skipped k => simp [qualified]

theorem skipsAll_qualifiedAll (scope : Text) (es : List ClassExpr) :
    skipsAll (qualifiedAll scope es) = skipsAll es := by
  match es with
  | [] => rfl
  | e :: es =>
    simp [qualifiedAll, skipsAll, skips_qualified scope e, skipsAll_qualifiedAll scope es]

end

end ClassExpr

namespace ClassValue

def literals : ClassValue → List ClassLiteral
  | .literal l => [l]
  | .slot e => e.literals

/-- The value with every literal qualified. -/
def qualified (scope : Text) : ClassValue → ClassValue
  | .literal l => .literal { l with text := ClassList.qualify scope l.text }
  | .slot e => .slot (e.qualified scope)

theorem qualified_qualified (hq : ∀ c ∈ q, Text.isBlank c = false) (p : Text) (v : ClassValue) :
    (v.qualified q).qualified p = v.qualified (ClassList.qualifyName p q) := by
  cases v with
  | literal l => simp only [qualified, ClassList.qualify_qualify hq]
  | slot e => simp only [qualified, ClassExpr.qualified_qualified hq]

theorem skips_qualified (scope : Text) (v : ClassValue) : (v.qualified scope).skips = v.skips := by
  cases v with
  | literal l => rfl
  | slot e => exact ClassExpr.skips_qualified scope e

theorem distinct_qualified (scope : Text) {v : ClassValue}
    (h : v.literals.Pairwise (·.start ≠ ·.start)) :
    (v.qualified scope).literals.Pairwise (·.start ≠ ·.start) := by
  have hstarts : (v.qualified scope).literals.map ClassLiteral.start =
      v.literals.map ClassLiteral.start := by
    cases v with
    | literal l => rfl
    | slot e => exact ClassExpr.map_start_qualified scope e
  have hdistinct : (v.literals.map ClassLiteral.start).Pairwise (· ≠ ·) := List.pairwise_map.mpr h
  rw [← hstarts] at hdistinct
  exact List.pairwise_map.mp hdistinct

end ClassValue

namespace Ledger

theorem qualifyValue_fst (scope : Text) {v : ClassValue}
    (hd : v.literals.Pairwise (·.start ≠ ·.start)) :
    (qualifyValue scope v empty).1 = v.qualified scope := by
  have hfree : Free empty v.literals := fun _ _ => rfl
  cases v with
  | literal l =>
    have hwrite := write_fst (r := ⟨l, ClassList.qualify scope l.text⟩)
      (hfree l (List.mem_singleton_self l)) (fun ht => by simp [show l.text = [] from ht])
    exact congrArg ClassValue.literal hwrite
  | slot e => exact congrArg ClassValue.slot (qualify_fst hfree hd)

theorem skipped_qualifyValue (scope : Text) (v : ClassValue) :
    (qualifyValue scope v empty).2.skipped = v.skips := by
  simp [qualifyValue_snd, skipped_enter, empty]

/-- Two walks, the first with `q` and the second, over what that one left, with `p`, leave the value
that one walk with `p-q` leaves, and all three leave the same alone. -/
theorem walks_compose (p : Text) {q : Text} (hq : ∀ c ∈ q, Settings.scopeChar c = true)
    {v : ClassValue} (hd : v.literals.Pairwise (·.start ≠ ·.start)) :
    let first := qualifyValue q v empty
    let second := qualifyValue p first.1 empty
    let once := qualifyValue (p ++ '-' :: q) v empty
    second.1 = once.1 ∧ second.2.skipped = once.2.skipped ∧
      first.2.skipped = once.2.skipped := by
  intro first second once
  have hblank : ∀ c ∈ q, Text.isBlank c = false :=
    fun c hc => Settings.not_blank_of_scopeChar (hq c hc)
  have hfirst : first.1 = v.qualified q := qualifyValue_fst q hd
  have hsecond : second.1 = (v.qualified q).qualified p := by
    rw [← hfirst]
    exact qualifyValue_fst p (hfirst ▸ ClassValue.distinct_qualified q hd)
  have honce : once.1 = v.qualified (ClassList.qualifyName p q) := qualifyValue_fst _ hd
  refine ⟨?_, ?_, ?_⟩
  · rw [hsecond, honce, ClassValue.qualified_qualified hblank]
  · calc second.2.skipped
        = first.1.skips := skipped_qualifyValue p first.1
      _ = v.skips := by rw [hfirst, ClassValue.skips_qualified]
      _ = once.2.skipped := (skipped_qualifyValue _ v).symm
  · exact (skipped_qualifyValue q v).trans (skipped_qualifyValue _ v).symm

/-- A template with blanks around its interpolations, more of them than are kept, and a segment of
blanks alone; one interpolation is not looked into. -/
def spacedTemplate : ClassValue :=
  .slot (.template
    [⟨.segment, 17, 20, " a\t".toList, 1⟩, ⟨.segment, 30, 33, " \n ".toList, 1⟩,
      ⟨.segment, 50, 54, " b  ".toList, 2⟩]
    [.skipped ⟨.shape .identifier, 1⟩, .join "classnames".toList
      [.literal ⟨.string '"', 40, 46, " c d".toList, 2⟩, .skipped ⟨.shape .object, 2⟩]])

theorem walks_compose_on_spacedTemplate :
    (∀ c ∈ "ui".toList, Settings.scopeChar c = true) ∧
    spacedTemplate.literals.Pairwise (·.start ≠ ·.start) ∧
    (qualifyValue "ui".toList spacedTemplate empty).2.edits.map Edit.replacement =
      ["ui-a ", " ", "\"ui-c ui-d\"", " ui-b"].map String.toList ∧
    let first := qualifyValue "ui".toList spacedTemplate empty
    let second := qualifyValue "app".toList first.1 empty
    let once := qualifyValue ("app".toList ++ '-' :: "ui".toList) spacedTemplate empty
    second.1 = once.1 ∧ second.2.skipped = once.2.skipped ∧
      first.2.skipped = once.2.skipped := by
  have hscope : ∀ c ∈ "ui".toList, Settings.scopeChar c = true :=
    List.all_eq_true.mp (by decide +kernel)
  have hdistinct : spacedTemplate.literals.Pairwise (·.start ≠ ·.start) := by decide +kernel
  exact ⟨hscope, hdistinct, by decide +kernel, walks_compose "app".toList hscope hdistinct⟩

end Ledger
end ClassScope
