import Mathlib.Data.Nat.PSub
import ClassScope.Proofs.ClassPosition
import ClassScope.Proofs.Composition

/-! Classification of nodes whose places may be anything. What comes out of it stands on firm
ground: each template has one segment more than interpolations, and the source reads each literal at
the literal's place. The classification is also written a second time, with operations that break
off where they leave a text, a list or the natural numbers, and it never breaks off. -/
namespace ClassScope

/-- Is a literal of this style and text written so? What a string holds between its quotes need not
be its text, since it may have escapes. -/
def LiteralStyle.Writes : LiteralStyle → Text → Text → Prop
  | .attr quote, text, written => (quote = '"' ∨ quote = '\'') ∧ written = quote :: text ++ [quote]
  | .string quote, _, written =>
    (quote = '"' ∨ quote = '\'') ∧ ∃ inside, written = quote :: inside ++ [quote]
  | .segment, text, written => written = text

namespace ClassLiteral

/-- The place of the literal lies between characters of the source, and the literal is written
there. -/
def Grounded (s : Source) (l : ClassLiteral) : Prop :=
  ∃ front written back, s.text = front ++ written ++ back ∧ front.size = l.start ∧
    l.start + written.size = l.stop ∧ l.style.Writes l.text written

variable {s : Source} {l : ClassLiteral}

theorem grounded_of_slice? {written : Text} (h : s.text.slice? l.start l.stop = some written)
    (hwrites : l.style.Writes l.text written) : l.Grounded s := by
  obtain ⟨front, back, htext, hstart, hstop⟩ := Text.slice?_eq_some_iff.mp h
  exact ⟨front, written, back, htext, hstart, hstop, hwrites⟩

theorem Grounded.inside (h : l.Grounded s) : l.start ≤ l.stop ∧ l.stop ≤ s.text.size := by
  obtain ⟨front, written, back, htext, hstart, hstop, -⟩ := h
  rw [htext, Text.size_append, Text.size_append]
  omega

/-- Quotes take two bytes at least. -/
theorem Grounded.two_le (h : l.Grounded s) (hstyle : l.style ≠ .segment) :
    l.start + 2 ≤ l.stop := by
  obtain ⟨front, written, back, -, -, hstop, hwrites⟩ := h
  obtain ⟨quote, inside, hquoted⟩ : ∃ quote inside, written = quote :: inside ++ [quote] := by
    cases hs : l.style with
    | attr quote =>
      rw [hs] at hwrites
      exact ⟨quote, l.text, hwrites.2⟩
    | string quote =>
      rw [hs] at hwrites
      obtain ⟨-, inside, hinside⟩ := hwrites
      exact ⟨quote, inside, hinside⟩
    | segment => exact absurd hs hstyle
  have hsize : written.length ≤ written.size := Text.length_le_size written
  have hlen : written.length = inside.length + 2 := by simp [hquoted]
  omega

end ClassLiteral

namespace ClassExpr

mutual

/-- In every template, however deep, each interpolation stands between two segments. -/
def Balanced : ClassExpr → Prop
  | .literal _ => True
  | .conditional consequent alternate => consequent.Balanced ∧ alternate.Balanced
  | .template segments interpolations =>
    segments.length = interpolations.length + 1 ∧ BalancedAll interpolations
  | .join _ arguments => BalancedAll arguments
  | .skipped _ => True

def BalancedAll : List ClassExpr → Prop
  | [] => True
  | e :: es => e.Balanced ∧ BalancedAll es

end

end ClassExpr

def ClassValue.Balanced : ClassValue → Prop
  | .literal _ => True
  | .slot e => e.Balanced

namespace Source

variable {s : Source}

theorem stringLiteral?_grounded {span : Span} {value : Text} {l : ClassLiteral}
    (h : s.stringLiteral? span value = some l) : l.Grounded s := by
  obtain ⟨quote, inside, hq, hraw, rfl⟩ := stringLiteral?_eq_some_iff.mp h
  obtain ⟨-, -, hslice⟩ := slice?_eq_some_iff.mp hraw
  exact ClassLiteral.grounded_of_slice? hslice ⟨hq, inside, rfl⟩

theorem attributeLiteral?_grounded {span : Span} {l : ClassLiteral}
    (h : s.attributeLiteral? span = some l) : l.Grounded s := by
  obtain ⟨quote, text, hq, hraw, rfl⟩ := attributeLiteral?_eq_some_iff.mp h
  obtain ⟨-, -, hslice⟩ := slice?_eq_some_iff.mp hraw
  exact ClassLiteral.grounded_of_slice? hslice ⟨hq, rfl⟩

/-- Whichever way the bytes of a segment were found, the source reads the segment there. -/
theorem slice?_of_segmentRange? {template : Span} {previous : Option Span} {g : Segment}
    {range : Nat × Nat} (h : s.segmentRange? template previous g = some range) :
    s.text.slice? range.1 range.2 = some g.raw := by
  rcases Option.or_eq_some_iff.mp h with hown | ⟨-, hsearched⟩
  · obtain ⟨own, -, hreads⟩ := Option.bind_eq_some_iff.mp hown
    obtain ⟨rfl, hslice⟩ := rangeReading?_eq_some_iff.mp hreads
    exact hslice
  · obtain ⟨start, -, hreads⟩ := Option.bind_eq_some_iff.mp hsearched
    obtain ⟨rfl, hslice⟩ := rangeReading?_eq_some_iff.mp hreads
    exact hslice

theorem segments?_grounded {template : Span} {previous : Option Span} {spans : List Span}
    {segments : List Segment} {literals : List ClassLiteral}
    (h : s.segments? template previous spans segments = some literals) :
    literals.length = segments.length ∧ ∀ l ∈ literals, l.Grounded s := by
  induction segments generalizing previous spans literals with
  | nil =>
    rw [segments?_nil] at h
    cases h
    exact ⟨rfl, by simp⟩
  | cons g rest ih =>
    obtain ⟨range, more, hrange, rfl, hmore⟩ := segments?_cons_eq_some h
    have hg : ClassLiteral.Grounded s ⟨.segment, range.1, range.2, g.raw, s.line g.span.lo⟩ :=
      ClassLiteral.grounded_of_slice? (slice?_of_segmentRange? hrange) rfl
    rcases hmore with ⟨rfl, rfl⟩ | ⟨span, others, -, hmore⟩
    · exact ⟨rfl, by simpa using hg⟩
    · obtain ⟨hlen, hgrounded⟩ := ih hmore
      exact ⟨by simp [hlen], List.forall_mem_cons.mpr ⟨hg, hgrounded⟩⟩

/-- What is balanced and has all its literals on the ground. -/
def Firm (s : Source) (e : ClassExpr) : Prop := e.Balanced ∧ ∀ l ∈ e.literals, l.Grounded s

def FirmAll (s : Source) (es : List ClassExpr) : Prop :=
  ClassExpr.BalancedAll es ∧ ∀ l ∈ ClassExpr.literalsAll es, l.Grounded s

theorem firm_skip (kind : SkipKind) (span : Span) : Firm s (s.skip kind span) :=
  ⟨trivial, by simp [skip, ClassExpr.literals]⟩

theorem firm_templateExpr {span : Span} {segments : List Segment} {spans : List Span}
    {interpolations : List ClassExpr} (h : FirmAll s interpolations) :
    Firm s (s.templateExpr span segments spans interpolations) := by
  unfold templateExpr
  split
  · exact firm_skip _ _
  · split
    · exact firm_skip _ _
    · rename_i literals hliterals
      split
      · rename_i hlen
        refine ⟨⟨hlen, h.1⟩, fun l hl => ?_⟩
        rcases List.mem_append.mp hl with hl | hl
        · exact (segments?_grounded hliterals).2 l hl
        · exact h.2 l hl
      · exact firm_skip _ _

mutual

theorem firm_classify (s : Source) (joinName : Text) (n : Node) :
    Firm s (s.classify joinName n) := by
  match n with
  | .parens _ inner =>
    rw [classify]
    exact firm_classify s joinName inner
  | .string span none => exact firm_skip _ _
  | .string span (some text) =>
    rw [classify]
    cases hl : s.stringLiteral? span text with
    | none => exact firm_skip _ _
    | some l => exact ⟨trivial, by simpa [ClassExpr.literals] using stringLiteral?_grounded hl⟩
  | .conditional _ _ c a =>
    obtain ⟨hc, hcl⟩ := firm_classify s joinName c
    obtain ⟨ha, hal⟩ := firm_classify s joinName a
    rw [classify]
    exact ⟨⟨hc, ha⟩, fun l hl => (List.mem_append.mp hl).elim (hcl l) (hal l)⟩
  | .template span segments interpolations =>
    rw [classify]
    exact firm_templateExpr (firmAll_classifyAll s joinName interpolations)
  | .call span callee arguments =>
    cases callee with
    | identifier _ name =>
      rw [classify]
      split
      · exact firmAll_classifyAll s joinName arguments
      · exact firm_skip _ _
    | _ => exact firm_skip _ _
  | .spread .. | .identifier .. | .other .. | .attr .. | .quoted .. | .slot .. =>
    exact firm_skip _ _

theorem firmAll_classifyAll (s : Source) (joinName : Text) (ns : List Node) :
    FirmAll s (s.classifyAll joinName ns) := by
  match ns with
  | [] => exact ⟨trivial, by simp [classifyAll, ClassExpr.literalsAll]⟩
  | n :: ns =>
    obtain ⟨hn, hnl⟩ := firm_classify s joinName n
    obtain ⟨hns, hnsl⟩ := firmAll_classifyAll s joinName ns
    rw [classifyAll]
    exact ⟨⟨hn, hns⟩, fun l hl => (List.mem_append.mp hl).elim (hnl l) (hnsl l)⟩

end

end Source

/-! The classification once more. The outer option of an answer is `none` where a subtraction, a
place in a list or a cut was taken for granted and is not there; the inner one is the answer. -/
namespace Source.Unguarded

def range (s : Source) (span : Span) : Option (Option (Nat × Nat)) :=
  if span.lo = 0 ∨ span.hi < span.lo then some none
  else do
    let start ← span.lo.psub 1
    let stop ← span.hi.psub 1
    return if s.text.size < stop then none else some (start, stop)

def slice (s : Source) (span : Span) : Option (Option Text) := do
  let some (start, stop) ← range s span | return none
  return s.text.slice? start stop

def stringLiteral (s : Source) (span : Span) (value : Text) : Option (Option ClassLiteral) := do
  let some raw ← slice s span | return none
  let some quote := quoteOf? raw | return none
  let some (start, stop) ← range s span | return none
  return some ⟨.string quote, start, stop, value, s.line span.lo⟩

/-- A quoted attribute value, its text cut out from behind the first byte up to the last one. -/
def attributeLiteral (s : Source) (span : Span) : Option (Option ClassLiteral) := do
  let some raw ← slice s span | return none
  let some quote := quoteOf? raw | return none
  let text ← raw.slice? 1 (← raw.size.psub 1)
  let some (start, stop) ← range s span | return none
  return some ⟨.attr quote, start, stop, text, s.line span.lo⟩

def segmentStart (s : Source) (template : Span) (spans : List Span) (i : Nat) :
    Option (Option Nat) :=
  if i = 0 then do
    let some (start, _) ← range s template | return none
    return some (start + 1)
  else do
    let some span := spans[← i.psub 1]? | return none
    let some (_, stop) ← range s span | return none
    let some rest := s.text.dropBytes? stop | return none
    let some brace := rest.find? '\x7d' | return none
    return some (stop + brace + 1)

/-- The bytes of segment `i`, which is taken out of the list by its number. -/
def segmentRange (s : Source) (template : Span) (segments : List Segment) (spans : List Span)
    (i : Nat) : Option (Option (Nat × Nat)) := do
  let segment ← segments[i]?
  let own ← range s segment.span
  if let some found := own.bind (s.rangeReading? segment.raw) then return some found
  let some start ← segmentStart s template spans i | return none
  return s.rangeReading? segment.raw (start, start + segment.raw.size)

def segmentLiterals (s : Source) (template : Span) (segments : List Segment) (spans : List Span) :
    List (Segment × Nat) → Option (Option (List ClassLiteral))
  | [] => some (some [])
  | (segment, i) :: rest => do
    let some (start, stop) ← segmentRange s template segments spans i | return none
    let some more ← segmentLiterals s template segments spans rest | return none
    return some (⟨.segment, start, stop, segment.raw, s.line segment.span.lo⟩ :: more)

def templateExpr (s : Source) (span : Span) (segments : List Segment) (spans : List Span)
    (interpolations : Option (List ClassExpr)) : Option ClassExpr := do
  if segments.any (·.raw.contains '\\') then return s.skip .escapedTemplate span
  let some literals ← segmentLiterals s span segments spans segments.zipIdx
    | return s.skip .templateLiteral span
  if literals.length = spans.length + 1 then return .template literals (← interpolations)
  return s.skip .templateLiteral span

mutual

def classify (s : Source) (joinName : Text) : Node → Option ClassExpr
  | .parens _ inner => classify s joinName inner
  | .string span value =>
    match value with
    | none => some (s.skip .surrogateString span)
    | some text => do
      let some l ← stringLiteral s span text | return s.skip .stringLiteral span
      return .literal l
  | .conditional _ _ consequent alternate => do
    return .conditional (← classify s joinName consequent) (← classify s joinName alternate)
  | .template span segments interpolations =>
    templateExpr s span segments (interpolations.map Node.span)
      (classifyAll s joinName interpolations)
  | .call span callee arguments =>
    match callee with
    | .identifier _ name =>
      if name = joinName then do return .join joinName (← classifyAll s joinName arguments)
      else some (s.skip (.shape .call) span)
    | _ => some (s.skip (.shape .call) span)
  | .spread dots _ => some (s.skip .spreadArgument dots)
  | .identifier span _ => some (s.skip (.shape .identifier) span)
  | .other shape span _ => some (s.skip (.shape shape) span)
  | .attr _ value => some (s.skip (.shape .expression) value.span)
  | .quoted span | .slot span _ => some (s.skip (.shape .expression) span)

def classifyAll (s : Source) (joinName : Text) : List Node → Option (List ClassExpr)
  | [] => some []
  | n :: ns => do return (← classify s joinName n) :: (← classifyAll s joinName ns)

end

def classifyValue (s : Source) (joinName : Text) (value : Node) : Option ClassValue :=
  match value with
  | .slot _ inner => do return .slot (← classify s joinName inner)
  | other => do
    let some l ← attributeLiteral s other.span
      | return .slot (s.skip .elementValue other.span)
    return .literal l

/-! The reading does not break off, one lemma for each part of it. -/

theorem range_eq (s : Source) (span : Span) : range s span = some (s.range? span) := by
  unfold range range?
  by_cases hspan : span.lo = 0 ∨ span.hi < span.lo
  · rw [if_pos hspan, if_pos (by omega)]
  · have hlo : 1 ≤ span.lo := by omega
    have hhi : 1 ≤ span.hi := by omega
    have hout : (span.lo = 0 ∨ span.hi < span.lo ∨ s.text.size < span.hi - 1) ↔
        s.text.size < span.hi - 1 := by omega
    simp only [if_neg hspan, Nat.psub_eq_sub hlo, Nat.psub_eq_sub hhi, hout]
    rfl

theorem slice_eq (s : Source) (span : Span) : slice s span = some (s.slice? span) := by
  simp only [slice, range_eq, Source.slice?, Option.bind_eq_bind, Option.bind_some]
  cases s.range? span <;> rfl

theorem stringLiteral_eq (s : Source) (span : Span) (value : Text) :
    stringLiteral s span value = some (s.stringLiteral? span value) := by
  simp only [stringLiteral, stringLiteral?, slice_eq, range_eq, Option.bind_eq_bind,
    Option.bind_some]
  cases s.slice? span with
  | none => rfl
  | some raw =>
    cases hquote : quoteOf? raw with
    | none => simp [hquote]
    | some quote => cases s.range? span <;> simp [hquote]

/-- Between its quotes a text can be cut: they are two, and of one byte each. -/
theorem slice?_between_quotes {raw : Text} {quote : Char} (h : quoteOf? raw = some quote) :
    raw.size.psub 1 = some (raw.size - 1) ∧
      raw.slice? 1 (raw.size - 1) = some raw.tail.dropLast := by
  obtain ⟨hq, text, rfl⟩ := quoteOf?_eq_some_iff.mp h
  have hbyte : quote.utf8Size = 1 := by rcases hq with rfl | rfl <;> rfl
  have hinside : (quote :: text ++ [quote]).tail.dropLast = text := by simp
  have hsize : Text.size (quote :: text ++ [quote]) = Text.size text + 2 := by
    simp only [List.cons_append, Text.size_cons, Text.size_append, Text.size_nil, hbyte]
    omega
  refine ⟨Nat.psub_eq_sub (by omega), ?_⟩
  rw [hinside, hsize]
  exact Text.slice?_eq_some_iff.mpr ⟨[quote], [quote], rfl, by simp [hbyte], by omega⟩

theorem attributeLiteral_eq (s : Source) (span : Span) :
    attributeLiteral s span = some (s.attributeLiteral? span) := by
  simp only [attributeLiteral, attributeLiteral?, slice_eq, range_eq, Option.bind_eq_bind,
    Option.bind_some]
  cases s.slice? span with
  | none => rfl
  | some raw =>
    cases hquote : quoteOf? raw with
    | none => simp [hquote]
    | some quote =>
      obtain ⟨hlast, hcut⟩ := slice?_between_quotes hquote
      simp only [hquote, hlast, hcut, Option.bind_some]
      cases s.range? span <;> rfl

def before? (spans : List Span) : Nat → Option Span
  | 0 => none
  | i + 1 => spans[i]?

theorem segmentStart_eq (s : Source) (template : Span) (spans : List Span) (i : Nat) :
    segmentStart s template spans i =
      some (if i ≤ spans.length then s.segmentStart? template (before? spans i) else none) := by
  cases i with
  | zero =>
    simp only [segmentStart, if_pos, range_eq, before?, segmentStart?, Option.bind_eq_bind,
      Option.bind_some, Nat.zero_le]
    cases s.range? template <;> rfl
  | succ i =>
    have hback : (i + 1).psub 1 = some i := rfl
    simp only [segmentStart, if_neg (Nat.succ_ne_zero i), hback, range_eq, before?, segmentStart?,
      Option.bind_eq_bind, Option.bind_some]
    by_cases hi : i + 1 ≤ spans.length
    · rw [if_pos hi, List.getElem?_eq_getElem hi]
      simp only
      cases s.range? spans[i] with
      | none => rfl
      | some range =>
        simp only [Option.bind_some]
        cases s.text.dropBytes? range.2 with
        | none => rfl
        | some rest => cases hbrace : rest.find? '\x7d' <;> simp [hbrace]
    · rw [if_neg hi, List.getElem?_eq_none (by omega)]
      rfl

theorem segmentRange_eq (s : Source) (template : Span) {segments : List Segment}
    (spans : List Span) {i : Nat} {g : Segment} (hg : segments[i]? = some g) :
    segmentRange s template segments spans i =
      some (if i ≤ spans.length then s.segmentRange? template (before? spans i) g
        else (s.range? g.span).bind (s.rangeReading? g.raw)) := by
  simp only [segmentRange, hg, range_eq, segmentStart_eq, segmentRange?, Option.bind_eq_bind,
    Option.bind_some]
  by_cases hi : i ≤ spans.length
  · simp only [if_pos hi]
    cases (s.range? g.span).bind (s.rangeReading? g.raw) with
    | some found => rfl
    | none => cases s.segmentStart? template (before? spans i) <;> rfl
  · simp only [if_neg hi]
    cases (s.range? g.span).bind (s.rangeReading? g.raw) <;> rfl

theorem segmentLiterals_eq (s : Source) (template : Span) (done : List Segment)
    {rest segments : List Segment} {spans : List Span} (hsegments : segments = done ++ rest)
    (hlen : segments.length ≤ spans.length + 1) :
    segmentLiterals s template segments spans (rest.zipIdx done.length) =
      some (s.segments? template (before? spans done.length) (spans.drop done.length) rest) := by
  induction rest generalizing done with
  | nil => simp [segmentLiterals, Source.segments?]
  | cons g rest ih =>
    have hg : segments[done.length]? = some g := by simp [hsegments]
    have hcount : segments.length = done.length + (rest.length + 1) := by simp [hsegments]
    have hnext := ih (done ++ [g]) (by simp [hsegments])
    rw [List.length_append, List.length_singleton] at hnext
    simp only [List.zipIdx_cons, segmentLiterals, segmentRange_eq s template spans hg, hnext,
      if_pos (show done.length ≤ spans.length by omega), Option.bind_eq_bind, Option.bind_some,
      Source.segments?]
    cases s.segmentRange? template (before? spans done.length) g with
    | none => rfl
    | some range =>
      cases rest with
      | nil => simp [Source.segments?]
      | cons g' rest =>
        have hspan : done.length < spans.length := by
          simp only [List.length_cons] at hcount
          omega
        rw [List.drop_eq_getElem_cons hspan, before?, List.getElem?_eq_getElem hspan]
        cases hmore : s.segments? template (some spans[done.length])
          (spans.drop (done.length + 1)) (g' :: rest) <;> simp [hmore]

/-- Whether or not there are interpolations enough, the loop comes to its end, and it takes up all
segments if it takes up any. -/
theorem segmentLiterals_length (s : Source) (template : Span) (done : List Segment)
    {rest segments : List Segment} (spans : List Span) (hsegments : segments = done ++ rest) :
    ∃ answer, segmentLiterals s template segments spans (rest.zipIdx done.length) = some answer ∧
      ∀ literals ∈ answer, literals.length = rest.length := by
  induction rest generalizing done with
  | nil => exact ⟨some [], rfl, by simp⟩
  | cons g rest ih =>
    have hg : segments[done.length]? = some g := by simp [hsegments]
    obtain ⟨more, hmore, hlength⟩ := ih (done ++ [g]) (by simp [hsegments])
    rw [List.length_append, List.length_singleton] at hmore
    simp only [List.zipIdx_cons, segmentLiterals, segmentRange_eq s template spans hg, hmore,
      Option.bind_eq_bind, Option.bind_some]
    generalize (if done.length ≤ spans.length then _ else _ : Option (Nat × Nat)) = found
    cases found with
    | none => exact ⟨none, rfl, by simp⟩
    | some range =>
      cases more with
      | none => exact ⟨none, rfl, by simp⟩
      | some more => exact ⟨_, rfl, by simpa using hlength more rfl⟩

/-- Nothing comes of a template that has segments which no interpolation stands in front of. -/
theorem templateExpr_of_surplus {s : Source} {span : Span} {segments : List Segment}
    {spans : List Span} {interpolations : List ClassExpr}
    (hplain : ¬ segments.any (·.raw.contains '\\') = true)
    (hsurplus : interpolations.length + 1 < segments.length) :
    s.templateExpr span segments spans interpolations = s.skip .templateLiteral span := by
  rw [Source.templateExpr, if_neg hplain]
  split
  · rfl
  · rename_i literals hliterals
    have hlen := (segments?_grounded hliterals).1
    rw [if_neg (by omega)]

theorem templateExpr_eq (s : Source) (span : Span) (segments : List Segment) {spans : List Span}
    {interpolations : List ClassExpr} (hlen : interpolations.length = spans.length) :
    templateExpr s span segments spans (some interpolations) =
      some (s.templateExpr span segments spans interpolations) := by
  by_cases hplain : segments.any (·.raw.contains '\\') = true
  · rw [templateExpr, Source.templateExpr, if_pos hplain, if_pos hplain]
    rfl
  rw [templateExpr, if_neg hplain]
  by_cases henough : segments.length ≤ spans.length + 1
  · have hloop : segmentLiterals s span segments spans segments.zipIdx =
        some (s.segments? span none spans segments) :=
      segmentLiterals_eq s span [] (List.nil_append segments).symm henough
    rw [hloop, Source.templateExpr, if_neg hplain, hlen]
    cases s.segments? span none spans segments with
    | none => rfl
    | some literals =>
      simp only [Option.bind_eq_bind, Option.bind_some]
      split <;> rfl
  · obtain ⟨answer, hloop, hanswer⟩ :=
      segmentLiterals_length s span [] spans (List.nil_append segments).symm
    rw [List.length_nil] at hloop
    rw [hloop, templateExpr_of_surplus hplain (by omega)]
    cases answer with
    | none => rfl
    | some literals =>
      have hcount : literals.length = segments.length := hanswer literals rfl
      simp only [Option.bind_eq_bind, Option.bind_some]
      rw [if_neg (by omega)]
      rfl

mutual

theorem classify_eq (s : Source) (joinName : Text) (n : Node) :
    classify s joinName n = some (s.classify joinName n) := by
  match n with
  | .parens _ inner =>
    rw [classify, Source.classify]
    exact classify_eq s joinName inner
  | .string span none => rfl
  | .string span (some text) =>
    rw [classify, Source.classify, stringLiteral_eq]
    cases s.stringLiteral? span text <;> rfl
  | .conditional _ _ c a =>
    rw [classify, Source.classify, classify_eq s joinName c, classify_eq s joinName a]
    rfl
  | .template span segments interpolations =>
    rw [classify, Source.classify, classifyAll_eq s joinName interpolations]
    exact templateExpr_eq s span segments (by simp [length_classifyAll])
  | .call span callee arguments =>
    cases callee with
    | identifier _ name =>
      rw [classify, Source.classify, classifyAll_eq s joinName arguments]
      split <;> rfl
    | _ => rfl
  | .spread .. | .identifier .. | .other .. | .attr .. | .quoted .. | .slot .. => rfl

theorem classifyAll_eq (s : Source) (joinName : Text) (ns : List Node) :
    classifyAll s joinName ns = some (s.classifyAll joinName ns) := by
  match ns with
  | [] => rfl
  | n :: ns =>
    rw [classifyAll, Source.classifyAll, classify_eq s joinName n, classifyAll_eq s joinName ns]
    rfl

end

theorem classifyValue_eq (s : Source) (joinName : Text) (value : Node) :
    classifyValue s joinName value = some (s.classifyValue joinName value) := by
  unfold classifyValue
  split
  · rw [classify_eq]
    rfl
  · rename_i hslot
    rw [attributeLiteral_eq, Source.classifyValue]
    · cases s.attributeLiteral? value.span <;> rfl
    · exact hslot

end Source.Unguarded

namespace Source

theorem balanced_classifyValue (s : Source) (joinName : Text) (value : Node) :
    (s.classifyValue joinName value).Balanced := by
  unfold classifyValue
  split
  · exact (firm_classify s joinName _).1
  · split <;> trivial

theorem grounded_classifyValue {s : Source} {joinName : Text} {value : Node} {l : ClassLiteral}
    (hl : l ∈ (s.classifyValue joinName value).literals) : l.Grounded s := by
  unfold classifyValue at hl
  split at hl
  · exact (firm_classify s joinName _).2 l hl
  · split at hl
    · rename_i found hfound
      obtain rfl := List.mem_singleton.mp hl
      exact attributeLiteral?_grounded hfound
    · cases hl

/-- Whatever places the nodes claim to have, the classification comes to its end with every cut
inside a text and between two of its characters. Its templates are balanced at every depth, and its
literals lie inside the source, between characters and as they are written there: with their quotes
around them, if they have quotes. -/
theorem classification_is_grounded (s : Source) (joinName : Text) (n : Node) :
    Unguarded.classify s joinName n = some (s.classify joinName n) ∧
    Unguarded.classifyValue s joinName n = some (s.classifyValue joinName n) ∧
    (s.classify joinName n).Balanced ∧ (s.classifyValue joinName n).Balanced ∧
    ∀ l, l ∈ (s.classify joinName n).literals ∨ l ∈ (s.classifyValue joinName n).literals →
      l.Grounded s ∧ l.start ≤ l.stop ∧ l.stop ≤ s.text.size ∧
        (l.style ≠ .segment → l.start + 2 ≤ l.stop) := by
  obtain ⟨hbalanced, hgrounded⟩ := firm_classify s joinName n
  refine ⟨Unguarded.classify_eq s joinName n, Unguarded.classifyValue_eq s joinName n, hbalanced,
    balanced_classifyValue s joinName n, fun l hl => ?_⟩
  have hl : l.Grounded s := hl.elim (hgrounded l) grounded_classifyValue
  exact ⟨hl, hl.inside.1, hl.inside.2, hl.two_le⟩

/-- A template with a character of two bytes. -/
def wideTemplate : Source := ⟨"`é$\x7bb\x7d c`".toList⟩

/-- The template, with segments of which one says that it stands nowhere, and one that it ends
before it starts. -/
def misplaced : Node :=
  .template ⟨1, 11⟩ [⟨⟨0, 0⟩, "é".toList⟩, ⟨⟨9, 2⟩, " c".toList⟩] [.identifier ⟨6, 7⟩ "b".toList]

theorem misplaced_segments_are_grounded :
    (wideTemplate.classify [] misplaced).literals =
      [⟨.segment, 1, 3, "é".toList, 0⟩, ⟨.segment, 7, 9, " c".toList, 1⟩] ∧
    Unguarded.classify wideTemplate [] misplaced = some (wideTemplate.classify [] misplaced) ∧
    (wideTemplate.classify [] misplaced).Balanced ∧
    ∀ l ∈ (wideTemplate.classify [] misplaced).literals, l.Grounded wideTemplate := by
  obtain ⟨hends, -, hbalanced, -, hgrounded⟩ :=
    classification_is_grounded wideTemplate [] misplaced
  exact ⟨by decide +kernel, hends, hbalanced, fun l hl => (hgrounded l (.inl hl)).1⟩

end Source
end ClassScope
