import Mathlib.Data.List.Forall2
import ClassScope.Proofs.ClassList
import ClassScope.Proofs.ClassPosition
import ClassScope.Proofs.Mark.Moved

/-! Where literals are found when a byte order mark stands in front of the source. The tree is read
without the mark, and its places are looked up with the mark: every span lies three bytes too far
to the left. A string is found there or not at all. Only a segment behind an interpolation can be
found where it is, since its place is searched for, and never beyond. -/
namespace ClassScope

namespace Source

def marked (s : Source) : Source := ⟨'\uFEFF' :: s.text⟩

variable {s : Source}

theorem text_marked (s : Source) : s.marked.text = ['\uFEFF'] ++ s.text := rfl

theorem size_mark : Text.size ['\uFEFF'] = 3 := by decide

@[simp] theorem body_marked (s : Source) : s.marked.body = s.text := rfl

theorem body_of_head?_ne (h : s.text.head? ≠ some '\uFEFF') : s.body = s.text := by
  unfold body
  split
  · rename_i t ht
    rw [ht] at h
    exact absurd rfl h
  · rfl

theorem line_marked (h : s.text.head? ≠ some '\uFEFF') (position : Nat) :
    s.marked.line position = s.line position := by
  rw [line, line, body_marked, body_of_head?_ne h]

end Source

namespace Text

theorem find?_append_cons_le {c : Char} {a b : Text} {k : Nat}
    (h : find? c (a ++ c :: b) = some k) : k ≤ size a := by
  induction a generalizing k with
  | nil =>
    have hk : some 0 = some k := by simpa [find?] using h
    cases hk
    exact Nat.zero_le _
  | cons d a ih =>
    rw [List.cons_append, find?] at h
    split at h
    · cases h
      exact Nat.zero_le _
    · obtain ⟨j, hj, rfl⟩ := Option.map_eq_some_iff.mp h
      exact Nat.add_le_add_left (ih hj) _

end Text

namespace Node

/-- In front of each segment but the first stands a closing brace, and the interpolation ends
before it. -/
def Laced (s : Source) : List Span → List Segment → Prop
  | p :: ps, _ :: g :: gs =>
    p.hi < g.span.lo ∧ s.slice? ⟨g.span.lo - 1, g.span.lo⟩ = some ['\x7d'] ∧ Laced s ps (g :: gs)
  | _, _ => True

instance (s : Source) : (ps : List Span) → (gs : List Segment) → Decidable (Laced s ps gs)
  | _ :: ps, _ :: g :: gs =>
    have : Decidable (Laced s ps (g :: gs)) := instDecidableLaced s ps (g :: gs)
    inferInstanceAs (Decidable (_ ∧ _ ∧ _))
  | [], _ | _ :: _, [] | _ :: _, [_] => isTrue trivial

/-- The stretches that the literals of a node take up, a segment with a byte of what ends it. -/
def footprints : Node → List Span
  | .string span _ | .quoted span => [span]
  | .template _ segments _ => segments.map fun g => ⟨g.span.lo, g.span.hi + 1⟩
  | _ => []

/-- What the grammar puts between things: a brace behind an interpolation, and a name and an equals
sign, of two bytes at least, in front of an element that is a value. -/
def Delimited (s : Source) (prints : List Span) : Node → Prop
  | .template _ segments parts => Laced s (parts.map Node.span) segments
  | .attr _ (.other _ span _) =>
    span.lo + 3 ≤ span.hi ∧ ∀ p ∈ prints, p.hi + 2 ≤ span.lo ∨ span.lo ≤ p.lo
  | _ => True

instance (s : Source) (prints : List Span) : (n : Node) → Decidable (n.Delimited s prints)
  | .template _ segments parts =>
    inferInstanceAs (Decidable (Laced s (parts.map Node.span) segments))
  | .attr _ (.other _ span _) => inferInstanceAs (Decidable
      (span.lo + 3 ≤ span.hi ∧ ∀ p ∈ prints, p.hi + 2 ≤ span.lo ∨ span.lo ≤ p.lo))
  | .attr _ (.identifier _ _) | .attr _ (.string _ _) | .attr _ (.parens _ _)
  | .attr _ (.conditional _ _ _ _) | .attr _ (.template _ _ _) | .attr _ (.call _ _ _)
  | .attr _ (.spread _ _) | .attr _ (.attr _ _) | .attr _ (.quoted _) | .attr _ (.slot _ _)
  | .identifier _ _ | .string _ _ | .parens _ _ | .conditional _ _ _ _ | .call _ _ _
  | .spread _ _ | .quoted _ | .slot _ _ | .other _ _ _ => isTrue trivial

def WellSpaced (s : Source) (n : Node) : Prop :=
  ∀ m ∈ n.subtrees, m.Delimited s (n.subtrees.flatMap footprints)

instance (s : Source) (n : Node) : Decidable (n.WellSpaced s) :=
  inferInstanceAs (Decidable (∀ m ∈ n.subtrees, m.Delimited s (n.subtrees.flatMap footprints)))

end Node

namespace Source

variable {s : Source}

theorem range?_marked {span : Span} {range : Nat × Nat} (h : s.marked.range? span = some range) :
    span.lo ≠ 0 ∧ range = (span.lo - 1, span.hi - 1) := by
  unfold range? at h
  split at h
  · cases h
  · rename_i hcond
    simp only [not_or] at hcond
    cases h
    exact ⟨hcond.1, rfl⟩

/-- The search for a segment behind an interpolation stops at the brace in front of the segment, if
not before. -/
theorem segmentStart?_marked_le {template p : Span} {g : Segment} {start : Nat}
    (hp : p.hi < g.span.lo) (hbrace : s.slice? ⟨g.span.lo - 1, g.span.lo⟩ = some ['\x7d'])
    (h : s.marked.segmentStart? template (some p) = some start) : start ≤ g.span.lo - 1 + 3 := by
  simp only [segmentStart?, Option.bind_eq_bind, Option.bind_eq_some_iff] at h
  obtain ⟨range, hrange, rest, hrest, brace, hfind, hstart⟩ := h
  obtain ⟨-, rfl⟩ := range?_marked hrange
  obtain ⟨hlo, -, hs⟩ := slice?_eq_some_iff.mp hbrace
  obtain ⟨before, after, htext, hbefore, -⟩ := Text.slice?_eq_some_iff.mp hs
  obtain ⟨head, hmarked, hhead⟩ := Text.dropBytes?_eq_some_iff.mp hrest
  dsimp only at hbefore hhead hlo
  -- The brace stands behind all that is dropped.
  have hcut : head ++ rest = (['\uFEFF'] ++ before) ++ '\x7d' :: after := by
    rw [← hmarked, text_marked, htext]
    simp
  have hsize : Text.size (['\uFEFF'] ++ before) = 3 + (g.span.lo - 1 - 1) := by
    rw [Text.size_append, size_mark, hbefore]
  obtain ⟨between, hbetween, rfl⟩ := Text.append_eq_append_of_size_le hcut (by omega)
  have hle := Text.find?_append_cons_le hfind
  have hparts : Text.size head + Text.size between = 3 + (g.span.lo - 1 - 1) := by
    rw [← Text.size_append, ← hbetween, hsize]
  cases hstart
  omega

/-- The second literal as it is found with the mark in front: nowhere beyond its place. -/
structure Drifts (l k : ClassLiteral) : Prop where
  start_le : l.start ≤ k.start + 3
  rest : l = { k with start := l.start, stop := l.start + Text.size k.text }

theorem segmentRange?_marked {template : Span} {previous : Option Span} {g : Segment}
    {range : Nat × Nat}
    (hstart : ∀ start, s.marked.segmentStart? template previous = some start →
      start ≤ g.span.lo - 1 + 3)
    (h : s.marked.segmentRange? template previous g = some range) :
    range.1 ≤ g.span.lo - 1 + 3 ∧ range.2 = range.1 + Text.size g.raw := by
  have hreads : ∀ {start stop : Nat}, s.marked.text.slice? start stop = some g.raw →
      stop = start + Text.size g.raw := by
    intro start stop hs
    obtain ⟨before, after, -, -, hstop⟩ := Text.slice?_eq_some_iff.mp hs
    exact hstop.symm
  rw [segmentRange?, Option.or_eq_some_iff] at h
  rcases h with h | ⟨-, h⟩
  · obtain ⟨own, hown, hread⟩ := Option.bind_eq_some_iff.mp h
    obtain ⟨-, rfl⟩ := range?_marked hown
    obtain ⟨rfl, hs⟩ := rangeReading?_eq_some_iff.mp hread
    exact ⟨Nat.le_add_right _ _, hreads hs⟩
  · obtain ⟨start, hfound, hread⟩ := Option.bind_eq_some_iff.mp h
    obtain ⟨rfl, hs⟩ := rangeReading?_eq_some_iff.mp hread
    exact ⟨hstart start hfound, hreads hs⟩

theorem segments?_marked (hplain : s.text.head? ≠ some '\uFEFF') {template : Span}
    {previous : Option Span} {spans : List Span} {segments : List Segment}
    {ls : List ClassLiteral} (hlaced : Node.Laced s spans segments)
    (hfirst : ∀ g ∈ segments.head?, ∀ start, s.marked.segmentStart? template previous = some start →
      start ≤ g.span.lo - 1 + 3)
    (h : s.marked.segments? template previous spans segments = some ls) :
    List.Forall₂ Drifts ls (segments.map s.segmentLiteral) := by
  induction segments generalizing previous spans ls with
  | nil =>
    rw [segments?_nil] at h
    cases h
    exact .nil
  | cons g gs ih =>
    obtain ⟨range, more, hrange, rfl, hmore⟩ := segments?_cons_eq_some h
    obtain ⟨hle, hstop⟩ := segmentRange?_marked (hfirst g rfl) hrange
    refine .cons ⟨hle, ?_⟩ ?_
    · simp [segmentLiteral, hstop, line_marked hplain]
    · rcases hmore with ⟨rfl, rfl⟩ | ⟨p, ps, rfl, hmore⟩
      · exact .nil
      · cases gs with
        | nil =>
          rw [segments?_nil] at hmore
          cases hmore
          exact .nil
        | cons g' gs =>
          obtain ⟨hp, hbrace, hlaced⟩ := hlaced
          refine ih hlaced ?_ hmore
          intro g hg start hstart
          obtain rfl : g' = g := Option.some.inj hg
          exact segmentStart?_marked_le hp hbrace hstart

end Source

namespace Rewrite

/-- The first rewrite is what becomes of the second with the mark in front: it counts like that one,
starts nowhere beyond its place, and is the same if it starts there, as only a segment can. -/
structure Found (r q : Rewrite) : Prop where
  counts : r.Counts ↔ q.Counts
  start_le : r.literal.start ≤ q.literal.start + 3
  moved : r.literal.start = q.literal.start + 3 → r = q.moved 3
  segment : r.literal.start = q.literal.start + 3 → q.literal.style = .segment

theorem Found.of_start_eq {r q : Rewrite} (hc : r.Counts ↔ q.Counts)
    (h : r.literal.start = q.literal.start) : Found r q :=
  ⟨hc, by omega, fun hm => by omega, fun hm => by omega⟩

end Rewrite

open Rewrite

theorem found_segmentRewrites {scope : Text} {after : Bool} {ls ks : List ClassLiteral}
    (h : List.Forall₂ Source.Drifts ls ks)
    (hks : ∀ k ∈ ks, k.style = .segment ∧ k.stop = k.start + Text.size k.text) :
    List.Forall₂ Found (segmentRewrites scope after ls) (segmentRewrites scope after ks) := by
  induction h generalizing after with
  | nil => exact .nil
  | @cons l k ls ks hlk hrest ih =>
    obtain ⟨⟨hstyle, hk⟩, hks⟩ := List.forall_mem_cons.mp hks
    have hlen : ls.isEmpty = ks.isEmpty := by
      cases hrest <;> rfl
    have htext : l.text = k.text := by rw [hlk.rest]
    refine .cons ⟨?_, hlk.start_le, fun hstart => ?_, fun _ => hstyle⟩ (ih hks)
    · rw [Counts, Counts, htext, hlen]
    · have hl : l = { k with start := k.start + 3, stop := k.stop + 3 } := by
        rw [hlk.rest, hk]
        have hstart' : l.start = k.start + 3 := hstart
        rw [hstart', Nat.add_right_comm]
      rw [Rewrite.moved, htext, hlen, hl]

def SkipKind.isLoss : SkipKind → Bool
  | stringLiteral | templateLiteral => true
  | _ => false

namespace Node

variable {s : Source} {scope joinName : Text} {settings : Settings}

/-- No literal of an expression is passed over for not being found. -/
def NoneLost (ks : List Skipped) : Prop := ∀ k ∈ ks, k.kind.isLoss = false

/-- What an expression asks for with the mark in front. -/
def SameShape (s : Source) (scope joinName : Text) (n : Node) : Prop :=
  NoneLost (s.marked.classify joinName n).skips →
    List.Forall₂ Found ((s.marked.classify joinName n).rewrites scope)
      ((s.classify joinName n).rewrites scope) ∧
    (s.marked.classify joinName n).skips = (s.classify joinName n).skips

theorem sameShape_all {ns : List Node} (h : ∀ n ∈ ns, n.SameShape s scope joinName)
    (hlost : NoneLost (ClassExpr.skipsAll (s.marked.classifyAll joinName ns))) :
    List.Forall₂ Found (ClassExpr.rewritesAll scope (s.marked.classifyAll joinName ns))
      (ClassExpr.rewritesAll scope (s.classifyAll joinName ns)) ∧
    ClassExpr.skipsAll (s.marked.classifyAll joinName ns) =
      ClassExpr.skipsAll (s.classifyAll joinName ns) := by
  induction ns with
  | nil => exact ⟨.nil, rfl⟩
  | cons n ns ih =>
    obtain ⟨hn, hns⟩ := List.forall_mem_cons.mp h
    simp only [Source.classifyAll, ClassExpr.skipsAll, ClassExpr.rewritesAll] at hlost ⊢
    obtain ⟨hlost, hlosts⟩ := List.forall_mem_append.mp hlost
    obtain ⟨hfound, hskips⟩ := hn hlost
    obtain ⟨hfounds, hskipss⟩ := ih hns hlosts
    exact ⟨List.rel_append hfound hfounds, by rw [hskips, hskipss]⟩

theorem skip_marked (hplain : s.text.head? ≠ some '\uFEFF') (kind : SkipKind) (span : Span) :
    s.marked.skip kind span = s.skip kind span := by
  rw [Source.skip, Source.skip, Source.line_marked hplain]

theorem sameShape_of_skip {n : Node} {kind : SkipKind} {span : Span}
    (hplain : s.text.head? ≠ some '\uFEFF')
    (hm : s.marked.classify joinName n = s.marked.skip kind span)
    (hs : s.classify joinName n = s.skip kind span) : n.SameShape s scope joinName := by
  intro _
  rw [hm, hs, skip_marked hplain]
  exact ⟨.nil, rfl⟩

theorem sameShape_string {span : Span} {text : Text} (h : s.QuotedAt span) :
    (Node.string span (some text)).SameShape s scope joinName := by
  intro hlost
  obtain ⟨quote, raw, hq, hraw⟩ := h
  have hs : s.stringLiteral? span text = some _ :=
    Source.stringLiteral?_eq_some_iff.mpr ⟨quote, raw, hq, hraw, rfl⟩
  simp only [Source.classify, hs] at hlost ⊢
  cases hm : s.marked.stringLiteral? span text with
  | none =>
    simp only [hm] at hlost
    have hloss : true = false := hlost _ (List.mem_singleton_self _)
    cases hloss
  | some l =>
    obtain ⟨quote', raw', -, -, rfl⟩ := Source.stringLiteral?_eq_some_iff.mp hm
    exact ⟨.cons (.of_start_eq Iff.rfl rfl) .nil, rfl⟩

theorem sameShape_template (hplain : s.text.head? ≠ some '\uFEFF') {span : Span}
    {segments : List Segment} {parts : List Node}
    (hplaced : (Node.template span segments parts).Placed s)
    (hlaced : Laced s (parts.map Node.span) segments)
    (hparts : ∀ p ∈ parts, p.SameShape s scope joinName) :
    (Node.template span segments parts).SameShape s scope joinName := by
  intro hlost
  obtain ⟨hlen, hreads⟩ := hplaced.reads
  have hlen' : segments.length = (parts.map Node.span).length + 1 := by simpa using hlen
  simp only [Source.classify, Source.templateExpr] at hlost ⊢
  split at hlost
  · rename_i hescaped
    rw [if_pos hescaped, if_pos hescaped, skip_marked hplain]
    exact ⟨.nil, rfl⟩
  · rename_i hescaped
    rw [if_neg hescaped, if_neg hescaped, Source.segments?_of_reads hlen' hreads]
    cases hm : s.marked.segments? span none (parts.map Node.span) segments with
    | none =>
      rw [hm] at hlost
      have hloss : true = false := hlost _ (List.mem_singleton_self _)
      cases hloss
    | some ls =>
      rw [hm] at hlost
      have hfirst : ∀ g ∈ segments.head?, ∀ start,
          s.marked.segmentStart? span none = some start → start ≤ g.span.lo - 1 + 3 := by
        intro g hg start hstart
        obtain ⟨range, hrange, rfl⟩ := Option.map_eq_some_iff.mp hstart
        obtain ⟨hlo, rfl⟩ := Source.range?_marked hrange
        -- The first segment lies inside of the template.
        have hmem : g ∈ segments := List.mem_of_mem_head? hg
        have hown : (Node.template span segments parts).ownSpan? = some span := by
          simp [ownSpan?, Node.span, Span.own?, hlo]
        have hsib : [g.span] ∈ (Node.template span segments parts).siblings :=
          List.mem_append_left _ (List.mem_map_of_mem (List.mem_map_of_mem hmem))
        have hin := hplaced.inside span hown _ hsib g.span (List.mem_singleton_self _)
        have hle : span.lo ≤ g.span.lo := hin.1
        dsimp only
        omega
      have hdrift := Source.segments?_marked hplain hlaced hfirst hm
      have hcount : ls.length = parts.length + 1 := by
        rw [hdrift.length_eq, List.length_map, hlen]
      have hstops : ∀ k ∈ segments.map s.segmentLiteral,
          k.style = .segment ∧ k.stop = k.start + Text.size k.text := by
        intro k hk
        obtain ⟨g, hg, rfl⟩ := List.mem_map.mp hk
        obtain ⟨-, -, hs⟩ := Source.slice?_eq_some_iff.mp (hreads g hg)
        obtain ⟨-, -, -, -, hstop⟩ := Text.slice?_eq_some_iff.mp hs
        exact ⟨rfl, hstop.symm⟩
      simp only [Source.length_classifyAll, hcount, List.length_map, hlen, if_true,
        ClassExpr.skips, ClassExpr.rewrites] at hlost ⊢
      obtain ⟨hfound, hskips⟩ := sameShape_all hparts hlost
      exact ⟨List.rel_append (found_segmentRewrites hdrift hstops) hfound, hskips⟩

/-- If nothing of an expression is passed over with the mark in front, all of it is found, in the
same order. -/
theorem sameShape (hplain : s.text.head? ≠ some '\uFEFF') {prints : List Span} {n : Node}
    (h : n.Faithful s) (hspaced : ∀ m ∈ n.subtrees, m.Delimited s prints) :
    n.SameShape s scope joinName := by
  induction n using parts_induction with
  | h n ih =>
    have hpart : ∀ p ∈ n.parts, p.SameShape s scope joinName := fun p hp =>
      ih p hp (h.part hp) fun m hm => hspaced m (mem_subtrees_of_mem_parts hp hm)
    cases n with
    | string span value =>
      cases value with
      | none => exact sameShape_of_skip hplain rfl rfl
      | some text => exact sameShape_string h.placed.reads
    | parens span inner => exact hpart inner (List.mem_singleton_self inner)
    | conditional span test c a =>
      intro hlost
      simp only [Source.classify, ClassExpr.skips, ClassExpr.rewrites] at hlost ⊢
      obtain ⟨hlostc, hlosta⟩ := List.forall_mem_append.mp hlost
      obtain ⟨hfoundc, hskipsc⟩ := hpart c (by simp [parts]) hlostc
      obtain ⟨hfounda, hskipsa⟩ := hpart a (by simp [parts]) hlosta
      exact ⟨List.rel_append hfoundc hfounda, by rw [hskipsc, hskipsa]⟩
    | template span segments parts =>
      exact sameShape_template hplain h.placed (hspaced _ (mem_subtrees_self _)) hpart
    | call span callee arguments =>
      cases callee with
      | identifier nameSpan name =>
        by_cases hname : name = joinName
        · intro hlost
          simp only [Source.classify, if_pos hname, ClassExpr.skips, ClassExpr.rewrites]
            at hlost ⊢
          exact sameShape_all (fun p hp => hpart p (List.mem_cons_of_mem _ hp)) hlost
        · have hskip : ∀ s : Source, s.classify joinName
              (.call span (.identifier nameSpan name) arguments) = s.skip (.shape .call) span := by
            intro s
            rw [Source.classify, if_neg hname]
          exact sameShape_of_skip hplain (hskip _) (hskip _)
      | _ => exact sameShape_of_skip hplain rfl rfl
    | _ => exact sameShape_of_skip hplain rfl rfl

theorem noneLost_all {ns : List Node} (h : ∀ n ∈ ns, NoneLost (s.classify joinName n).skips) :
    NoneLost (ClassExpr.skipsAll (s.classifyAll joinName ns)) := by
  induction ns with
  | nil => exact fun k hk => absurd hk List.not_mem_nil
  | cons n ns ih =>
    obtain ⟨hn, hns⟩ := List.forall_mem_cons.mp h
    rw [Source.classifyAll, ClassExpr.skipsAll]
    exact List.forall_mem_append.mpr ⟨hn, ih hns⟩

theorem noneLost_classify {n : Node} (h : n.Faithful s) :
    NoneLost (s.classify joinName n).skips := by
  induction n using parts_induction with
  | h n ih =>
    have hpart : ∀ p ∈ n.parts, NoneLost (s.classify joinName p).skips :=
      fun p hp => ih p hp (h.part hp)
    have hskip : ∀ {kind : SkipKind} {span : Span}, kind.isLoss = false →
        NoneLost (s.skip kind span).skips := by
      intro kind span hkind k hk
      obtain rfl := List.mem_singleton.mp hk
      exact hkind
    cases n with
    | string span value =>
      cases value with
      | none => exact hskip rfl
      | some text =>
        obtain ⟨quote, raw, hq, hraw⟩ := h.placed.reads
        have hs : s.stringLiteral? span text = some _ :=
          Source.stringLiteral?_eq_some_iff.mpr ⟨quote, raw, hq, hraw, rfl⟩
        simp only [Source.classify, hs]
        exact fun k hk => absurd hk List.not_mem_nil
    | parens span inner => exact hpart inner (List.mem_singleton_self inner)
    | conditional span test c a =>
      exact List.forall_mem_append.mpr ⟨hpart c (by simp [parts]), hpart a (by simp [parts])⟩
    | template span segments parts =>
      obtain ⟨hlen, hreads⟩ := h.placed.reads
      have hlen' : segments.length = (parts.map Node.span).length + 1 := by simpa using hlen
      rw [Source.classify, Source.templateExpr]
      split
      · exact hskip rfl
      · rw [Source.segments?_of_reads hlen' hreads]
        simp only [Source.length_classifyAll, List.length_map, hlen, if_true]
        exact noneLost_all hpart
    | call span callee arguments =>
      cases callee with
      | identifier nameSpan name =>
        rw [Source.classify]
        split
        · exact noneLost_all fun p hp => hpart p (List.mem_cons_of_mem _ hp)
        · exact hskip rfl
      | _ => exact hskip rfl
    | _ => exact hskip rfl

theorem quoted_eq_nil_iff {span : Span} {quote : Char} {text : Text}
    (hq : quote = '"' ∨ quote = '\'') (h : s.slice? span = some (quote :: text ++ [quote])) :
    text = [] ↔ span.hi = span.lo + 2 := by
  obtain ⟨hlo, hle, hs⟩ := Source.slice?_eq_some_iff.mp h
  obtain ⟨-, -, -, -, hstop⟩ := Text.slice?_eq_some_iff.mp hs
  have hbyte : quote.utf8Size = 1 := by rcases hq with rfl | rfl <;> decide
  rw [Text.size_append, Text.size_cons, Text.size_cons, Text.size_nil, hbyte] at hstop
  rw [← Text.size_eq_zero_iff]
  omega

theorem counts_qualify_iff (hscope : ∀ c ∈ scope, Text.isBlank c = false) {l : ClassLiteral} :
    Counts ⟨l, ClassList.qualify scope l.text⟩ ↔ l.text ≠ [] :=
  ⟨And.left, fun h => ⟨h, (ClassList.qualify_ne_self hscope h).symm⟩⟩

/-- What becomes of the value of an attribute with the mark in front: the same, or it is passed over
for not being in quotes, or an element is taken for a text in quotes. -/
theorem value_marked (hplain : s.text.head? ≠ some '\uFEFF')
    (hscope : ∀ c ∈ settings.scope, Text.isBlank c = false) {prints : List Span}
    {name : Option Text} {v : Node} (h : (Node.attr name v).Faithful s)
    (hspaced : ∀ m ∈ (Node.attr name v).subtrees, m.Delimited s prints)
    (hlost : NoneLost (v.valueSkips s.marked settings)) :
    (List.Forall₂ Found (v.valueRewrites s.marked settings) (v.valueRewrites s settings) ∧
      v.valueSkips s.marked settings = v.valueSkips s settings) ∨
    (v.valueSkips s settings = [] ∧ ∃ k, v.valueSkips s.marked settings = [k]) ∨
    ∃ shape span parts, v = .other shape span parts ∧
      ∃ r ∈ v.valueRewrites s.marked settings, r.Counts ∧ r.literal.start = span.lo - 1 := by
  have hreads := h.placed.reads
  cases v with
  | quoted span =>
    obtain ⟨quote, text, hq, hraw⟩ := (h.part (List.mem_singleton_self _)).placed.reads
    have hs : s.attributeLiteral? span = some _ :=
      Source.attributeLiteral?_eq_some_iff.mpr ⟨quote, text, hq, hraw, rfl⟩
    simp only [valueRewrites, valueSkips, Source.classifyValue, Node.span, hs]
    cases hm : s.marked.attributeLiteral? span with
    | none => exact Or.inr (Or.inl ⟨rfl, _, rfl⟩)
    | some l =>
      obtain ⟨quote', text', hq', hraw', rfl⟩ := Source.attributeLiteral?_eq_some_iff.mp hm
      refine Or.inl ⟨.cons (.of_start_eq ?_ rfl) .nil, rfl⟩
      rw [counts_qualify_iff hscope, counts_qualify_iff hscope, Ne, Ne, quoted_eq_nil_iff hq hraw,
        quoted_eq_nil_iff hq' hraw']
  | slot span inner =>
    have hinner : inner.Faithful s :=
      (h.part (List.mem_singleton_self _)).part (List.mem_singleton_self _)
    have hdelimited : ∀ m ∈ inner.subtrees, m.Delimited s prints := by
      intro m hm
      refine hspaced m (mem_subtrees_of_mem_parts (List.mem_singleton_self _) ?_)
      exact mem_subtrees_of_mem_parts (List.mem_singleton_self inner) hm
    exact Or.inl (sameShape hplain hinner hdelimited hlost)
  | other shape span parts =>
    obtain ⟨hlong, -⟩ := hspaced _ (mem_subtrees_self _)
    rcases valueRewrites_cases settings hreads with
      ⟨_, hv, -⟩ | ⟨_, _, hv, -⟩ | ⟨_, _, _, -, hnone⟩
    · cases hv
    · cases hv
    · simp only [valueRewrites, valueSkips, Source.classifyValue, Node.span] at hnone ⊢
      cases hm : s.marked.attributeLiteral? span with
      | none =>
        cases hs : s.attributeLiteral? span with
        | none =>
          rw [skip_marked hplain]
          exact Or.inl ⟨.nil, rfl⟩
        | some l => simp [hs, ClassValue.rewrites] at hnone
      | some l =>
        obtain ⟨quote', text', hq', hraw', rfl⟩ := Source.attributeLiteral?_eq_some_iff.mp hm
        refine Or.inr (Or.inr ⟨shape, span, parts, rfl, _, List.mem_singleton_self _, ?_, rfl⟩)
        rw [counts_qualify_iff hscope, Ne, quoted_eq_nil_iff hq' hraw']
        omega
  | _ => exact hreads.elim

end Node
end ClassScope
