import Mathlib.Data.List.Perm.Subperm
import ClassScope.Proofs.Ledger
import ClassScope.Proofs.Splice
import ClassScope.Proofs.Tree
import ClassScope.Transform

/-! Which literals a transform rewrites. Class position is said of the tree alone: a quoted value of
the attribute, or a literal that the braced value leads to through brackets, branches,
interpolations and arguments of the join function. The edits of a transform are the literals in
class position that change, each once, and the rest of the source stays as it is. -/
namespace ClassScope

namespace Node

/-- The second node gives class names to the first: it is the first, or stands in brackets, in a
branch, in an interpolation of a template without escapes, or as an argument of the join function.
A spread argument gives none, since nothing leads on from it. -/
inductive Carries (joinName : Text) : Node → Node → Prop
  | refl (n : Node) : Carries joinName n n
  | parens {span : Span} {inner m : Node} (h : Carries joinName inner m) :
      Carries joinName (.parens span inner) m
  | consequent {span : Span} {test c a m : Node} (h : Carries joinName c m) :
      Carries joinName (.conditional span test c a) m
  | alternate {span : Span} {test c a m : Node} (h : Carries joinName a m) :
      Carries joinName (.conditional span test c a) m
  | interpolation {span : Span} {segments : List Segment} {parts : List Node} {p m : Node}
      (hplain : ∀ g ∈ segments, '\\' ∉ g.raw) (hp : p ∈ parts) (h : Carries joinName p m) :
      Carries joinName (.template span segments parts) m
  | argument {span nameSpan : Span} {arguments : List Node} {p m : Node}
      (hp : p ∈ arguments) (h : Carries joinName p m) :
      Carries joinName (.call span (.identifier nameSpan joinName) arguments) m

/-- A literal in class position, and the text it is to get. -/
inductive InClassPosition (s : Source) (settings : Settings) (nodes : List Node) : Rewrite → Prop
  | quoted {span : Span} {quote : Char} {text : Text}
      (hattr : .attr (some settings.attributeName) (.quoted span) ∈ subtreesAll nodes)
      (hreads : s.slice? span = some (quote :: text ++ [quote])) :
      InClassPosition s settings nodes
        ⟨⟨.attr quote, span.lo - 1, span.hi - 1, text, s.line span.lo⟩,
          ClassList.qualify settings.scope text⟩
  | string {slot span : Span} {e : Node} {quote : Char} {raw text : Text}
      (hattr : .attr (some settings.attributeName) (.slot slot e) ∈ subtreesAll nodes)
      (hcarries : Carries settings.joinName e (.string span (some text)))
      (hreads : s.slice? span = some (quote :: raw ++ [quote])) :
      InClassPosition s settings nodes
        ⟨⟨.string quote, span.lo - 1, span.hi - 1, text, s.line span.lo⟩,
          ClassList.qualify settings.scope text⟩
  | segment {slot span : Span} {e : Node} {segments : List Segment} {parts : List Node} {i : Nat}
      {g : Segment}
      (hattr : .attr (some settings.attributeName) (.slot slot e) ∈ subtreesAll nodes)
      (hcarries : Carries settings.joinName e (.template span segments parts))
      (hplain : ∀ g ∈ segments, '\\' ∉ g.raw) (hg : segments[i]? = some g) :
      InClassPosition s settings nodes
        ⟨⟨.segment, g.span.lo - 1, g.span.hi - 1, g.raw, s.line g.span.lo⟩,
          ClassList.qualifySegment settings.scope ⟨decide (0 < i), decide (i + 1 < segments.length)⟩
            g.raw⟩

/-- The parts that lead on to class names. -/
def carriers (joinName : Text) : Node → List Node
  | .parens _ inner => [inner]
  | .conditional _ _ c a => [c, a]
  | .template _ segments parts => if segments.any (·.raw.contains '\\') then [] else parts
  | .call _ (.identifier _ name) arguments => if name = joinName then arguments else []
  | _ => []

theorem carriers_sublist (joinName : Text) (n : Node) : (n.carriers joinName).Sublist n.parts := by
  unfold carriers
  split <;> simp only [parts]
  · exact List.Sublist.refl _
  · exact List.sublist_cons_self _ _
  · split
    · exact List.nil_sublist _
    · exact List.Sublist.refl _
  · split
    · exact List.sublist_cons_self _ _
    · exact List.nil_sublist _
  · exact List.nil_sublist _

theorem any_contains_backslash {segments : List Segment} :
    segments.any (·.raw.contains '\\') = false ↔ ∀ g ∈ segments, '\\' ∉ g.raw := by
  simp [List.any_eq_false]

theorem carries_iff {joinName : Text} {n m : Node} :
    Carries joinName n m ↔ m = n ∨ ∃ p ∈ n.carriers joinName, Carries joinName p m := by
  constructor
  · intro h
    cases h with
    | refl => exact Or.inl rfl
    | parens h => exact Or.inr ⟨_, List.mem_singleton_self _, h⟩
    | consequent h => exact Or.inr ⟨_, by simp [carriers], h⟩
    | alternate h => exact Or.inr ⟨_, by simp [carriers], h⟩
    | interpolation hplain hp h =>
      refine Or.inr ⟨_, ?_, h⟩
      rw [carriers, any_contains_backslash.mpr hplain]
      exact hp
    | argument hp h => exact Or.inr ⟨_, by simpa [carriers] using hp, h⟩
  · rintro (rfl | ⟨p, hp, h⟩)
    · exact .refl m
    · unfold carriers at hp
      split at hp
      · obtain rfl := List.mem_singleton.mp hp
        exact .parens h
      · rcases List.mem_pair.mp hp with rfl | rfl
        · exact .consequent h
        · exact .alternate h
      · split at hp
        · cases hp
        · rename_i hplain
          exact .interpolation (any_contains_backslash.mp (by simpa using hplain)) hp h
      · split at hp
        · rename_i hname
          subst hname
          exact .argument hp h
        · cases hp
      · cases hp

def ownValues (name : Text) : Node → List Node
  | .attr attrName value => if attrName = some name then [value] else []
  | _ => []

theorem valuesOfAll_eq (name : Text) (ns : List Node) :
    valuesOfAll name ns = ns.flatMap (valuesOf name) := by
  induction ns with
  | nil => rfl
  | cons n ns ih => rw [valuesOfAll, ih, List.flatMap_cons]

theorem valuesOf_eq (name : Text) (n : Node) :
    n.valuesOf name = n.ownValues name ++ n.parts.flatMap (valuesOf name) := by
  cases n <;> simp [valuesOf, ownValues, parts, valuesOfAll_eq]

theorem mem_ownValues {name : Text} {n v : Node} :
    v ∈ n.ownValues name ↔ n = .attr (some name) v := by
  unfold ownValues
  split
  · rename_i attrName value
    by_cases hname : attrName = some name
    · simp [hname, eq_comm]
    · simp [hname]
  · rename_i hn
    constructor
    · intro h
      cases h
    · intro h
      exact absurd h (hn _ _)

theorem mem_valuesOf {name : Text} {n v : Node} :
    v ∈ n.valuesOf name ↔ .attr (some name) v ∈ n.subtrees := by
  induction n using parts_induction with
  | h n ih =>
    rw [valuesOf_eq, subtrees_eq, List.mem_append, List.mem_cons, mem_ownValues, List.mem_flatMap,
      List.mem_flatMap, eq_comm]
    refine or_congr_right (exists_congr fun p => ?_)
    exact and_congr_right fun hp => ih p hp

end Node

namespace Source

variable {s : Source}

def segmentLiteral (s : Source) (g : Segment) : ClassLiteral :=
  ⟨.segment, g.span.lo - 1, g.span.hi - 1, g.raw, s.line g.span.lo⟩

theorem stringLiteral?_eq_some_iff {span : Span} {text : Text} {l : ClassLiteral} :
    s.stringLiteral? span text = some l ↔
      ∃ quote raw, (quote = '"' ∨ quote = '\'') ∧ s.slice? span = some (quote :: raw ++ [quote]) ∧
        l = ⟨.string quote, span.lo - 1, span.hi - 1, text, s.line span.lo⟩ := by
  constructor
  · intro h
    simp only [stringLiteral?, Option.bind_eq_bind, Option.bind_eq_some_iff] at h
    obtain ⟨raw, hraw, quote, hquote, range, hrange, hl⟩ := h
    obtain ⟨hq, text, rfl⟩ := quoteOf?_eq_some_iff.mp hquote
    rw [range?_of_slice? hraw] at hrange
    cases hrange
    cases hl
    exact ⟨quote, text, hq, hraw, rfl⟩
  · rintro ⟨quote, raw, hq, hraw, rfl⟩
    have hquote : quoteOf? (quote :: raw ++ [quote]) = some quote :=
      quoteOf?_eq_some_iff.mpr ⟨hq, raw, rfl⟩
    simp only [stringLiteral?, hraw, range?_of_slice? hraw, Option.bind_eq_bind, Option.bind_some,
      hquote]
    rfl

theorem attributeLiteral?_eq_some_iff {span : Span} {l : ClassLiteral} :
    s.attributeLiteral? span = some l ↔
      ∃ quote text, (quote = '"' ∨ quote = '\'') ∧
        s.slice? span = some (quote :: text ++ [quote]) ∧
        l = ⟨.attr quote, span.lo - 1, span.hi - 1, text, s.line span.lo⟩ := by
  constructor
  · intro h
    simp only [attributeLiteral?, Option.bind_eq_bind, Option.bind_eq_some_iff] at h
    obtain ⟨raw, hraw, quote, hquote, range, hrange, hl⟩ := h
    obtain ⟨hq, text, rfl⟩ := quoteOf?_eq_some_iff.mp hquote
    rw [range?_of_slice? hraw] at hrange
    cases hrange
    cases hl
    exact ⟨quote, text, hq, hraw, by simp⟩
  · rintro ⟨quote, text, hq, hraw, rfl⟩
    have hquote : quoteOf? (quote :: text ++ [quote]) = some quote :=
      quoteOf?_eq_some_iff.mpr ⟨hq, text, rfl⟩
    simp only [attributeLiteral?, hraw, range?_of_slice? hraw, Option.bind_eq_bind,
      Option.bind_some, hquote]
    simp

theorem rangeReading?_eq_some_iff {raw : Text} {range range' : Nat × Nat} :
    s.rangeReading? raw range = some range' ↔
      range' = range ∧ s.text.slice? range.1 range.2 = some raw := by
  unfold rangeReading?
  split
  · rename_i h
    simp [h, eq_comm]
  · rename_i h
    simp [h]

theorem segmentRange?_of_slice? {template : Span} {previous : Option Span} {g : Segment}
    (h : s.slice? g.span = some g.raw) :
    s.segmentRange? template previous g = some (g.span.lo - 1, g.span.hi - 1) := by
  obtain ⟨-, -, hs⟩ := slice?_eq_some_iff.mp h
  have hown : (s.range? g.span).bind (s.rangeReading? g.raw) =
      some (g.span.lo - 1, g.span.hi - 1) := by
    rw [range?_of_slice? h, Option.bind_some, rangeReading?, if_pos hs]
  rw [segmentRange?, hown, Option.some_or]

theorem segments?_cons_eq_some {template : Span} {previous : Option Span} {spans : List Span}
    {g : Segment} {gs : List Segment} {ls : List ClassLiteral}
    (h : s.segments? template previous spans (g :: gs) = some ls) :
    ∃ range more, s.segmentRange? template previous g = some range ∧
      ls = ⟨.segment, range.1, range.2, g.raw, s.line g.span.lo⟩ :: more ∧
      (gs = [] ∧ more = [] ∨ ∃ p ps, spans = p :: ps ∧
        s.segments? template (some p) ps gs = some more) := by
  rw [segments?] at h
  simp only [Option.bind_eq_bind, Option.bind_eq_some_iff] at h
  obtain ⟨range, hrange, h⟩ := h
  split at h
  · exact ⟨range, [], hrange, (Option.some.inj h).symm, Or.inl ⟨rfl, rfl⟩⟩
  · cases h
  · obtain ⟨more, hmore, hls⟩ := Option.bind_eq_some_iff.mp h
    exact ⟨range, more, hrange, (Option.some.inj hls).symm, Or.inr ⟨_, _, rfl, hmore⟩⟩

theorem segments?_nil (template : Span) (previous : Option Span) (spans : List Span) :
    s.segments? template previous spans [] = some [] := by
  cases spans <;> rw [segments?]

theorem segments?_of_reads {template : Span} {previous : Option Span} {spans : List Span}
    {segments : List Segment} (hlen : segments.length = spans.length + 1)
    (hreads : ∀ g ∈ segments, s.slice? g.span = some g.raw) :
    s.segments? template previous spans segments = some (segments.map s.segmentLiteral) := by
  induction segments generalizing previous spans with
  | nil => simp at hlen
  | cons g gs ih =>
    have hrest : ∀ g ∈ gs, s.slice? g.span = some g.raw :=
      fun g' hg' => hreads g' (List.mem_cons_of_mem _ hg')
    rw [segments?, segmentRange?_of_slice? (hreads g List.mem_cons_self)]
    cases gs with
    | nil => rfl
    | cons g' gs =>
      cases spans with
      | nil => simp at hlen
      | cons span spans =>
        have hmore : s.segments? template (some span) spans (g' :: gs) =
            some ((g' :: gs).map s.segmentLiteral) := ih (by simpa using hlen) hrest
        simp only [Option.bind_eq_bind, Option.bind_some, hmore]
        rfl

theorem length_classifyAll (s : Source) (joinName : Text) (ns : List Node) :
    (s.classifyAll joinName ns).length = ns.length := by
  induction ns with
  | nil => rfl
  | cons n ns ih => simp [classifyAll, ih]

end Source

namespace Node

variable {s : Source} {scope joinName : Text}

def ownRewrites (s : Source) (scope : Text) : Node → List Rewrite
  | .string span (some text) =>
    (s.stringLiteral? span text).toList.map fun l => ⟨l, ClassList.qualify scope l.text⟩
  | .template _ segments _ =>
    if segments.any (·.raw.contains '\\') then []
    else segmentRewrites scope false (segments.map s.segmentLiteral)
  | _ => []

theorem rewritesAll_classifyAll (ns : List Node) :
    ClassExpr.rewritesAll scope (s.classifyAll joinName ns) =
      ns.flatMap fun n => (s.classify joinName n).rewrites scope := by
  induction ns with
  | nil => rfl
  | cons n ns ih => rw [Source.classifyAll, ClassExpr.rewritesAll, ih, List.flatMap_cons]

/-- What an expression asks for is what its own literals do and what the parts do that it leads
on to. -/
theorem rewrites_classify {n : Node} (h : n.Reads s) :
    (s.classify joinName n).rewrites scope =
      n.ownRewrites s scope ++
        (n.carriers joinName).flatMap fun p => (s.classify joinName p).rewrites scope := by
  cases n with
  | string span value =>
    cases value with
    | none => rfl
    | some text =>
      rw [Source.classify]
      cases hl : s.stringLiteral? span text <;>
        simp [hl, ownRewrites, carriers, ClassExpr.rewrites, Source.skip]
  | parens span inner => simp [Source.classify, ownRewrites, carriers]
  | conditional span test c a =>
    simp [Source.classify, ownRewrites, carriers, ClassExpr.rewrites]
  | template span segments parts =>
    obtain ⟨hlen, hreads⟩ := h
    rw [Source.classify, Source.templateExpr, ownRewrites, carriers]
    split
    · rfl
    · rw [Source.segments?_of_reads (by simpa using hlen) hreads]
      simp [Source.length_classifyAll, hlen, ClassExpr.rewrites, rewritesAll_classifyAll]
  | call span callee arguments =>
    cases callee with
    | identifier nameSpan name =>
      rw [Source.classify, carriers]
      split
      · rw [ClassExpr.rewrites, rewritesAll_classifyAll]
        rfl
      · rfl
    | _ => rfl
  | _ => rfl

theorem mem_rewrites_classify {n : Node} {r : Rewrite} (h : n.Faithful s) :
    r ∈ (s.classify joinName n).rewrites scope ↔
      ∃ m, Carries joinName n m ∧ r ∈ m.ownRewrites s scope := by
  induction n using parts_induction with
  | h n ih =>
    have hpart : ∀ p ∈ n.carriers joinName, p ∈ n.parts :=
      fun p hp => (carriers_sublist joinName n).subset hp
    rw [rewrites_classify h.placed.reads, List.mem_append, List.mem_flatMap]
    constructor
    · rintro (hr | ⟨p, hp, hr⟩)
      · exact ⟨n, .refl n, hr⟩
      · obtain ⟨m, hm, hr⟩ := (ih p (hpart p hp) (h.part (hpart p hp))).mp hr
        exact ⟨m, carries_iff.mpr (Or.inr ⟨p, hp, hm⟩), hr⟩
    · rintro ⟨m, hm, hr⟩
      rcases carries_iff.mp hm with rfl | ⟨p, hp, hm⟩
      · exact Or.inl hr
      · exact Or.inr ⟨p, hp, (ih p (hpart p hp) (h.part (hpart p hp))).mpr ⟨m, hm, hr⟩⟩

theorem Carries.mem_subtrees {n m : Node} (hm : Carries joinName n m) : m ∈ n.subtrees := by
  induction n using parts_induction with
  | h n ih =>
    rcases carries_iff.mp hm with rfl | ⟨p, hp, hm⟩
    · exact mem_subtrees_self m
    · have hpart := (carriers_sublist joinName n).subset hp
      exact mem_subtrees_of_mem_parts hpart (ih p hpart hm)

theorem Carries.faithful {n m : Node} (hm : Carries joinName n m) (h : n.Faithful s) :
    m.Faithful s :=
  h.sub hm.mem_subtrees

theorem mem_segmentRewrites {after : Bool} {ls : List ClassLiteral} {r : Rewrite} :
    r ∈ segmentRewrites scope after ls ↔ ∃ i l, ls[i]? = some l ∧
      r = ⟨l, ClassList.qualifySegment scope ⟨after || decide (0 < i), decide (i + 1 < ls.length)⟩
        l.text⟩ := by
  induction ls generalizing after with
  | nil => simp [segmentRewrites]
  | cons l ls ih =>
    rw [segmentRewrites, List.mem_cons, ih]
    constructor
    · rintro (rfl | ⟨i, l', hl', rfl⟩)
      · refine ⟨0, l, rfl, ?_⟩
        cases ls <;> simp
      · exact ⟨i + 1, l', hl', by simp⟩
    · rintro ⟨i, l', hl', rfl⟩
      cases i with
      | zero =>
        obtain rfl : l = l' := by simpa using hl'
        left
        cases ls <;> simp
      | succ i => exact Or.inr ⟨i, l', hl', by simp⟩

/-- The literals of its own that a node has rewritten. -/
theorem mem_ownRewrites {m : Node} {r : Rewrite} (h : m.Reads s) :
    r ∈ m.ownRewrites s scope ↔
      (∃ span text quote raw, m = .string span (some text) ∧
        s.slice? span = some (quote :: raw ++ [quote]) ∧
        r = ⟨⟨.string quote, span.lo - 1, span.hi - 1, text, s.line span.lo⟩,
          ClassList.qualify scope text⟩) ∨
      ∃ span segments parts i g, m = .template span segments parts ∧
        (∀ g ∈ segments, '\\' ∉ g.raw) ∧ segments[i]? = some g ∧
        r = ⟨s.segmentLiteral g, ClassList.qualifySegment scope
          ⟨decide (0 < i), decide (i + 1 < segments.length)⟩ g.raw⟩ := by
  constructor
  · intro hr
    unfold ownRewrites at hr
    split at hr
    · rename_i span text
      obtain ⟨l, hl, rfl⟩ := List.mem_map.mp hr
      obtain ⟨quote, raw, -, hraw, rfl⟩ :=
        Source.stringLiteral?_eq_some_iff.mp (Option.mem_toList.mp hl)
      exact Or.inl ⟨span, text, quote, raw, rfl, hraw, rfl⟩
    · rename_i span segments parts
      split at hr
      · cases hr
      · rename_i hplain
        obtain ⟨i, l, hl, rfl⟩ := mem_segmentRewrites.mp hr
        obtain ⟨g, hg, rfl⟩ := Option.map_eq_some_iff.mp (List.getElem?_map ▸ hl)
        refine Or.inr ⟨span, segments, parts, i, g, rfl, ?_, hg, by simp [Source.segmentLiteral]⟩
        exact any_contains_backslash.mp ((Bool.not_eq_true _).mp hplain)
    · cases hr
  · rintro (⟨span, text, quote, raw, rfl, hraw, rfl⟩ |
      ⟨span, segments, parts, i, g, rfl, hplain, hg, rfl⟩)
    · have hq := Source.QuotedAt.isQuote h hraw
      exact List.mem_map.mpr ⟨_, Option.mem_toList.mpr
        (Source.stringLiteral?_eq_some_iff.mpr ⟨quote, raw, hq, hraw, rfl⟩), rfl⟩
    · rw [ownRewrites, any_contains_backslash.mpr hplain]
      refine mem_segmentRewrites.mpr ⟨i, s.segmentLiteral g, ?_, by simp [Source.segmentLiteral]⟩
      rw [List.getElem?_map, hg, Option.map_some]

/-- A whole source as one node. -/
def root (nodes : List Node) : Node := .other .expression ⟨0, 0⟩ nodes

def valueRewrites (s : Source) (settings : Settings) (v : Node) : List Rewrite :=
  (s.classifyValue settings.joinName v).rewrites settings.scope

def valueSkips (s : Source) (settings : Settings) (v : Node) : List Skipped :=
  (s.classifyValue settings.joinName v).skips

/-- All rewrites that a source asks for, in the order of visiting. -/
def allRewrites (s : Source) (settings : Settings) (n : Node) : List Rewrite :=
  (n.valuesOf settings.attributeName).flatMap (valueRewrites s settings)

def allSkips (s : Source) (settings : Settings) (n : Node) : List Skipped :=
  (n.valuesOf settings.attributeName).flatMap (valueSkips s settings)

/-- The values of an attribute are a text in quotes, an expression in braces, or an element, which
has nothing to rewrite. -/
theorem valueRewrites_cases (settings : Settings) {name : Option Text} {v : Node}
    (h : (Node.attr name v).Reads s) :
    (∃ span, v = .quoted span ∧ v.valueRewrites s settings =
      (s.attributeLiteral? span).toList.map fun l =>
        ⟨l, ClassList.qualify settings.scope l.text⟩) ∨
    (∃ span inner, v = .slot span inner ∧ v.valueRewrites s settings =
      (s.classify settings.joinName inner).rewrites settings.scope) ∨
    (∃ shape span parts, v = .other shape span parts ∧ v.valueRewrites s settings = []) := by
  cases v with
  | quoted span =>
    refine Or.inl ⟨span, rfl, ?_⟩
    rw [valueRewrites, Source.classifyValue]
    · cases hl : s.attributeLiteral? span <;>
        simp [Node.span, hl, ClassValue.rewrites, ClassExpr.rewrites, Source.skip]
    · simp
  | slot span inner => exact Or.inr (Or.inl ⟨span, inner, rfl, rfl⟩)
  | other shape span parts =>
    refine Or.inr (Or.inr ⟨shape, span, parts, rfl, ?_⟩)
    -- The text of an element starts with a bracket and not with a quote.
    have hnone : s.attributeLiteral? span = none := by
      rw [Option.eq_none_iff_forall_ne_some]
      intro l hl
      obtain ⟨quote, text, hq, hraw, -⟩ := Source.attributeLiteral?_eq_some_iff.mp hl
      have hhead : (s.slice? span).bind List.head? = some '<' := h
      rw [hraw] at hhead
      rcases hq with rfl | rfl <;> simp at hhead
    rw [valueRewrites, Source.classifyValue]
    · simp [Node.span, hnone, ClassValue.rewrites, ClassExpr.rewrites, Source.skip]
    · simp
  | _ => exact h.elim

theorem attr_mem_subtrees_root {name : Option Text} {v : Node} {nodes : List Node} :
    .attr name v ∈ (root nodes).subtrees ↔ .attr name v ∈ subtreesAll nodes := by
  simp [root, subtrees]

theorem value_mem_subtrees_root {name : Option Text} {v : Node} {nodes : List Node}
    (h : .attr name v ∈ subtreesAll nodes) : v ∈ (root nodes).subtrees :=
  mem_subtrees_trans (mem_subtrees_of_mem_parts (List.mem_singleton_self v) (mem_subtrees_self v))
    (attr_mem_subtrees_root.mpr h)

theorem expr_mem_subtrees_root {name : Option Text} {slot : Span} {e : Node} {nodes : List Node}
    (h : .attr name (.slot slot e) ∈ subtreesAll nodes) : e ∈ (root nodes).subtrees :=
  mem_subtrees_trans (mem_subtrees_of_mem_parts (List.mem_singleton_self e) (mem_subtrees_self e))
    (value_mem_subtrees_root h)

/-- What a source asks to rewrite is what stands in class position. -/
theorem mem_allRewrites {settings : Settings} {nodes : List Node} {r : Rewrite}
    (h : (root nodes).Faithful s) :
    r ∈ (root nodes).allRewrites s settings ↔ InClassPosition s settings nodes r := by
  rw [allRewrites, List.mem_flatMap]
  constructor
  · rintro ⟨v, hv, hr⟩
    have hattr := attr_mem_subtrees_root.mp (mem_valuesOf.mp hv)
    have hvalue : (Node.attr (some settings.attributeName) v).Faithful s :=
      h.sub (mem_valuesOf.mp hv)
    rcases valueRewrites_cases settings hvalue.placed.reads with
      ⟨span, rfl, heq⟩ | ⟨span, inner, rfl, heq⟩ | ⟨_, _, _, rfl, heq⟩
    · rw [heq] at hr
      obtain ⟨l, hl, rfl⟩ := List.mem_map.mp hr
      obtain ⟨quote, text, -, hraw, rfl⟩ :=
        Source.attributeLiteral?_eq_some_iff.mp (Option.mem_toList.mp hl)
      exact .quoted hattr hraw
    · have hinner : inner.Faithful s := h.sub (expr_mem_subtrees_root hattr)
      rw [heq, mem_rewrites_classify hinner] at hr
      obtain ⟨m, hm, hr⟩ := hr
      rcases (mem_ownRewrites (hm.faithful hinner).placed.reads).mp hr with
        ⟨span, text, quote, raw, rfl, hraw, rfl⟩ | ⟨span, segments, parts, i, g, rfl, hp, hg, rfl⟩
      · exact .string hattr hm hraw
      · exact .segment hattr hm hp hg
    · rw [heq] at hr
      cases hr
  · intro hr
    cases hr with
    | @quoted span quote text hattr hraw =>
      refine ⟨_, mem_valuesOf.mpr (attr_mem_subtrees_root.mpr hattr), ?_⟩
      have hvalue := h.sub (value_mem_subtrees_root hattr)
      have hq := Source.QuotedAt.isQuote hvalue.placed.reads hraw
      have hl := Source.attributeLiteral?_eq_some_iff.mpr ⟨quote, text, hq, hraw, rfl⟩
      rw [valueRewrites, Source.classifyValue]
      · simp [Node.span, hl, ClassValue.rewrites]
      · simp
    | @string slot span e quote raw text hattr hm hraw =>
      have hinner : e.Faithful s := h.sub (expr_mem_subtrees_root hattr)
      refine ⟨_, mem_valuesOf.mpr (attr_mem_subtrees_root.mpr hattr),
        (mem_rewrites_classify hinner).mpr ⟨_, hm, ?_⟩⟩
      exact (mem_ownRewrites (hm.faithful hinner).placed.reads).mpr
        (Or.inl ⟨span, text, quote, raw, rfl, hraw, rfl⟩)
    | @segment slot span e segments parts i g hattr hm hp hg =>
      have hinner : e.Faithful s := h.sub (expr_mem_subtrees_root hattr)
      refine ⟨_, mem_valuesOf.mpr (attr_mem_subtrees_root.mpr hattr),
        (mem_rewrites_classify hinner).mpr ⟨_, hm, ?_⟩⟩
      exact (mem_ownRewrites (hm.faithful hinner).placed.reads).mpr
        (Or.inr ⟨span, segments, parts, i, g, rfl, hp, hg, rfl⟩)

end Node
end ClassScope
