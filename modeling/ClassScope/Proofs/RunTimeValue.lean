import ClassScope.Proofs.StringLiteral
import ClassScope.Proofs.Unchanged

/-! Run-time values. What is written for a text as a string is one whole string literal with that
text as its value, and a string that a transform rewrites gets the qualified form of the value it
had. -/
namespace ClassScope

namespace Markup
open Text

/-- The characters between the quotes of a string that no backslash escapes. -/
def bare : Text → Text
  | [] => []
  | '\\' :: _ :: t => bare t
  | c :: t => c :: bare t

/-- A character that a string has to escape whatever its quotes: it ends a line or is a control
character. -/
def isHarsh (c : Char) : Bool := isLineEnd c || decide (c.toNat < 0x20) || c.toNat == 0x7F

/-- A text that is one whole string literal with a given value. -/
structure Spells (quote : Char) (t value : Text) : Prop where
  /-- It has a quote at both ends, and none in between but after a backslash of its own. -/
  encloses : ∃ inside, t = quote :: inside ++ [quote] ∧ quote ∉ bare inside ∧ '\\' ∉ bare inside ∧
    ∀ c ∈ inside, isHarsh c = false
  /-- It is read up to its last character and no further, whatever follows. -/
  reads : ∀ n rest, tokenAt n (t ++ rest) = (.string (some value), ⟨n + size t, rest⟩)

variable {quote : Char}

theorem bare_cons {c : Char} (h : c ≠ '\\') (t : Text) : bare (c :: t) = c :: bare t := by
  rw [bare]
  intro d u hc
  exact absurd hc h

theorem bare_append {u : Text} (h : '\\' ∉ u) (t : Text) : bare (u ++ t) = u ++ bare t := by
  induction u with
  | nil => rfl
  | cons c u ih =>
    obtain ⟨hc, hu⟩ := not_or.mp (mt List.mem_cons.mpr h)
    rw [List.cons_append, bare_cons (Ne.symm hc), ih hu, List.cons_append]

theorem mem_bare_stringChar (hq : quote = '"' ∨ quote = '\'') (c : Char) {t : Text}
    (ht : ∀ d ∈ bare t, d ≠ quote ∧ d ≠ '\\') :
    ∀ d ∈ bare (stringChar quote c ++ t), d ≠ quote ∧ d ≠ '\\' := by
  have happend : ∀ u : Text, (∀ d ∈ u, Raw quote d) →
      ∀ d ∈ bare (u ++ t), d ≠ quote ∧ d ≠ '\\' := by
    intro u hu
    rw [bare_append fun h => (hu _ h).1 rfl, List.forall_mem_append]
    exact ⟨fun d hd => ⟨(hu d hd).2.1, (hu d hd).1⟩, ht⟩
  rcases stringChar_cases hq c with ⟨hc, hraw⟩ | ⟨d, u, hc, -, hu, -⟩
  · rw [hc]
    exact happend [c] (by simpa using hraw)
  · rw [hc]
    exact happend u hu

theorem mem_bare_flatMap_stringChar (hq : quote = '"' ∨ quote = '\'') (text : Text) :
    ∀ d ∈ bare (text.flatMap (stringChar quote)), d ≠ quote ∧ d ≠ '\\' := by
  induction text with
  | nil => simp [bare]
  | cons c text ih =>
    rw [List.flatMap_cons]
    exact mem_bare_stringChar hq c ih

theorem isHarsh_digitChar : ∀ d < 16, isHarsh (Nat.digitChar d) = false := by decide

theorem isHarsh_stringChar (hq : quote = '"' ∨ quote = '\'') (c : Char) :
    (stringChar quote c).any isHarsh = false := by
  unfold stringChar
  split_ifs with hesc hlf hcr hls hps hquote hcontrol
  · rfl
  · rfl
  · rfl
  · rfl
  · rfl
  · subst hquote
    rcases hq with rfl | rfl <;> rfl
  · have hsmall : c.toNat < 0x80 := by omega
    have hhigh := isHarsh_digitChar (c.toNat / 16) (by omega)
    have hlow := isHarsh_digitChar (c.toNat % 16) (by omega)
    simp only [hexPair, List.any_cons, hhigh, hlow]
    rfl
  · simp [isHarsh, isLineEnd, hlf, hcr, hls, hps]
    omega

theorem spells_render (hq : quote = '"' ∨ quote = '\'') (text : Text) :
    Spells quote ((LiteralStyle.string quote).render text) text where
  encloses := by
    have hbare := mem_bare_flatMap_stringChar hq text
    refine ⟨text.flatMap (stringChar quote), rfl, fun h => (hbare _ h).1 rfl,
      fun h => (hbare _ h).2 rfl, ?_⟩
    intro c hc
    obtain ⟨d, -, hd⟩ := List.mem_flatMap.mp hc
    exact (Bool.not_eq_true _).mp (List.any_eq_false.mp (isHarsh_stringChar hq d) c hd)
  reads n rest := by
    have hquote : quote.utf8Size = 1 := by rcases hq with rfl | rfl <;> rfl
    rw [tokenAt_render_string hq]
    simp only [LiteralStyle.render, List.cons_append, size_cons, size_append, size_nil, hquote]
    congr 2
    omega

end Markup

namespace Source

theorem style_of_mem_segments? {s : Source} {template : Span} {previous : Option Span}
    {spans : List Span} {segments : List Segment} {literals : List ClassLiteral}
    (h : s.segments? template previous spans segments = some literals) :
    ∀ l ∈ literals, l.style = .segment := by
  induction segments generalizing previous spans literals with
  | nil =>
    rw [segments?] at h
    cases h
    simp
  | cons g rest ih =>
    simp only [segments?, Option.bind_eq_bind, Option.bind_eq_some_iff] at h
    obtain ⟨⟨start, stop⟩, -, hrest⟩ := h
    split at hrest
    · cases hrest
      simp
    · cases hrest
    · obtain ⟨more, hmore, hl⟩ := Option.bind_eq_some_iff.mp hrest
      cases hl
      exact List.forall_mem_cons.mpr ⟨rfl, ih hmore⟩

end Source

namespace Node
open Markup

variable {s : Source} {scope joinName : Text}

theorem style_of_mem_segmentRewrites {after : Bool} {ls : List ClassLiteral}
    (h : ∀ l ∈ ls, l.style = .segment) :
    ∀ r ∈ segmentRewrites scope after ls, r.literal.style = .segment := by
  intro r hr
  obtain ⟨i, l, hl, rfl⟩ := mem_segmentRewrites.mp hr
  exact h l (List.mem_of_getElem? hl)

/-- What an expression asks for, whatever places it claims to have: to rewrite its own string, a
segment of its own, or what one of its parts asks for. -/
theorem rewrites_classify_cases {n : Node} {r : Rewrite}
    (hr : r ∈ (s.classify joinName n).rewrites scope) :
    r.literal.style = .segment ∨
    (∃ span text l, n = .string span (some text) ∧ s.stringLiteral? span text = some l ∧
      r = ⟨l, ClassList.qualify scope l.text⟩) ∨
    ∃ p ∈ n.parts, r ∈ (s.classify joinName p).rewrites scope := by
  have hparts : ∀ ps : List Node, r ∈ ClassExpr.rewritesAll scope (s.classifyAll joinName ps) →
      ∃ p ∈ ps, r ∈ (s.classify joinName p).rewrites scope := by
    intro ps hps
    rw [rewritesAll_classifyAll] at hps
    exact List.mem_flatMap.mp hps
  cases n with
  | string span value =>
    cases value with
    | none => cases hr
    | some text =>
      rw [Source.classify] at hr
      cases hl : s.stringLiteral? span text with
      | none => simp [hl, Source.skip, ClassExpr.rewrites] at hr
      | some l =>
        refine .inr (.inl ⟨span, text, l, rfl, hl, ?_⟩)
        simpa [hl, ClassExpr.rewrites] using hr
  | parens span inner => exact .inr (.inr ⟨inner, by simp [parts], by rwa [Source.classify] at hr⟩)
  | conditional span test c a =>
    rw [Source.classify, ClassExpr.rewrites, List.mem_append] at hr
    rcases hr with hc | ha
    · exact .inr (.inr ⟨c, by simp [parts], hc⟩)
    · exact .inr (.inr ⟨a, by simp [parts], ha⟩)
  | template span segments interpolations =>
    rw [Source.classify, Source.templateExpr] at hr
    split at hr
    · cases hr
    · split at hr
      · cases hr
      · rename_i literals hliterals
        split at hr
        · rw [ClassExpr.rewrites, List.mem_append] at hr
          rcases hr with hown | hinside
          · have hstyles := Source.style_of_mem_segments? hliterals
            exact .inl (style_of_mem_segmentRewrites hstyles r hown)
          · exact .inr (.inr (hparts interpolations hinside))
        · cases hr
  | call span callee arguments =>
    cases callee with
    | identifier nameSpan name =>
      rw [Source.classify] at hr
      split at hr
      · obtain ⟨p, hp, hrp⟩ := hparts arguments hr
        exact .inr (.inr ⟨p, List.mem_cons_of_mem _ hp, hrp⟩)
      · cases hr
    | _ => cases hr
  | _ => cases hr

theorem string_of_mem_rewrites {n : Node} {r : Rewrite} {quote : Char}
    (hr : r ∈ (s.classify joinName n).rewrites scope) (hstyle : r.literal.style = .string quote) :
    (quote = '"' ∨ quote = '\'') ∧ r.updated = ClassList.qualify scope r.literal.text ∧
      ∃ span raw, .string span (some r.literal.text) ∈ n.subtrees ∧
        s.slice? span = some raw ∧ s.range? span = some (r.literal.start, r.literal.stop) := by
  induction n using parts_induction with
  | h n ih =>
    rcases rewrites_classify_cases hr with hsegment | ⟨span, text, l, rfl, hl, rfl⟩ | ⟨p, hp, hrp⟩
    · rw [hsegment] at hstyle
      cases hstyle
    · obtain ⟨q, raw, hq, hraw, rfl⟩ := Source.stringLiteral?_eq_some_iff.mp hl
      cases hstyle
      exact ⟨hq, rfl, span, _, mem_subtrees_self _, hraw, Source.range?_of_slice? hraw⟩
    · obtain ⟨hq, hupdated, span, raw, hmem, hplace⟩ := ih p hp hrp
      exact ⟨hq, hupdated, span, raw, mem_subtrees_of_mem_parts hp hmem, hplace⟩

theorem string_of_mem_allRewrites {settings : Settings} {nodes : List Node} {r : Rewrite}
    {quote : Char} (hr : r ∈ (root nodes).allRewrites s settings)
    (hstyle : r.literal.style = .string quote) :
    (quote = '"' ∨ quote = '\'') ∧ r.updated = ClassList.qualify settings.scope r.literal.text ∧
      ∃ span raw, .string span (some r.literal.text) ∈ (root nodes).subtrees ∧
        s.slice? span = some raw ∧ s.range? span = some (r.literal.start, r.literal.stop) := by
  obtain ⟨v, hv, hrv⟩ := List.mem_flatMap.mp hr
  have hattr := attr_mem_subtrees_root.mp (mem_valuesOf.mp hv)
  rw [valueRewrites] at hrv
  unfold Source.classifyValue at hrv
  split at hrv
  · obtain ⟨hq, hupdated, span, raw, hmem, hplace⟩ := string_of_mem_rewrites hrv hstyle
    exact ⟨hq, hupdated, span, raw, mem_subtrees_trans hmem (expr_mem_subtrees_root hattr), hplace⟩
  · split at hrv
    · rename_i l hl
      obtain ⟨q, text, -, -, rfl⟩ := Source.attributeLiteral?_eq_some_iff.mp hl
      obtain rfl := List.mem_singleton.mp hrv
      cases hstyle
    · cases hrv

end Node

theorem Edit.infix_of_spliceFrom? {source code : Text} {n : Nat} {es : List Edit}
    (h : spliceFrom? source n es = some code) : ∀ e ∈ es, e.replacement <:+: code := by
  induction es generalizing n code with
  | nil => simp
  | cons f es ih =>
    obtain ⟨kept, rest, -, hrest, rfl⟩ := spliceFrom?_cons_eq_some.mp h
    refine List.forall_mem_cons.mpr ⟨List.infix_append _ _ _, fun e he => ?_⟩
    exact (ih hrest e he).trans (List.suffix_append _ _).isInfix

namespace Transform
open Node Markup

/-- Every edit comes from a rewrite that the source asks for, and its replacement gets into the
code. -/
theorem rewrite_of_mem_edits {s : Source} {settings : Settings} {nodes : List Node} {o : Outcome}
    (h : ofNodes? s settings nodes = some o) {e : Edit} (he : e ∈ o.edits) :
    (∃ r ∈ (root nodes).allRewrites s settings, e = r.edit) ∧ e.replacement <:+: o.code := by
  by_cases hscope : settings.scope = []
  · have ho : o = ⟨s.text, [], [], []⟩ := by simpa [ofNodes?, hscope, eq_comm] using h
    rw [ho] at he
    cases he
  · rw [ofNodes?_eq s nodes hscope] at h
    obtain ⟨code, hcode, rfl⟩ := Option.map_eq_some_iff.mp h
    refine ⟨?_, Edit.infix_of_spliceFrom? hcode e he⟩
    rw [ledger_eq] at he
    rcases Ledger.mem_edits_enter he with hnone | ⟨r, hr, -, rfl⟩
    · cases hnone
    · exact ⟨r, hr, rfl⟩

/-- A text rendered as a string reads back as that text. So a string that a transform rewrites, with
a value that the grammar read, becomes a string in the code with the qualified form of that
value. -/
theorem rewritten_strings_have_qualified_values :
    (∀ quote, quote = '"' ∨ quote = '\'' → ∀ text,
      Spells quote ((LiteralStyle.string quote).render text) text) ∧
    ∀ (s : Source) (settings : Settings) (dialect : Dialect) (nodes : List Node) (o : Outcome),
      read s dialect = .ok nodes → run s settings dialect = .ok o → ∀ e ∈ o.edits,
        (∃ r ∈ (root nodes).allRewrites s settings, e = r.edit) ∧ e.replacement <:+: o.code ∧
        ∀ r ∈ (root nodes).allRewrites s settings, e = r.edit →
          ∀ quote, r.literal.style = .string quote →
            Spells quote e.replacement (ClassList.qualify settings.scope r.literal.text) ∧
            ∃ span old, .string span (some r.literal.text) ∈ (root nodes).subtrees ∧
              s.range? span = some (e.start, e.stop) ∧ s.slice? span = some old ∧
              ((root nodes).Legible s →
                ∀ rest, (tokenAt 0 (old ++ rest)).1 = .string (some r.literal.text)) := by
  refine ⟨fun quote => spells_render, ?_⟩
  intro s settings dialect nodes o hread hrun e he
  obtain ⟨-, nodes', hread', ho⟩ := run_eq_ok_iff.mp hrun
  obtain rfl : nodes = nodes' := Except.ok.inj (hread.symm.trans hread')
  obtain ⟨hrewrite, hcode⟩ := rewrite_of_mem_edits ho he
  refine ⟨hrewrite, hcode, ?_⟩
  rintro r hr rfl quote hstyle
  obtain ⟨hq, hupdated, span, old, hmem, hold, hrange⟩ := string_of_mem_allRewrites hr hstyle
  refine ⟨?_, span, old, hmem, hrange, hold, fun hspelt rest => ?_⟩
  · rw [Rewrite.edit, hstyle, hupdated]
    exact spells_render hq _
  · exact tokenAt_string_append rest (hspelt _ hmem old hold)

def escapedString : Source where
  text := "<i className=\x7b'it\\'s\\x001'\x7d />;".toList

theorem escaped_string_keeps_its_value :
    ∃ nodes o, read escapedString .jsx = .ok nodes ∧
      run escapedString Settings.defaults .jsx = .ok o ∧
      (root nodes).Legible escapedString ∧
      o.code = "<i className=\x7b'app-it\\'s\\x001'\x7d />;".toList ∧
      ∃ e ∈ o.edits, ∃ span old,
        .string span (some "it's\x001".toList) ∈ (root nodes).subtrees ∧
        escapedString.slice? span = some old ∧
        (∀ rest, (tokenAt 0 (old ++ rest)).1 = .string (some "it's\x001".toList)) ∧
        Spells '\'' e.replacement "app-it's\x001".toList := by
  let r : Rewrite := ⟨⟨.string '\'', 14, 26, "it's\x001".toList, 1⟩, "app-it's\x001".toList⟩
  have hnodes : (read escapedString .jsx).toOption.any (fun nodes =>
      decide ((root nodes).Legible escapedString ∧
        r ∈ (root nodes).allRewrites escapedString Settings.defaults)) = true := by
    decide +kernel
  have hcode : (run escapedString Settings.defaults .jsx).toOption.any (fun o =>
      decide (o.code = "<i className=\x7b'app-it\\'s\\x001'\x7d />;".toList ∧
        r.edit ∈ o.edits)) = true := by
    decide +kernel
  obtain ⟨nodes, hread, hdecided⟩ := exists_ok_of_any hnodes
  obtain ⟨hspelt, hr⟩ := of_decide_eq_true hdecided
  obtain ⟨o, hrun, hshown⟩ := exists_ok_of_any hcode
  obtain ⟨hshown, he⟩ := of_decide_eq_true hshown
  obtain ⟨-, -, hstrings⟩ :=
    rewritten_strings_have_qualified_values.2 _ _ _ nodes o hread hrun r.edit he
  obtain ⟨hnew, span, old, hmem, -, hold, hvalue⟩ := hstrings r hr rfl '\'' rfl
  have hqualified : ClassList.qualify Settings.defaults.scope "it's\x001".toList =
      "app-it's\x001".toList := by decide +kernel
  rw [hqualified] at hnew
  exact ⟨nodes, o, hread, hrun, hspelt, hshown, r.edit, he, span, old, hmem, hold, hvalue hspelt,
    hnew⟩

end Transform
end ClassScope
