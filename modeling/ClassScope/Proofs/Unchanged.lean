import Mathlib.Data.List.Infix
import ClassScope.Proofs.Coverage
import ClassScope.Proofs.Enclosure
import ClassScope.Proofs.Mark.Transparency
import ClassScope.Proofs.StringLiteral
import ClassScope.Proofs.Text.Rim
import ClassScope.Run

/-! A transform without edits is one that leaves the text as it is. Edits make a text longer here
and shorter there; they cannot cancel out, because already the first of them shows: what it writes
and what it replaces are never beginnings of one and the same text. -/
namespace ClassScope

namespace Text

instance (t : Text) : Decidable (Plain t) :=
  decidable_of_iff ('\\' ∉ t ∧ '\x60' ∉ t ∧ ¬ ['$', '\x7b'] <:+: t)
    ⟨fun h => ⟨h.1, h.2.1, h.2.2⟩, fun h => ⟨h.no_escape, h.no_backtick, h.no_opening⟩⟩

/-- The quote that a text starts with does not stand between its ends. -/
def ClosedOnce (t : Text) : Prop := ∀ quote ∈ t.head?, quote ∉ t.tail.dropLast

instance (t : Text) : Decidable t.ClosedOnce := Option.decidableForallMem t.head?

end Text

namespace ClassList
open Text

theorem words_eq_nil_of_qualifySegment_prefix {scope t : Text} {place : Place}
    (hscope : ∀ c ∈ scope, isBlank c = false) (h : qualifySegment scope place t <+: t) :
    words t = [] := by
  have hsolid : (solid (qualifySegment scope place t)).length ≤ (solid t).length :=
    (h.sublist.filter _).length_le
  rw [← flatten_words, ← flatten_words, words_qualifySegment hscope,
    length_flatten_map_qualifyName] at hsolid
  have hzero : (words t).length * (scope.length + 1) = 0 := by omega
  rcases Nat.mul_eq_zero.mp hzero with hnone | hscope
  · exact List.length_eq_zero_iff.mp hnone
  · omega

end ClassList

namespace Markup
open Text

theorem endsSegment_eq_true_iff {t : Text} :
    endsSegment t = true ↔ ∃ (e : SegmentEnd) (rest : Text), t = e.text ++ rest := by
  constructor
  · intro h
    unfold endsSegment at h
    split at h
    · rename_i rest
      exact ⟨.backtick, rest, rfl⟩
    · rename_i rest
      exact ⟨.interpolation, rest, rfl⟩
    · cases h
  · rintro ⟨e, rest, rfl⟩
    exact endsSegment_text e rest

end Markup

namespace Edit
open Text Markup

/-- The edit shows: where it is made, no segment of a template ends, and whatever becomes of the
text after it, what it writes is not what stood there. What follows a segment is known to start as
before. -/
def Visible (text : Text) (e : Edit) : Prop :=
  ∀ before old rest, text = before ++ old ++ rest → size before = e.start →
    e.start + size old = e.stop →
    endsSegment (old ++ rest) = false ∧
    ∀ code, (endsSegment rest = true → code.head? = rest.head?) →
      old ++ rest ≠ e.replacement ++ code

/-- If every edit shows, there is none between equal texts, and where a segment ends the text goes
on as before. -/
theorem Spliced.visible {text head rest code : Text} {n : Nat} {es : List Edit}
    (h : Spliced n es rest code) (hn : size head = n) (htext : text = head ++ rest)
    (hes : ∀ e ∈ es, e.Visible text) :
    (rest = code → es = []) ∧ (endsSegment rest = true → code.head? = rest.head?) := by
  induction h generalizing head with
  | rest n t => exact ⟨fun _ => rfl, fun _ => rfl⟩
  | @edit n e es kept old rest code hstart hstop hrest ih =>
    have hsize : size (head ++ kept) = e.start := by rw [size_append, hn, hstart]
    have hsplit : text = head ++ kept ++ old ++ rest := by simp [htext]
    have hend : size (head ++ kept ++ old) = e.stop := by rw [size_append, hsize, hstop]
    have hafter := (ih hend hsplit fun f hf => hes f (List.mem_cons_of_mem _ hf)).2
    obtain ⟨hplace, hshows⟩ := hes e List.mem_cons_self _ _ _ hsplit hsize hstop.symm
    constructor
    · intro heq
      rw [List.append_assoc, List.append_assoc] at heq
      exact absurd (List.append_cancel_left heq) (hshows code hafter)
    · intro hends
      -- No edit starts at the end of a segment, so the text that is kept there is not empty.
      cases kept with
      | nil =>
        rw [List.nil_append, hplace] at hends
        cases hends
      | cons c kept => rfl

end Edit

namespace Node

/-- How the source spells the literals that a node itself has: a value in quotes ends at the next
quote, a string is the decoding of what is written, and a segment without escapes goes up to the
next backtick or interpolation. -/
def Spelt (s : Source) : Node → Prop
  | .quoted span => ∀ raw ∈ s.slice? span, raw.ClosedOnce
  | .string span value => ∀ raw ∈ s.slice? span, (Markup.tokenAt 0 raw).1 = .string value
  | .template _ segments _ => ∀ g ∈ segments, '\\' ∉ g.raw →
    Text.Plain g.raw ∧
      ∀ rest ∈ s.text.dropBytes? (g.span.hi - 1), Markup.endsSegment rest = true
  | _ => True

instance (s : Source) : (n : Node) → Decidable (n.Spelt s)
  | .quoted span => inferInstanceAs (Decidable (∀ raw ∈ s.slice? span, raw.ClosedOnce))
  | .string span value => inferInstanceAs (Decidable
      (∀ raw ∈ s.slice? span, (Markup.tokenAt 0 raw).1 = .string value))
  | .template _ segments _ => inferInstanceAs (Decidable (∀ g ∈ segments, '\\' ∉ g.raw →
      Text.Plain g.raw ∧
        ∀ rest ∈ s.text.dropBytes? (g.span.hi - 1), Markup.endsSegment rest = true))
  | .identifier _ _ | .parens _ _ | .conditional _ _ _ _ | .call _ _ _ | .spread _ _
  | .attr _ _ | .slot _ _ | .other _ _ _ => isTrue trivial

def Legible (s : Source) (n : Node) : Prop := ∀ m ∈ n.subtrees, m.Spelt s

instance (s : Source) (n : Node) : Decidable (n.Legible s) :=
  inferInstanceAs (Decidable (∀ m ∈ n.subtrees, m.Spelt s))

end Node

namespace Source
open Text Markup

variable {s : Source} {settings : Settings}

/-- An edit of a place is judged by what the source reads there. -/
theorem visible_of_slice? {span : Span} {old replacement : Text}
    (hold : s.slice? span = some old)
    (h : ∀ before rest, s.text = before ++ old ++ rest → size (before ++ old) = span.hi - 1 →
      endsSegment (old ++ rest) = false ∧
      ∀ code, (endsSegment rest = true → code.head? = rest.head?) →
        old ++ rest ≠ replacement ++ code) :
    Edit.Visible s.text ⟨span.lo - 1, span.hi - 1, replacement⟩ := by
  intro before old' rest htext hstart hstop
  have hslice := (Source.slice?_eq_some_iff.mp hold).2.2
  have hslice' : s.text.slice? (span.lo - 1) (span.hi - 1) = some old' :=
    Text.slice?_eq_some_iff.mpr ⟨before, rest, htext, hstart, hstop⟩
  obtain rfl : old = old' := Option.some.inj (hslice.symm.trans hslice')
  refine h before rest htext ?_
  rw [size_append, hstart]
  exact hstop

theorem visible_quoted (hvalid : settings.fault? = none) {span : Span} {quote : Char} {text : Text}
    (hraw : s.slice? span = some (quote :: text ++ [quote])) (hquoted : s.QuotedAt span)
    (hclosed : quote ∉ text) (hne : text ≠ ClassList.qualify settings.scope text) :
    Edit.Visible s.text ⟨span.lo - 1, span.hi - 1,
      (LiteralStyle.attr quote).render (ClassList.qualify settings.scope text)⟩ := by
  have hq := hquoted.isQuote hraw
  refine visible_of_slice? hraw fun before rest _ _ => ⟨?_, fun code _ heq => ?_⟩
  · rcases hq with rfl | rfl <;> rfl
  · have hnew := ClassList.quote_not_mem_qualify hvalid hq hclosed
    simp only [LiteralStyle.render, List.cons_append, List.append_assoc, List.nil_append,
      List.cons.injEq, true_and] at heq
    -- The reader of quoted values stops at the same quote in both.
    have hread := quoteEnd?_of_not_mem hclosed rest 0
    rw [heq, quoteEnd?_of_not_mem hnew code 0] at hread
    obtain rfl : code = rest := congrArg Cursor.rest (Option.some.inj hread)
    exact hne (List.append_cancel_right heq)

/-- Both strings are read back from one text, so they have one value. -/
theorem visible_string {span : Span} {quote : Char} {raw text updated : Text}
    (hraw : s.slice? span = some (quote :: raw ++ [quote])) (hquoted : s.QuotedAt span)
    (hspelt : (Node.string span (some text)).Spelt s) (hne : text ≠ updated) :
    Edit.Visible s.text
      ⟨span.lo - 1, span.hi - 1, (LiteralStyle.string quote).render updated⟩ := by
  have hq := hquoted.isQuote hraw
  have htoken : (tokenAt 0 (quote :: raw ++ [quote])).1 = .string (some text) := hspelt _ hraw
  refine visible_of_slice? hraw fun before rest _ _ => ⟨?_, fun code _ heq => ?_⟩
  · rcases hq with rfl | rfl <;> rfl
  · have hold := tokenAt_string_append rest htoken
    rw [heq, tokenAt_render_string hq] at hold
    exact hne (Option.some.inj (Token.string.inj hold)).symm

theorem visible_segment (hvalid : settings.fault? = none) {g : Segment}
    {place : ClassList.Place} (hraw : s.slice? g.span = some g.raw) (hplain : Plain g.raw)
    (hends : ∀ rest ∈ s.text.dropBytes? (g.span.hi - 1), endsSegment rest = true)
    (hempty : g.raw ≠ []) (hne : g.raw ≠ ClassList.qualifySegment settings.scope place g.raw) :
    Edit.Visible s.text ⟨g.span.lo - 1, g.span.hi - 1,
      ClassList.qualifySegment settings.scope place g.raw⟩ := by
  refine visible_of_slice? hraw fun before rest htext hsize => ?_
  have hend : endsSegment rest = true :=
    hends rest (dropBytes?_eq_some_iff.mpr ⟨before ++ g.raw, htext, hsize⟩)
  obtain ⟨e, more, rfl⟩ := endsSegment_eq_true_iff.mp hend
  have hbrace : (e.text ++ more).head? ≠ some '\x7b' := by
    rcases head?_text_append e more with hhead | hhead <;> simp [hhead]
  constructor
  · obtain ⟨c, t, hc⟩ := List.exists_cons_of_ne_nil hempty
    rw [hc] at hplain ⊢
    exact not_endsSegment_append hplain hbrace
  · intro code hcode heq
    have hhead := hcode hend
    rcases List.append_eq_append_iff.mp heq with ⟨m, hm, hmore⟩ | ⟨m, hm, hmore⟩
    · -- The new segment is the longer one: the old end would stand in it.
      cases m with
      | nil => exact hne (by simpa using hm.symm)
      | cons c m =>
        have hnew := ClassList.plain_qualifySegment hvalid place hplain
        rw [hm] at hnew
        have hnone := not_endsSegment_append (hnew.of_infix (List.suffix_append _ _).isInfix)
          (hhead ▸ hbrace)
        rw [← hmore, hend] at hnone
        cases hnone
    · -- The old segment is the longer one: then it is blank, and its end is not.
      have hblank := words_eq_nil_iff.mp
        (ClassList.words_eq_nil_of_qualifySegment_prefix (Settings.scope_solid hvalid)
          ⟨m, hm.symm⟩)
      cases m with
      | nil => exact hne (by simpa using hm)
      | cons c m =>
        have hc : isBlank c = true := hblank c (by rw [hm]; simp)
        rw [hmore, List.cons_append, List.head?_cons] at hhead
        rcases head?_text_append e more with he | he <;> rw [he] at hhead <;>
          rw [Option.some.inj hhead] at hc <;> cases hc

end Source

namespace Node

theorem InClassPosition.visible {s : Source} {settings : Settings} {nodes : List Node}
    {r : Rewrite} (hr : InClassPosition s settings nodes r) (hc : r.Counts)
    (hvalid : settings.fault? = none) (h : (root nodes).Faithful s)
    (hspelt : (root nodes).Legible s) : r.edit.Visible s.text := by
  cases hr with
  | @quoted span quote text hattr hraw =>
    have hmem := value_mem_subtrees_root hattr
    have hclosed : quote ∉ text := by simpa using hspelt _ hmem _ hraw quote rfl
    exact Source.visible_quoted hvalid hraw (h _ hmem).reads hclosed hc.2
  | string hattr hm hraw =>
    have hmem := mem_subtrees_trans hm.mem_subtrees (expr_mem_subtrees_root hattr)
    exact Source.visible_string hraw (h _ hmem).reads (hspelt _ hmem) hc.2
  | @segment _ _ _ _ _ _ g hattr hm hplain hg =>
    have hmem := mem_subtrees_trans hm.mem_subtrees (expr_mem_subtrees_root hattr)
    have hg' := List.mem_of_getElem? hg
    obtain ⟨hraw, hends⟩ := hspelt _ hmem g hg' (hplain g hg')
    exact Source.visible_segment hvalid ((h _ hmem).reads.2 g hg') hraw hends hc.1 hc.2

end Node

namespace Transform
open Node

variable {s : Source} {settings : Settings} {nodes : List Node}

theorem exists_outcome (hvalid : settings.fault? = none) (h : (root nodes).Faithful s)
    (hspelt : (root nodes).Legible s) :
    ∃ o, ofNodes? s settings nodes = some o ∧ (o.isUnchanged = true ↔ o.code = s.text) := by
  by_cases hscope : settings.scope = []
  · exact ⟨⟨s.text, [], [], []⟩, by simp [ofNodes?, hscope], iff_of_true rfl rfl⟩
  · obtain ⟨code, hcode, hspliced⟩ := exists_splice?_ledger settings h
    refine ⟨_, by rw [ofNodes?_eq s nodes hscope, hcode, Option.map_some], ?_⟩
    have hvisible : ∀ e ∈ (ledger s settings nodes).edits, e.Visible s.text := by
      intro e he
      obtain ⟨r, hr, hc, rfl⟩ := (mem_edits_ledger h).mp he
      exact ((mem_allRewrites h).mp hr).visible hc hvalid h hspelt
    simp only [Outcome.isUnchanged, List.isEmpty_iff]
    constructor
    · intro hnone
      rw [hnone, Edit.splice?_nil] at hcode
      exact (Option.some.inj hcode).symm
    · intro heq
      exact (hspliced.visible (show Text.size [] = 0 from rfl) rfl hvisible).1 heq.symm

/-- A source that can be read has an outcome, which counts as unchanged exactly if its code is the
source; so a run reports of a file with this source what the edits say. -/
theorem unchanged_iff_same_text (hplain : s.text.head? ≠ some '\uFEFF')
    (hvalid : settings.fault? = none) {dialect : Dialect}
    (hparse : Markup.parse dialect s.text = .ok nodes) (h : (root nodes).Faithful s)
    (hspelt : (root nodes).Legible s) :
    ∃ o, run s settings dialect = .ok o ∧ (o.isUnchanged = true ↔ o.code = s.text) ∧
      ∀ (i : Invocation) (tree : FileTree) (path : Path), i.strategy = .structural →
        tree.find? path = some (.file (.text s.text)) →
        Dialect.ofFileName (some path) = dialect →
        (Run.process i settings tree path).2.map (·.report.status) =
          some (if o.isUnchanged then .unchanged else .changed) := by
  obtain ⟨o, ho, hiff⟩ := exists_outcome hvalid h hspelt
  have hrun : run s settings dialect = .ok o := run_eq_ok hplain hvalid hparse ho
  refine ⟨o, hrun, hiff, fun i tree path hstrategy hfile hdialect => ?_⟩
  have hqualify : Run.qualify i.strategy settings path s.text =
      .ok ⟨o.code, o.events, o.skipped.map Run.remark⟩ := by
    rw [hstrategy, Run.qualify, hdialect, hrun]
  simp only [Run.process, hfile, hqualify, Run.processed, hiff, Option.map_some]

/-- A string and a segment with as many blanks too many as the scope has characters. -/
def evenEdits : Source where
  text := "<i className=\x7bon ? 'a    ' : `b     $\x7bx\x7d`\x7d />;".toList

def evenTree : FileTree := ⟨[], [(["a.tsx".toList], .file (.text evenEdits.text))]⟩

theorem even_edits_change_the_text :
    ∃ nodes o, evenEdits.text.head? ≠ some '\uFEFF' ∧ Settings.defaults.fault? = none ∧
      Markup.parse .tsx evenEdits.text = .ok nodes ∧ (root nodes).Faithful evenEdits ∧
      (root nodes).Legible evenEdits ∧ run evenEdits Settings.defaults .tsx = .ok o ∧
      o.edits.length = 2 ∧ o.code.size = evenEdits.text.size ∧ o.code ≠ evenEdits.text ∧
      ∀ i : Invocation, i.strategy = .structural →
        (Run.process i Settings.defaults evenTree "a.tsx".toList).2.map (·.report.status) =
          some .changed := by
  have hplain : evenEdits.text.head? ≠ some '\uFEFF' := by decide +kernel
  have hvalid : Settings.defaults.fault? = none := by decide +kernel
  have hread : (Markup.parse .tsx evenEdits.text).toOption.any (fun nodes =>
      decide ((root nodes).Faithful evenEdits ∧ (root nodes).Legible evenEdits)) = true := by
    decide +kernel
  have hcode : (run evenEdits Settings.defaults .tsx).toOption.any (fun o =>
      decide (o.edits.length = 2 ∧ o.code.size = evenEdits.text.size)) = true := by
    decide +kernel
  obtain ⟨nodes, hparse, hnodes⟩ := exists_ok_of_any hread
  obtain ⟨h, hspelt⟩ := of_decide_eq_true hnodes
  obtain ⟨o, hrun, hiff, hstatus⟩ := unchanged_iff_same_text hplain hvalid hparse h hspelt
  rw [hrun] at hcode
  obtain ⟨hlength, hsize⟩ := of_decide_eq_true hcode
  have hchanged : o.isUnchanged = false := by
    rw [Outcome.isUnchanged, List.isEmpty_eq_false_iff]
    exact List.ne_nil_of_length_eq_add_one hlength
  refine ⟨nodes, o, hplain, hvalid, hparse, h, hspelt, hrun, hlength, hsize, ?_, fun i hi => ?_⟩
  · rw [Ne, ← hiff, hchanged]
    decide
  · have hfile : evenTree.find? "a.tsx".toList = some (.file (.text evenEdits.text)) := by
      decide +kernel
    rw [hstatus i evenTree "a.tsx".toList hi hfile (by decide +kernel), hchanged]
    rfl

end Transform
end ClassScope
