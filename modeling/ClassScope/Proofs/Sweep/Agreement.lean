import ClassScope.Proofs.Coverage
import ClassScope.Proofs.Mark.Transparency
import ClassScope.Proofs.Sweep.Listing

/-! On a listing the sweep and the transform make the same text. Both make the listing with every
string qualified: the sweep by its two passes, the transform by edits that come in the order of
the elements. -/
namespace ClassScope

def editsOf (rs : List Rewrite) : List Edit := (rs.filter (·.Counts)).map Rewrite.edit

@[simp] theorem editsOf_nil : editsOf [] = [] := rfl

theorem editsOf_append (rs qs : List Rewrite) : editsOf (rs ++ qs) = editsOf rs ++ editsOf qs := by
  simp [editsOf]

/-- The rewrites make the second text of the first, which stands at byte `n`, and none of them is
of an empty stretch. -/
structure Rewritten (n : Nat) (rs : List Rewrite) (t u : Text) : Prop where
  spliced : Edit.Spliced n (editsOf rs) t u
  stretch : ∀ e ∈ editsOf rs, e.start < e.stop

namespace Rewritten
open Text

theorem kept (n : Nat) (t : Text) : Rewritten n [] t t := ⟨.rest n t, by simp⟩

theorem append {n : Nat} {rs qs : List Rewrite} {t u t' u' : Text} (h : Rewritten n rs t u)
    (h' : Rewritten (n + size t) qs t' u') : Rewritten n (rs ++ qs) (t ++ t') (u ++ u') where
  spliced := by
    rw [editsOf_append]
    exact h.spliced.append h'.spliced
  stretch := by
    rw [editsOf_append]
    exact List.forall_mem_append.mpr ⟨h.stretch, h'.stretch⟩

/-- One literal: if it does not count, its new text is its old one. -/
theorem literal (r : Rewrite) {old : Text} (hne : old ≠ [])
    (hstop : r.literal.stop = r.literal.start + size old)
    (hsame : ¬ r.Counts → r.edit.replacement = old) :
    Rewritten r.literal.start [r] old r.edit.replacement := by
  by_cases hc : r.Counts
  · have hedits : editsOf [r] = [r.edit] := by simp [editsOf, hc]
    have hedit : Edit.Spliced r.literal.start [r.edit] ([] ++ old ++ [])
        ([] ++ r.edit.replacement ++ []) := .edit (by simp [Rewrite.edit]) hstop (.rest _ [])
    have hpos := size_pos hne
    refine ⟨by simpa [hedits] using hedit, ?_⟩
    simp only [hedits, List.mem_singleton, forall_eq, Rewrite.edit, hstop]
    omega
  · have hedits : editsOf [r] = [] := by simp [editsOf, hc]
    rw [hsame hc]
    exact ⟨by simpa [hedits] using Edit.Spliced.rest _ old, by simp [hedits]⟩

end Rewritten

namespace Source
open Text

/-- The source reads `t` from byte `n` on. -/
def StandsAt (s : Source) (n : Nat) (t : Text) : Prop :=
  ∃ head tail, s.text = head ++ t ++ tail ∧ size head = n

variable {s : Source} {n : Nat} {t u : Text}

theorem StandsAt.left (h : s.StandsAt n (t ++ u)) : s.StandsAt n t := by
  obtain ⟨head, tail, htext, hn⟩ := h
  exact ⟨head, u ++ tail, by simp [htext], hn⟩

theorem StandsAt.right (h : s.StandsAt n (t ++ u)) : s.StandsAt (n + size t) u := by
  obtain ⟨head, tail, htext, hn⟩ := h
  exact ⟨head ++ t, tail, by simp [htext], by rw [size_append, hn]⟩

theorem StandsAt.slice? (h : s.StandsAt n t) : s.slice? ⟨n + 1, n + size t + 1⟩ = some t := by
  obtain ⟨head, tail, htext, hn⟩ := h
  refine Source.slice?_eq_some_iff.mpr ⟨by simp, by simp, ?_⟩
  exact Text.slice?_eq_some_iff.mpr ⟨head, tail, htext, hn, rfl⟩

end Source

namespace Listing
open Text

/-- What is read of the value of a class attribute: where a quoted string stands, or where the
strings of a call stand and what they say. -/
inductive Reading where
  | quoted (span : Span)
  | call (strings : List (Span × Text))
  deriving DecidableEq

def strings? : List Node → Option (List (Span × Text))
  | [] => some []
  | .string span (some text) :: ns => (strings? ns).map ((span, text) :: ·)
  | _ => none

def reading? (name : Text) : Node → Option Reading
  | .quoted span => some (.quoted span)
  | .slot _ (.call _ (.identifier _ callee) arguments) =>
    if callee = name then (strings? arguments).map .call else none
  | _ => none

def Quoted.span (n : Nat) (q : Quoted) : Span := ⟨n + 1, n + size (q.print id) + 1⟩

/-- The arguments after the first one, if that ends at byte `n`. -/
def othersFrom (n : Nat) : List Quoted → List (Span × Text)
  | [] => []
  | q :: qs =>
    (q.span (n + size [',', ' ']), q.content) ::
      othersFrom (n + size ([',', ' '] ++ q.print id)) qs

/-- What is to be read of a value that is written from byte `n` on. -/
def Value.reading (n : Nat) : Value → Reading
  | quoted q => .quoted (q.span n)
  | call first others =>
    let start := n + size ('\x7b' :: joinName ++ ['('])
    .call ((first.span start, first.content) :: othersFrom (start + size (first.print id)) others)

/-- What is to be read of elements that are written from byte `n` on. -/
def readings (n : Nat) : List Value → List Reading
  | [] => []
  | v :: vs =>
    v.reading (n + size (lead ++ attributeName ++ ['='])) ::
      readings (n + size (printElement id id v)) vs

theorem strings?_eq_some_nil {nodes : List Node} (h : strings? nodes = some []) : nodes = [] := by
  unfold strings? at h
  split at h
  · rfl
  · simp at h
  · cases h

theorem strings?_eq_some_cons {nodes : List Node} {span : Span} {text : Text}
    {more : List (Span × Text)} (h : strings? nodes = some ((span, text) :: more)) :
    ∃ ns, nodes = .string span (some text) :: ns ∧ strings? ns = some more := by
  unfold strings? at h
  split at h
  · cases h
  · rename_i ns
    obtain ⟨more', hns, heq⟩ := Option.map_eq_some_iff.mp h
    cases heq
    exact ⟨ns, rfl, hns⟩
  · cases h

theorem reading?_eq_quoted {name : Text} {node : Node} {span : Span}
    (h : reading? name node = some (.quoted span)) : node = .quoted span := by
  unfold reading? at h
  split at h
  · cases h
    rfl
  · split at h
    · obtain ⟨strings, -, heq⟩ := Option.map_eq_some_iff.mp h
      cases heq
    · cases h
  · cases h

theorem reading?_eq_call {name : Text} {node : Node} {strings : List (Span × Text)}
    (h : reading? name node = some (.call strings)) :
    ∃ slot call callee arguments,
      node = .slot slot (.call call (.identifier callee name) arguments) ∧
      strings? arguments = some strings := by
  unfold reading? at h
  split at h
  · cases h
  · split at h
    · rename_i slot call callee name' arguments hname
      obtain ⟨strings', hstrings, heq⟩ := Option.map_eq_some_iff.mp h
      cases heq
      subst hname
      exact ⟨slot, call, callee, arguments, rfl, hstrings⟩
    · cases h
  · cases h

variable {s : Source} {scope : Text} {n : Nat}

theorem rewritten_literal {style : LiteralStyle} {q : Quoted} (line : Nat)
    (hrender : style.render (ClassList.qualify scope q.content) =
      q.print (ClassList.qualify scope)) :
    Rewritten n
      [⟨⟨style, n, n + size (q.print id), q.content, line⟩, ClassList.qualify scope q.content⟩]
      (q.print id) (q.print (ClassList.qualify scope)) := by
  rw [← hrender]
  have hne : q.print id ≠ [] := by simp [Quoted.print]
  refine Rewritten.literal
    ⟨⟨style, n, n + size (q.print id), q.content, line⟩, ClassList.qualify scope q.content⟩
    hne rfl fun hc => ?_
  have hsame : ClassList.qualify scope q.content = q.content := by
    by_cases hempty : q.content = []
    · rw [hempty, ClassList.qualify_nil]
    · by_contra hne
      exact hc ⟨hempty, fun h => hne h.symm⟩
  calc style.render (ClassList.qualify scope q.content)
      = q.print (ClassList.qualify scope) := hrender
    _ = q.print id := by rw [Quoted.print, hsame]; rfl

theorem rewritten_quoted {q : Quoted} (h : s.StandsAt n (q.print id)) (name : Text) :
    Rewritten n ((s.classifyValue name (.quoted (q.span n))).rewrites scope) (q.print id)
      (q.print (ClassList.qualify scope)) := by
  have hl : s.attributeLiteral? (q.span n) =
      some ⟨.attr q.quote, n, n + size (q.print id), q.content, s.line (n + 1)⟩ :=
    Source.attributeLiteral?_eq_some_iff.mpr
      ⟨q.quote, q.content, q.isQuote, h.slice?, by simp [Quoted.span]⟩
  have hrewrites : (s.classifyValue name (.quoted (q.span n))).rewrites scope =
      [⟨⟨.attr q.quote, n, n + size (q.print id), q.content, s.line (n + 1)⟩,
        ClassList.qualify scope q.content⟩] := by
    rw [Source.classifyValue]
    · simp [Node.span, hl, ClassValue.rewrites]
    · simp
  rw [hrewrites]
  exact rewritten_literal _ rfl

theorem stringChar_of_not_control {quote c : Char} (hquote : c ≠ quote) (hesc : c ≠ '\\')
    (hls : c ≠ '\u2028') (hps : c ≠ '\u2029') (hcontrol : isControl c = false) :
    stringChar quote c = [c] := by
  have hlf : c ≠ '\n' := by
    rintro rfl
    cases hcontrol
  have hcr : c ≠ '\r' := by
    rintro rfl
    cases hcontrol
  have hrange : ¬ (c.toNat < 0x20 ∨ c.toNat = 0x7F) := by
    simp only [isControl, Bool.or_eq_false_iff, Bool.and_eq_false_iff, decide_eq_false_iff_not]
      at hcontrol
    omega
  simp [stringChar, hesc, hlf, hcr, hls, hps, hquote, hrange]

theorem render_qualify (hscope : ∀ c ∈ scope, Settings.scopeChar c = true ∧ isControl c = false)
    (q : Quoted) : (LiteralStyle.string q.quote).render (ClassList.qualify scope q.content) =
      q.print (ClassList.qualify scope) := by
  have hchar : ∀ c ∈ ClassList.qualify scope q.content, stringChar q.quote c = [c] := by
    intro c hc
    rcases ClassList.mem_qualify hc with hc | hc | rfl | rfl
    · obtain ⟨hchar, hcontrol⟩ := hscope c hc
      have hne : ∀ d, Settings.scopeChar d = false → c ≠ d := by
        rintro d hd rfl
        rw [hchar] at hd
        cases hd
      have hquote : Settings.scopeChar q.quote = false := by
        rcases q.isQuote with h | h <;> rw [h] <;> decide
      exact stringChar_of_not_control (hne _ hquote) (hne _ (by decide)) (hne _ (by decide))
        (hne _ (by decide)) hcontrol
    · have hplain := q.plain c hc
      have hne : ∀ d ∈ marks, c ≠ d := by
        rintro d hd rfl
        exact not_mem_marks_of_isPlain hplain hd
      have hcontrol : isControl c = false := by
        simp only [isPlain, Bool.not_eq_true', Bool.or_eq_false_iff] at hplain
        exact hplain.2
      exact stringChar_of_not_control (hne _ q.quote_mem_marks) (hne _ (by decide))
        (hne _ (by decide)) (hne _ (by decide)) hcontrol
    · rcases q.isQuote with h | h <;> rw [h] <;> decide
    · rcases q.isQuote with h | h <;> rw [h] <;> decide
  have hflat : (ClassList.qualify scope q.content).flatMap (stringChar q.quote) =
      ClassList.qualify scope q.content := by
    rw [List.flatMap_congr hchar]
    simp
  rw [LiteralStyle.render, hflat]
  rfl

theorem rewritten_string (hscope : ∀ c ∈ scope, Settings.scopeChar c = true ∧ isControl c = false)
    {q : Quoted} (h : s.StandsAt n (q.print id)) (name : Text) :
    Rewritten n ((s.classify name (.string (q.span n) (some q.content))).rewrites scope)
      (q.print id) (q.print (ClassList.qualify scope)) := by
  have hl : s.stringLiteral? (q.span n) q.content =
      some ⟨.string q.quote, n, n + size (q.print id), q.content, s.line (n + 1)⟩ :=
    Source.stringLiteral?_eq_some_iff.mpr
      ⟨q.quote, q.content, q.isQuote, h.slice?, by simp [Quoted.span]⟩
  have hrewrites : (s.classify name (.string (q.span n) (some q.content))).rewrites scope =
      [⟨⟨.string q.quote, n, n + size (q.print id), q.content, s.line (n + 1)⟩,
        ClassList.qualify scope q.content⟩] := by
    simp [Source.classify, hl, ClassExpr.rewrites]
  rw [hrewrites]
  exact rewritten_literal _ (render_qualify hscope q)

theorem rewritten_others (hscope : ∀ c ∈ scope, Settings.scopeChar c = true ∧ isControl c = false)
    {others : List Quoted} {nodes : List Node} (name : Text)
    (h : s.StandsAt n (others.flatMap fun q => [',', ' '] ++ q.print id))
    (hread : strings? nodes = some (othersFrom n others)) :
    Rewritten n (ClassExpr.rewritesAll scope (s.classifyAll name nodes))
      (others.flatMap fun q => [',', ' '] ++ q.print id)
      (others.flatMap fun q => [',', ' '] ++ q.print (ClassList.qualify scope)) := by
  induction others generalizing nodes n with
  | nil =>
    rw [strings?_eq_some_nil hread, Source.classifyAll, ClassExpr.rewritesAll]
    exact .kept n []
  | cons q others ih =>
    obtain ⟨ns, rfl, hns⟩ := strings?_eq_some_cons hread
    rw [List.flatMap_cons] at h ⊢
    rw [List.flatMap_cons, Source.classifyAll, ClassExpr.rewritesAll]
    have hstring := (Rewritten.kept n [',', ' ']).append (rewritten_string hscope h.left.right name)
    exact hstring.append (ih h.right hns)

theorem rewrites_call (s : Source) (scope : Text) (slot call callee : Span) (name : Text)
    (arguments : List Node) :
    (s.classifyValue name (.slot slot (.call call (.identifier callee name) arguments))).rewrites
      scope = ClassExpr.rewritesAll scope (s.classifyAll name arguments) := by
  rw [Source.classifyValue, Source.classify, if_pos rfl, ClassValue.rewrites, ClassExpr.rewrites]

theorem rewritten_value (hscope : ∀ c ∈ scope, Settings.scopeChar c = true ∧ isControl c = false)
    {v : Value} {node : Node} (h : s.StandsAt n (v.print id id))
    (hread : reading? joinName node = some (v.reading n)) :
    Rewritten n ((s.classifyValue joinName node).rewrites scope) (v.print id id)
      (v.print (ClassList.qualify scope) (ClassList.qualify scope)) := by
  cases v with
  | quoted q =>
    obtain rfl := reading?_eq_quoted hread
    exact rewritten_quoted h joinName
  | call first others =>
    obtain ⟨slot, call, callee, arguments, rfl, hstrings⟩ := reading?_eq_call hread
    obtain ⟨ns, rfl, hns⟩ := strings?_eq_some_cons hstrings
    have hrewrites := rewrites_call s scope slot call callee joinName
      (.string (first.span (n + size ('\x7b' :: joinName ++ ['(']))) (some first.content) :: ns)
    have harguments := (rewritten_string hscope h.left.right.left joinName).append
      (rewritten_others hscope joinName h.left.right.right hns)
    have hcall := ((Rewritten.kept n ('\x7b' :: joinName ++ ['('])).append harguments).append
      (.kept _ [')', '\x7d'])
    rw [hrewrites, Source.classifyAll, ClassExpr.rewritesAll]
    rwa [List.append_nil, List.nil_append] at hcall

theorem rewritten_elements
    (hscope : ∀ c ∈ scope, Settings.scopeChar c = true ∧ isControl c = false)
    {vs : List Value} {nodes : List Node} (h : s.StandsAt n (vs.flatMap (printElement id id)))
    (hread : nodes.map (reading? joinName) = (readings n vs).map some) :
    Rewritten n (nodes.flatMap fun node => (s.classifyValue joinName node).rewrites scope)
      (vs.flatMap (printElement id id))
      (vs.flatMap (printElement (ClassList.qualify scope) (ClassList.qualify scope))) := by
  induction vs generalizing nodes n with
  | nil =>
    have hnone : nodes = [] := by simpa [readings] using hread
    rw [hnone]
    exact .kept n []
  | cons v vs ih =>
    cases nodes with
    | nil => cases hread
    | cons node nodes =>
      obtain ⟨hvalue, hrest⟩ := List.cons.inj hread
      rw [List.flatMap_cons] at h ⊢
      rw [List.flatMap_cons, List.flatMap_cons]
      have helement := ((Rewritten.kept n (lead ++ attributeName ++ ['='])).append
        (rewritten_value hscope h.left.left.right hvalue)).append (.kept _ close)
      rw [List.append_nil, List.nil_append] at helement
      exact helement.append (ih h.right hrest)

theorem rewritten_print (hscope : ∀ c ∈ scope, Settings.scopeChar c = true ∧ isControl c = false)
    {vs : List Value} {nodes : List Node}
    (hread : nodes.map (reading? joinName) = (readings (size ['<', '>']) vs).map some) :
    Rewritten 0
      (nodes.flatMap fun node =>
        (Source.classifyValue ⟨print id id vs⟩ joinName node).rewrites scope)
      (print id id vs) (print (ClassList.qualify scope) (ClassList.qualify scope) vs) := by
  have hwhole : Source.StandsAt ⟨print id id vs⟩ 0 (print id id vs) := ⟨[], [], by simp, rfl⟩
  rw [← Nat.zero_add (size _)] at hread
  have hlisting := ((Rewritten.kept 0 ['<', '>']).append
    (rewritten_elements hscope hwhole.left.right hread)).append (.kept _ ['<', '/', '>', ';'])
  rwa [List.append_nil, List.nil_append] at hlisting

end Listing

namespace Transform
open Node

/-- Rewrites that come in the order of their places and make the whole source another text: that
text is the code of the transform. -/
theorem exists_run_of_rewritten {s : Source} {settings : Settings} {dialect : Dialect}
    {nodes : List Node} {code : Text} (hplain : s.text.head? ≠ some '\uFEFF')
    (hvalid : settings.fault? = none) (hscope : settings.scope ≠ [])
    (hparse : Markup.parse dialect s.text = .ok nodes)
    (h : Rewritten 0 ((root nodes).allRewrites s settings) s.text code) :
    ∃ o, run s settings dialect = .ok o ∧ o.code = code := by
  have hedits : (ledger s settings nodes).edits =
      editsOf ((root nodes).allRewrites s settings) := by
    rw [ledger_eq, Ledger.edits_leave]
    exact Ledger.edits_enter_of_ordered (h.spliced.pairwise h.stretch).1
  have hsplice : Edit.splice? s.text (ledger s settings nodes).edits = some code := by
    rw [hedits]
    exact (Edit.splice?_eq_some_iff fun e he => Nat.le_of_lt (h.stretch e he)).mpr h.spliced
  have houtcome := ofNodes?_eq s nodes hscope
  rw [hsplice, Option.map_some] at houtcome
  exact ⟨_, run_eq_ok hplain hvalid hparse houtcome, rfl⟩

end Transform

namespace Sweep
open Listing

/-- On a listing that is read as it is written, with the names that are set by default, the sweep
and the transform both succeed, and both give the listing with every string qualified. -/
theorem sweep_agrees_with_transform {settings : Settings}
    (hattribute : settings.attributeName = Settings.defaults.attributeName)
    (hjoin : settings.joinName = Settings.defaults.joinName) (hvalid : settings.fault? = none)
    (hscope : settings.scope ≠ []) (hcontrol : ∀ c ∈ settings.scope, isControl c = false)
    (vs : List Value) {dialect : Dialect} {nodes : List Node}
    (hparse : Markup.parse dialect (print id id vs) = .ok nodes)
    (hread : (Node.valuesOfAll settings.attributeName nodes).map (reading? settings.joinName) =
      (readings (Text.size ['<', '>']) vs).map some) :
    ∃ o p, Transform.run ⟨print id id vs⟩ settings dialect = .ok o ∧
      run settings (print id id vs) = .ok p ∧ p.code = o.code ∧
      o.code = print (ClassList.qualify settings.scope) (ClassList.qualify settings.scope) vs := by
  have hattribute' : settings.attributeName = attributeName := hattribute.trans (by decide +kernel)
  have hjoin' : settings.joinName = joinName := hjoin.trans (by decide +kernel)
  have hchars : ∀ c ∈ settings.scope, Settings.scopeChar c = true ∧ isControl c = false :=
    fun c hc => ⟨Settings.scopeChar_of_mem hvalid hc, hcontrol c hc⟩
  have hquotes : ∀ c ∈ settings.scope, isQuote c = false := by
    intro c hc
    refine not_isQuote_iff.mpr ⟨?_, ?_⟩ <;> rintro rfl <;>
      exact Settings.not_mem_scope_of_special hvalid (by decide) hc
  have hrewrites : (Node.root nodes).allRewrites ⟨print id id vs⟩ settings =
      (Node.valuesOfAll settings.attributeName nodes).flatMap fun node =>
        (Source.classifyValue ⟨print id id vs⟩ joinName node).rewrites settings.scope := by
    rw [← hjoin']
    rfl
  rw [hjoin'] at hread
  obtain ⟨o, hrun, hcode⟩ := Transform.exists_run_of_rewritten (s := ⟨print id id vs⟩)
    (by simp [print]) hvalid hscope hparse (hrewrites ▸ rewritten_print hchars hread)
  have hempty : settings.scope.isEmpty = false := by simpa using hscope
  have hsweep : (sweep settings (print id id vs)).code =
      print (ClassList.qualify settings.scope) (ClassList.qualify settings.scope) vs := by
    simp only [sweep, hempty, Bool.false_eq_true, if_false, hjoin', hattribute',
      code_joinPass_print, code_attributePass_print hquotes]
  refine ⟨o, sweep settings (print id id vs), hrun, ?_, hsweep.trans hcode.symm, hcode⟩
  simp [run, Settings.validated, hvalid, Except.map]

/-- Strings that spell the names, that are blank and that are empty. -/
def namesSpelt : List Value :=
  [.quoted ⟨'"', " className  classnames".toList, Or.inl rfl, List.all_eq_true.mp rfl⟩,
    .call ⟨'\'', "className".toList, Or.inr rfl, List.all_eq_true.mp rfl⟩
      [⟨'"', " ".toList, Or.inl rfl, List.all_eq_true.mp rfl⟩,
        ⟨'"', [], Or.inl rfl, List.all_eq_true.mp rfl⟩],
    .quoted ⟨'\'', "  ".toList, Or.inr rfl, List.all_eq_true.mp rfl⟩]

/-- A scope that looks like an attribute in front of its value. -/
def assigningScope : Settings := { Settings.defaults with scope := "className=".toList }

theorem sweep_agrees_on_namesSpelt :
    ∃ nodes, assigningScope.attributeName = Settings.defaults.attributeName ∧
      assigningScope.joinName = Settings.defaults.joinName ∧ assigningScope.fault? = none ∧
      assigningScope.scope ≠ [] ∧ (∀ c ∈ assigningScope.scope, isControl c = false) ∧
      Markup.parse .tsx (print id id namesSpelt) = .ok nodes ∧
      (Node.valuesOfAll assigningScope.attributeName nodes).map
        (reading? assigningScope.joinName) =
          (readings (Text.size ['<', '>']) namesSpelt).map some ∧
      ∃ o p, Transform.run ⟨print id id namesSpelt⟩ assigningScope .tsx = .ok o ∧
        run assigningScope (print id id namesSpelt) = .ok p ∧ p.code = o.code ∧
        o.code = print (ClassList.qualify assigningScope.scope)
          (ClassList.qualify assigningScope.scope) namesSpelt := by
  have hattribute : assigningScope.attributeName = Settings.defaults.attributeName := rfl
  have hjoin : assigningScope.joinName = Settings.defaults.joinName := rfl
  have hvalid : assigningScope.fault? = none := by decide +kernel
  have hscope : assigningScope.scope ≠ [] := by decide +kernel
  have hcontrol : ∀ c ∈ assigningScope.scope, isControl c = false :=
    Text.forall_eq_false_of_any (by decide +kernel)
  have hnodes : (Markup.parse .tsx (print id id namesSpelt)).toOption.any (fun nodes => decide
      ((Node.valuesOfAll assigningScope.attributeName nodes).map
        (reading? assigningScope.joinName) =
          (readings (Text.size ['<', '>']) namesSpelt).map some)) = true := by decide +kernel
  obtain ⟨nodes, hparse, hread⟩ := exists_ok_of_any hnodes
  rw [decide_eq_true_eq] at hread
  exact ⟨nodes, hattribute, hjoin, hvalid, hscope, hcontrol, hparse, hread,
    sweep_agrees_with_transform hattribute hjoin hvalid hscope hcontrol namesSpelt hparse hread⟩

end Sweep
end ClassScope
