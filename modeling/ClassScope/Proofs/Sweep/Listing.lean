import ClassScope.Proofs.Enclosure
import ClassScope.Proofs.Sweep.Cut

/-! Listings: elements in a row, each with a class attribute whose value is a quoted string or a
call of the join function with quoted strings. A sweep qualifies every string of a listing, those
in calls with its first pass and the others with its second, and nothing else. -/
namespace ClassScope.Listing
open Text

def isControl (c : Char) : Bool := c.toNat < 0x20 || (0x7F ≤ c.toNat && c.toNat ≤ 0x9F)

/-- Characters that mean something to a reader of the source, and the two separators. -/
def marks : List Char :=
  ['"', '\'', '\\', '(', ')', '\x7b', '\x7d', '<', '>', '&', ':', '=', '\u2028', '\u2029']

def isPlain (c : Char) : Bool := !(marks.contains c || isControl c)

structure Quoted where
  quote : Char
  content : Text
  isQuote : quote = '"' ∨ quote = '\''
  plain : ∀ c ∈ content, isPlain c = true

inductive Value where
  | quoted (string : Quoted)
  | call (first : Quoted) (others : List Quoted)

def Quoted.print (f : Text → Text) (q : Quoted) : Text := q.quote :: f q.content ++ [q.quote]

def printArguments (f : Text → Text) (first : Quoted) (others : List Quoted) : Text :=
  first.print f ++ others.flatMap fun q => [',', ' '] ++ q.print f

@[irreducible] def lead : Text := "<div ".toList

@[irreducible] def attributeName : Text := "className".toList

@[irreducible] def joinName : Text := "classnames".toList

@[irreducible] def close : Text := " />".toList

/-- A value with `f` made of a string that stands alone and `g` of those in a call. -/
def Value.print (f g : Text → Text) : Value → Text
  | quoted q => q.print f
  | call first others =>
    '\x7b' :: joinName ++ ['('] ++ printArguments g first others ++ [')', '\x7d']

def printElement (f g : Text → Text) (v : Value) : Text :=
  lead ++ attributeName ++ ['='] ++ v.print f g ++ close

/-- The elements of a listing in one fragment. -/
def print (f g : Text → Text) (vs : List Value) : Text :=
  ['<', '>'] ++ vs.flatMap (printElement f g) ++ ['<', '/', '>', ';']

theorem not_mem_marks_of_isPlain {c : Char} (h : isPlain c = true) : c ∉ marks := by
  intro hc
  simp [isPlain, hc] at h

theorem Quoted.not_mem_content {c : Char} (hc : c ∈ marks) (q : Quoted) : c ∉ q.content :=
  fun h => not_mem_marks_of_isPlain (q.plain c h) hc

theorem Quoted.quote_mem_marks (q : Quoted) : q.quote ∈ marks := by
  rcases q.isQuote with h | h <;> rw [h] <;> decide

theorem Quoted.mem_print {f : Text → Text} {q : Quoted} {c : Char} :
    c ∈ q.print f ↔ c = q.quote ∨ c ∈ f q.content := by
  simp [Quoted.print, or_comm]

/-- A character that is no quote, and not one of those around the arguments, stands in one of
them. -/
theorem mem_printArguments {f : Text → Text} {first : Quoted} {others : List Quoted} {c : Char}
    (h : c ∈ printArguments f first others) :
    c = ',' ∨ c = ' ' ∨ ∃ q : Quoted, c ∈ q.print f := by
  simp only [printArguments, List.mem_append, List.mem_flatMap, List.mem_cons, List.not_mem_nil,
    or_false] at h
  rcases h with h | ⟨q, -, (rfl | rfl) | h⟩
  · exact Or.inr (Or.inr ⟨first, h⟩)
  · exact Or.inl rfl
  · exact Or.inr (Or.inl rfl)
  · exact Or.inr (Or.inr ⟨q, h⟩)

section Sweep
open Sweep

variable {scope t u : Text}

theorem quoted_print (before : Option Char) (q : Quoted) (t : Text) :
    Sweep.quoted before (q.print id ++ t) = some ((q.quote, q.content), q.print id, t) := by
  have hquote : q.quote ∉ q.content := q.not_mem_content q.quote_mem_marks
  have hesc : '\\' ∉ q.content := q.not_mem_content (by decide)
  have hne : q.quote ≠ '\\' := by rcases q.isQuote with h | h <;> rw [h] <;> decide
  simp [Quoted.print, Sweep.quoted, q.isQuote, quotedBody?_of_not_mem hesc hquote hne]

theorem becomes_string (scope : Text) {before : Option Char} {q : Quoted}
    (h : ∀ b, Becomes Sweep.quoted (requoted scope) b t u) :
    Becomes Sweep.quoted (requoted scope) before (q.print id ++ t)
      (q.print (ClassList.qualify scope) ++ u) :=
  .found (quoted_print before q t) (h _)

theorem becomes_printArguments (scope : Text) (first : Quoted) (others : List Quoted) :
    Becomes Sweep.quoted (requoted scope) none (printArguments id first others)
      (printArguments (ClassList.qualify scope) first others) := by
  have hothers : ∀ before, Becomes Sweep.quoted (requoted scope) before
      (others.flatMap fun q => [',', ' '] ++ q.print id)
      (others.flatMap fun q => [',', ' '] ++ q.print (ClassList.qualify scope)) := by
    induction others with
    | nil => exact fun _ => .nil
    | cons q others ih =>
      intro before
      simp only [List.flatMap_cons, List.append_assoc]
      exact .kept (misses_quoted (forall_eq_false_of_any rfl) _) (becomes_string scope ih)
  exact becomes_string scope hothers

theorem recalled_printArguments (scope name : Text) (first : Quoted) (others : List Quoted) :
    recalled scope name (printArguments id first others) =
      name ++ '(' :: printArguments (ClassList.qualify scope) first others ++ [')'] := by
  rw [recalled, (becomes_printArguments scope first others).flatMap_pieces quoted_sound]

theorem printElement_quoted (f g : Text → Text) (q : Quoted) (t : Text) :
    printElement f g (.quoted q) ++ t =
      lead ++
        ((attributeName ++ ['='] ++ q.quote :: f q.content ++ [q.quote]) ++ (close ++ t)) := by
  simp [printElement, Value.print, Quoted.print]

theorem printElement_call (f g : Text → Text) (first : Quoted) (others : List Quoted) (t : Text) :
    printElement f g (.call first others) ++ t =
      (lead ++ attributeName ++ ['=', '\x7b']) ++
        ((joinName ++ '(' :: printArguments g first others ++ [')']) ++
          ('\x7d' :: close ++ t)) := by
  simp [printElement, Value.print]

theorem not_mem_lead : 'c' ∉ lead := by decide +kernel

theorem not_mem_close : 'c' ∉ close := by decide +kernel

theorem misses_join {s : Text} (h : 'c' ∉ s) (t : Text) : Misses (joinCall joinName) s t :=
  misses_of_not_mem h (fun _ _ _ hr => (head?_of_joinCall hr).trans (by decide +kernel)) t

theorem misses_attribute {s : Text} (h : 'c' ∉ s) (t : Text) :
    Misses (assigned attributeName) s t :=
  misses_of_not_mem h (fun _ _ _ hr => (head?_of_assigned hr).trans (by decide +kernel)) t

/-- A pass over a listing goes over its elements one by one; nothing matches around them. -/
theorem becomes_print {α : Type} {find : Finder α} {replace : α → Text} {f g f' g' : Text → Text}
    (hmiss : ∀ s t, 'c' ∉ s → Misses find s t)
    (helement : ∀ v t u, (∀ b, Becomes find replace b t u) → ∀ b,
      Becomes find replace b (printElement f g v ++ t) (printElement f' g' v ++ u))
    (vs : List Value) : Becomes find replace none (print f g vs) (print f' g' vs) := by
  have hend : ∀ b, Becomes find replace b (['<', '/', '>', ';'] ++ [])
      (['<', '/', '>', ';'] ++ []) := fun b => .kept (hmiss _ [] (by decide)) .nil
  have helements : ∀ b, Becomes find replace b
      (vs.flatMap (printElement f g) ++ ['<', '/', '>', ';'])
      (vs.flatMap (printElement f' g') ++ ['<', '/', '>', ';']) := by
    induction vs with
    | nil => exact hend
    | cons v vs ih =>
      intro b
      simp only [List.flatMap_cons, List.append_assoc]
      exact helement v _ _ ih b
  unfold print
  rw [List.append_assoc, List.append_assoc]
  exact .kept (hmiss _ _ (by decide)) (helements _)

theorem becomes_element_join (scope : Text) (v : Value)
    (h : ∀ b, Becomes (joinCall joinName) (recalled scope joinName) b t u)
    (before : Option Char) :
    Becomes (joinCall joinName) (recalled scope joinName) before
      (printElement id id v ++ t) (printElement id (ClassList.qualify scope) v ++ u) := by
  have hlead : '(' ∉ lead := by decide +kernel
  have hname : '(' ∉ attributeName := by decide +kernel
  cases v with
  | quoted q =>
    have hclose : '(' ∉ close := by decide +kernel
    have hcontent : '(' ∉ q.content := q.not_mem_content (by decide)
    have hquote : '(' ≠ q.quote := by rcases q.isQuote with h | h <;> rw [h] <;> decide
    have hopen : '(' ∉ printElement id id (.quoted q) := by
      simp [printElement, Value.print, Quoted.print, hlead, hname, hclose, hcontent, hquote]
    have hlast : (printElement id id (.quoted q)).getLast? = some '>' := by
      have hclosed : close.getLast? = some '>' := by decide +kernel
      rw [printElement, List.getLast?_append, hclosed, Option.some_or]
    have hend : '>' ∉ joinName := by decide +kernel
    exact .kept (misses_joinCall hopen hlast hend t) (h _)
  | call first others =>
    have hopen : '(' ∉ lead ++ attributeName ++ ['=', '\x7b'] := by simp [hlead, hname]
    have hlast : (lead ++ attributeName ++ ['=', '\x7b']).getLast? = some '\x7b' := by simp
    have hbrace : '\x7b' ∉ joinName := by decide +kernel
    have hstart : StartsName joinName (some '\x7b') := ⟨'c', by decide +kernel, by decide +kernel⟩
    have hne : printArguments id first others ≠ [] := by simp [printArguments, Quoted.print]
    have hclosed : ')' ∉ printArguments id first others := by
      intro hc
      rcases mem_printArguments hc with hc | hc | ⟨q, hc⟩
      · cases hc
      · cases hc
      · rcases Quoted.mem_print.mp hc with hc | hc
        · rcases q.isQuote with h | h <;> rw [h] at hc <;> cases hc
        · exact q.not_mem_content (by decide) hc
    rw [printElement_call, printElement_call, ← recalled_printArguments]
    refine .kept (misses_joinCall hopen hlast hbrace _) ?_
    rw [hlast, Option.some_or]
    refine .found (joinCall_eq_some_iff.mpr ⟨hstart, rfl, rfl, hne, hclosed⟩) ?_
    exact .kept (misses_join (by simp [not_mem_close]) t) (h _)

theorem code_joinPass_print (scope : Text) (vs : List Value) :
    (joinPass scope joinName (print id id vs)).code = print id (ClassList.qualify scope) vs :=
  code_joinPass (becomes_print (fun _ t h => misses_join h t)
    (fun v _ _ h => becomes_element_join scope v h) vs)

/-- A qualified string of a listing ends with a character of its own, and not with a mark that a
value could follow. -/
theorem not_awaitsValue_qualify (q : Quoted) :
    awaitsValue (ClassList.qualify scope q.content) = false := by
  by_cases hwords : words q.content = []
  · rw [ClassList.qualify_eq_nil_iff.mpr hwords]
    rfl
  · obtain ⟨w, hw, d, hd, s, hs⟩ := ClassList.exists_qualify_eq_append hwords
    have hblank : isBlank d = false := solid_of_mem_words hw d hd
    have hmarks : d ∉ marks :=
      not_mem_marks_of_isPlain (q.plain d ((infix_of_mem_words hw).subset hd))
    have hcolon : d ≠ ':' := fun h => hmarks (by rw [h]; decide)
    have hequals : d ≠ '=' := fun h => hmarks (by rw [h]; decide)
    rw [hs, awaitsValue_append_singleton s hblank]
    simp [hcolon, hequals]

theorem not_isQuote_of_mem_qualify (hscope : ∀ c ∈ scope, Sweep.isQuote c = false) (q : Quoted) :
    ∀ c ∈ ClassList.qualify scope q.content, Sweep.isQuote c = false := by
  intro c hc
  rcases ClassList.mem_qualify hc with hc | hc | rfl | rfl
  · exact hscope c hc
  · refine not_isQuote_iff.mpr ⟨?_, ?_⟩ <;> rintro rfl <;>
      exact q.not_mem_content (by decide) hc
  · rfl
  · rfl

/-- No attribute value starts in a qualified string or in front of it, if none could in what stands
before. -/
theorem misses_string (hscope : ∀ c ∈ scope, Sweep.isQuote c = false) {s : Text}
    (hs : ∀ c ∈ s, Sweep.isQuote c = false) (hawaits : awaitsValue s = false) (q : Quoted)
    (t : Text) : Misses (assigned attributeName) (s ++ q.print (ClassList.qualify scope)) t := by
  have hname : ∀ c ∈ attributeName, Sweep.isQuote c = false :=
    forall_eq_false_of_any (by decide +kernel)
  have hquote := isQuote_iff.mpr q.isQuote
  have hcontent := misses_assigned hname (not_isQuote_of_mem_qualify hscope q) hquote
    (not_awaitsValue_qualify q) t
  have hsplit : s ++ q.print (ClassList.qualify scope) =
      (s ++ [q.quote]) ++ (ClassList.qualify scope q.content ++ [q.quote]) := by
    simp [Quoted.print]
  rw [hsplit]
  exact (misses_assigned hname hs hquote hawaits _).append hcontent

theorem misses_call (hscope : ∀ c ∈ scope, Sweep.isQuote c = false)
    (first : Quoted) (others : List Quoted) (t : Text) :
    Misses (assigned attributeName)
      (printElement id (ClassList.qualify scope) (.call first others)) t := by
  have hothers : ∀ t, Misses (assigned attributeName)
      (others.flatMap fun q => [',', ' '] ++ q.print (ClassList.qualify scope)) t := by
    induction others with
    | nil =>
      intro t before u hu hne
      exact absurd (List.suffix_nil.mp hu) hne
    | cons q others ih =>
      intro t
      rw [List.flatMap_cons]
      exact (misses_string hscope (forall_eq_false_of_any rfl) rfl q _).append (ih t)
  have hopen : ∀ c ∈ lead ++ attributeName ++ '=' :: '\x7b' :: joinName ++ ['('],
      Sweep.isQuote c = false := forall_eq_false_of_any (by decide +kernel)
  have hawaits : awaitsValue (lead ++ attributeName ++ '=' :: '\x7b' :: joinName ++ ['(']) =
      false := by decide +kernel
  have hsplit : printElement id (ClassList.qualify scope) (.call first others) =
      (lead ++ attributeName ++ '=' :: '\x7b' :: joinName ++ ['('] ++
        first.print (ClassList.qualify scope)) ++
      ((others.flatMap fun q => [',', ' '] ++ q.print (ClassList.qualify scope)) ++
        (')' :: '\x7d' :: close)) := by
    simp [printElement, Value.print, printArguments]
  have hend := misses_attribute (s := ')' :: '\x7d' :: close) (by simp [not_mem_close]) t
  rw [hsplit]
  exact (misses_string hscope hopen hawaits first _).append ((hothers _).append hend)

theorem becomes_element_attribute (hscope : ∀ c ∈ scope, Sweep.isQuote c = false) (v : Value)
    (h : ∀ b, Becomes (assigned attributeName) (reassigned scope attributeName) b t u)
    (before : Option Char) :
    Becomes (assigned attributeName) (reassigned scope attributeName) before
      (printElement id (ClassList.qualify scope) v ++ t)
      (printElement (ClassList.qualify scope) (ClassList.qualify scope) v ++ u) := by
  cases v with
  | call first others => exact .kept (misses_call hscope first others t) (h _)
  | quoted q =>
    have hstart : StartsName attributeName (some ' ') := ⟨'c', by decide +kernel, by decide +kernel⟩
    have hlast : lead.getLast? = some ' ' := by decide +kernel
    have hquote : q.quote ∉ q.content := q.not_mem_content q.quote_mem_marks
    have hsep : IsSeparator ['='] := ⟨[], '=', [], rfl, Or.inr rfl, by simp, by simp⟩
    rw [printElement_quoted, printElement_quoted]
    refine .kept (misses_attribute not_mem_lead _) ?_
    rw [hlast, Option.some_or]
    have hfound : assigned attributeName (some ' ')
        (attributeName ++ ['='] ++ q.quote :: q.content ++ [q.quote] ++ (close ++ t)) =
        some (⟨['='], q.quote, q.content⟩, _, close ++ t) :=
      assigned_eq_some_iff.mpr ⟨hstart, rfl, rfl, hsep, q.isQuote, hquote⟩
    exact .found hfound (.kept (misses_attribute not_mem_close t) (h _))

theorem code_attributePass_print (hscope : ∀ c ∈ scope, Sweep.isQuote c = false)
    (vs : List Value) :
    (attributePass scope attributeName (print id (ClassList.qualify scope) vs)).code =
      print (ClassList.qualify scope) (ClassList.qualify scope) vs :=
  code_attributePass (becomes_print (fun _ t h => misses_attribute h t)
    (fun v _ _ h => becomes_element_attribute hscope v h) vs)

end Sweep

end ClassScope.Listing
