import Mathlib.Algebra.Group.Nat.Even
import ClassScope.Proofs.Interpolation
import ClassScope.Proofs.Sweep.Cut

/-! Where strings end after a sweep. In a string a backslash takes the next character with it, but
names are cut at blanks whether or not a backslash stands in front of them. So a name can end with
a backslash that has lost its blank: within the list it takes the space that comes next, and at the
end of the list it takes the closing quote. -/
namespace ClassScope

namespace Text

theorem mem_words_solid_append {u t w : Text} (hne : u ≠ []) (hu : ∀ c ∈ u, isBlank c = false)
    (h : w ∈ words (u ++ t)) : w = u ∨ (∃ v ∈ words t, w = u ++ v) ∨ w ∈ words t := by
  rw [words_append, words_of_solid hne hu, meet] at h
  split at h
  · cases hwords : words t with
    | nil =>
      rw [hwords] at h
      exact .inl (List.mem_singleton.mp h)
    | cons v vs =>
      rw [hwords] at h
      rcases List.mem_cons.mp h with rfl | h
      · exact .inr (.inl ⟨v, List.mem_cons_self, rfl⟩)
      · exact .inr (.inr (List.mem_cons_of_mem v h))
  · rcases List.mem_cons.mp h with rfl | h
    · exact .inl rfl
    · exact .inr (.inr h)

def backslashes (t : Text) : Nat := (t.reverse.takeWhile (· = '\\')).length

@[simp] theorem backslashes_concat (t : Text) : backslashes (t ++ ['\\']) = backslashes t + 1 := by
  simp [backslashes]

/-- Something in front counts only if nothing but backslashes follows. -/
theorem backslashes_append (s t : Text) :
    backslashes (s ++ t) =
      if t.all (· = '\\') then backslashes s + backslashes t else backslashes t := by
  have hall : (t.reverse.takeWhile (· = '\\')).length = t.reverse.length ↔
      t.all (· = '\\') = true := by
    rw [(List.takeWhile_sublist _).length_eq, List.takeWhile_eq_self_iff]
    simp
  rw [backslashes, List.reverse_append, List.takeWhile_append]
  split
  · rename_i h
    rw [if_pos (hall.mp h), backslashes, backslashes, h, List.length_append, Nat.add_comm]
  · rename_i h
    rw [if_neg (mt hall.mpr h)]
    rfl

theorem even_backslashes_append {s t : Text} (hs : Even (backslashes s))
    (ht : Even (backslashes t)) : Even (backslashes (s ++ t)) := by
  rw [backslashes_append]
  split
  · exact hs.add ht
  · exact ht

end Text

namespace Sweep
open Text

variable {quote : Char} {u t w : Text}

/-- Characters that stand for themselves, and backslashes with the character they take. -/
inductive Whole (quote : Char) : Text → Prop
  | nil : Whole quote []
  | plain {c : Char} {t : Text} (hquote : c ≠ quote) (hesc : c ≠ '\\') (h : Whole quote t) :
      Whole quote (c :: t)
  | escaped {c : Char} {t : Text} (hline : c ≠ '\n') (h : Whole quote t) :
      Whole quote ('\\' :: c :: t)

/-- Whole but for a backslash at the end, which takes what comes next. -/
def Hangs (quote : Char) (t : Text) : Prop := ∃ u, Whole quote u ∧ t = u ++ ['\\']

namespace Whole

/-- What is whole is read over. -/
theorem quotedBody?_append (h : Whole quote u) (t : Text) :
    quotedBody? quote (u ++ t) = (quotedBody? quote t).map fun (s, r) => (u ++ s, r) := by
  induction h with
  | nil => simp
  | plain hquote hesc _ ih => simp [quotedBody?, hquote, hesc, ih, Function.comp_def]
  | escaped hline _ ih => simp [quotedBody?, hline, ih, Function.comp_def]

theorem of_quotedBody? {rest : Text} (h : quotedBody? quote t = some (u, rest)) :
    Whole quote u := by
  fun_induction quotedBody? quote t generalizing u with
  | case1 => cases h
  | case2 => cases h
  | case3 c t hline ih =>
    obtain ⟨⟨inner, _⟩, hbody, heq⟩ := Option.map_eq_some_iff.mp h
    cases heq
    exact .escaped hline (ih hbody)
  | case4 =>
    cases h
    exact .nil
  | case5 => cases h
  | case6 c t _ hquote hesc ih =>
    obtain ⟨⟨inner, _⟩, hbody, heq⟩ := Option.map_eq_some_iff.mp h
    cases heq
    exact .plain hquote hesc (ih hbody)

theorem cons_iff {c : Char} (hesc : c ≠ '\\') :
    Whole quote (c :: t) ↔ c ≠ quote ∧ Whole quote t := by
  refine ⟨fun h => ?_, fun h => .plain h.1 hesc h.2⟩
  cases h with
  | plain hquote _ h => exact ⟨hquote, h⟩
  | escaped => exact absurd rfl hesc

theorem escape_iff {c : Char} :
    Whole quote ('\\' :: c :: t) ↔ c ≠ '\n' ∧ Whole quote t := by
  refine ⟨fun h => ?_, fun h => .escaped h.1 h.2⟩
  cases h with
  | plain _ hesc _ => exact absurd rfl hesc
  | escaped hline h => exact ⟨hline, h⟩

theorem append_iff (h : Whole quote u) : Whole quote (u ++ t) ↔ Whole quote t := by
  induction h with
  | nil => rfl
  | plain hquote hesc _ ih => simp [cons_iff hesc, hquote, ih]
  | escaped hline _ ih => simp [escape_iff, hline, ih]

theorem even_backslashes (h : Whole quote u) : Even (backslashes u) := by
  induction h with
  | nil => exact ⟨0, rfl⟩
  | @plain c t _ hesc _ ih =>
    have hone : Even (backslashes [c]) := by simp [backslashes, hesc]
    exact even_backslashes_append hone ih
  | @escaped c t _ _ ih =>
    have htwo : Even (backslashes ['\\', c]) := by
      by_cases hc : c = '\\'
      · subst hc
        exact ⟨1, rfl⟩
      · simp [backslashes, hc]
    exact even_backslashes_append htwo ih

end Whole

/-- A word of a whole text: whole, or with its last backslash cut off from what that takes. -/
def Fragment (quote : Char) (t : Text) : Prop := Whole quote t ∨ Hangs quote t

namespace Fragment

theorem append (hu : Whole quote u) (ht : Fragment quote t) : Fragment quote (u ++ t) := by
  rcases ht with ht | ⟨v, hv, rfl⟩
  · exact .inl (hu.append_iff.mpr ht)
  · exact .inr ⟨u ++ v, hu.append_iff.mpr hv, by simp⟩

theorem whole_iff (h : Fragment quote t) : Whole quote t ↔ Even (backslashes t) := by
  refine ⟨Whole.even_backslashes, fun heven => ?_⟩
  rcases h with h | ⟨u, hu, rfl⟩
  · exact h
  · rw [backslashes_concat, Nat.even_add_one] at heven
    exact absurd hu.even_backslashes heven

/-- Behind a fragment and a space everything is as it would be without them. -/
theorem whole_append_space_iff (hquote : ' ' ≠ quote) (h : Fragment quote u) :
    Whole quote (u ++ ' ' :: t) ↔ Whole quote t := by
  rcases h with h | ⟨v, hv, rfl⟩
  · rw [h.append_iff, Whole.cons_iff (by decide)]
    simp [hquote]
  · rw [List.append_assoc, hv.append_iff, List.singleton_append, Whole.escape_iff]
    simp

end Fragment

theorem Whole.fragment_of_mem_words (h : Whole quote t) :
    ∀ w ∈ words t, Fragment quote w := by
  induction h with
  | nil => simp
  | @plain c t hquote hesc _ ih =>
    have hone : Whole quote [c] := .plain hquote hesc .nil
    intro w hw
    rcases mem_words_cons hw with hw | ⟨-, rfl | ⟨v, hv, rfl, -⟩⟩
    · exact ih w hw
    · exact .inl hone
    · exact (ih v hv).append (u := [c]) hone
  | @escaped c t hline _ ih =>
    intro w hw
    cases hc : isBlank c with
    | true =>
      -- The blank is lost to the backslash in front of it.
      have hwords : words ('\\' :: c :: t) = ['\\'] :: words t := words_append_blank ['\\'] hc t
      rw [hwords] at hw
      rcases List.mem_cons.mp hw with rfl | hw
      · exact .inr ⟨[], .nil, rfl⟩
      · exact ih w hw
    | false =>
      have hpair : Whole quote ['\\', c] := .escaped hline .nil
      have hsolid : ∀ d ∈ ['\\', c], isBlank d = false :=
        List.forall_mem_cons.mpr ⟨by decide, List.forall_mem_singleton.mpr hc⟩
      rcases mem_words_solid_append (u := ['\\', c]) (by simp) hsolid hw with
        rfl | ⟨v, hv, rfl⟩ | hw
      · exact .inl hpair
      · exact (ih v hv).append hpair
      · exact ih w hw

/-- Fragments with spaces between them: up to the last one everything is whole. -/
theorem exists_join_eq_append (hquote : ' ' ≠ quote) {ws : List Text}
    (hws : ∀ w ∈ ws, Fragment quote w) (hlast : ws.getLast? = some w) :
    ∃ v, Whole quote v ∧ join [' '] ws = v ++ w := by
  induction ws with
  | nil => cases hlast
  | cons x ws ih =>
    obtain ⟨hx, hrest⟩ := List.forall_mem_cons.mp hws
    cases ws with
    | nil =>
      obtain rfl : x = w := by simpa using hlast
      exact ⟨[], .nil, rfl⟩
    | cons y ws =>
      obtain ⟨v, hv, hjoin⟩ := ih hrest (by simpa using hlast)
      refine ⟨x ++ ' ' :: v, (hx.whole_append_space_iff hquote).mpr hv, ?_⟩
      rw [join_cons_cons, hjoin]
      simp

section Qualified

variable {scope : Text}

theorem Whole.of_forall (h : ∀ c ∈ u, c ≠ quote ∧ c ≠ '\\') : Whole quote u := by
  induction u with
  | nil => exact .nil
  | cons c u ih =>
    obtain ⟨hc, hu⟩ := List.forall_mem_cons.mp h
    exact .plain hc.1 hc.2 (ih hu)

theorem whole_scope (hquote : isQuote quote = true)
    (hscope : ∀ c ∈ Settings.special, c ∉ scope) : Whole quote (scope ++ ['-']) := by
  have hquote' : quote ∉ scope ∧ '-' ≠ quote := by
    rcases isQuote_iff.mp hquote with rfl | rfl <;> exact ⟨hscope _ (by decide), by decide⟩
  refine Whole.of_forall fun c hc => ?_
  rcases List.mem_append.mp hc with hc | hc
  · refine ⟨?_, ?_⟩ <;> rintro rfl
    · exact hquote'.1 hc
    · exact hscope _ (by decide) hc
  · obtain rfl := List.mem_singleton.mp hc
    exact ⟨hquote'.2, by decide⟩

/-- A qualified string is whole up to the last of its old names. -/
theorem exists_qualify_eq_append_last (hquote : isQuote quote = true)
    (hscope : ∀ c ∈ Settings.special, c ∉ scope) (ht : Whole quote t)
    (hlast : (words t).getLast? = some w) :
    ∃ v, Whole quote v ∧ ClassList.qualify scope t = v ++ w := by
  have hspace : ' ' ≠ quote := by rcases isQuote_iff.mp hquote with rfl | rfl <;> decide
  have hfront := whole_scope hquote hscope
  have hname : ∀ w, ClassList.qualifyName scope w = (scope ++ ['-']) ++ w := by
    simp [ClassList.qualifyName]
  have hnames : ∀ v ∈ (words t).map (ClassList.qualifyName scope), Fragment quote v := by
    intro v hv
    obtain ⟨w, hw, rfl⟩ := List.mem_map.mp hv
    rw [hname]
    exact (ht.fragment_of_mem_words w hw).append hfront
  have hlast' : ((words t).map (ClassList.qualifyName scope)).getLast? =
      some (ClassList.qualifyName scope w) := by rw [List.getLast?_map, hlast, Option.map_some]
  obtain ⟨v, hv, hjoin⟩ := exists_join_eq_append hspace hnames hlast'
  refine ⟨v ++ (scope ++ ['-']), hv.append_iff.mpr hfront, ?_⟩
  rw [ClassList.qualify, hjoin, hname, ← List.append_assoc]

/-- Does no name stand at the end, or one that ends with an even number of backslashes? -/
def Closes (t : Text) : Prop := ∀ w ∈ (words t).getLast?, Even (backslashes w)

/-- Qualifying leaves a fragment of a string, and a whole one exactly if the last name of the string
had a character for each of its backslashes. -/
theorem fragment_qualify (hquote : isQuote quote = true)
    (hscope : ∀ c ∈ Settings.special, c ∉ scope) (ht : Whole quote t) :
    Fragment quote (ClassList.qualify scope t) ∧
      (Whole quote (ClassList.qualify scope t) ↔ Closes t) := by
  cases hlast : (words t).getLast? with
  | none =>
    have hnone : words t = [] := List.getLast?_eq_none_iff.mp hlast
    rw [ClassList.qualify_eq_nil_iff.mpr hnone]
    exact ⟨.inl .nil, iff_of_true .nil fun w hw => by simp [hlast] at hw⟩
  | some w =>
    obtain ⟨v, hv, heq⟩ := exists_qualify_eq_append_last hquote hscope ht hlast
    have hw : Fragment quote w := ht.fragment_of_mem_words w (List.mem_of_getLast? hlast)
    rw [heq, hv.append_iff, hw.whole_iff]
    refine ⟨hw.append hv, ?_⟩
    simp [Closes, hlast]

end Qualified

/-! Reading a string in quotes. -/

theorem Whole.quoted_eq (hquote : isQuote quote = true) (h : Whole quote u) (before : Option Char)
    (rest : Text) :
    quoted before (quote :: u ++ [quote] ++ rest) =
      some ((quote, u), quote :: u ++ [quote], rest) := by
  have hesc : quote ≠ '\\' := by rcases isQuote_iff.mp hquote with rfl | rfl <;> decide
  have hend : quotedBody? quote (quote :: rest) = some ([], rest) := by simp [quotedBody?, hesc]
  have hbody : quotedBody? quote (u ++ quote :: rest) = some (u, rest) := by
    rw [h.quotedBody?_append, hend]
    simp
  simp [quoted, isQuote_iff.mp hquote, hbody]

/-- A text that hangs takes its closing quote with it: a string that starts there is longer. -/
theorem Hangs.length_lt {before : Option Char} {rest text after : Text} {string : Char × Text}
    (h : Hangs quote u)
    (hread : quoted before (quote :: u ++ [quote] ++ rest) = some (string, text, after)) :
    (quote :: u ++ [quote]).length < text.length := by
  obtain ⟨v, hv, rfl⟩ := h
  have htext : v ++ ['\\'] ++ [quote] ++ rest = v ++ '\\' :: quote :: rest := by simp
  rw [List.cons_append, List.cons_append, quoted, htext, hv.quotedBody?_append] at hread
  split_ifs at hread
  obtain ⟨⟨inner, _⟩, hbody, heq⟩ := Option.map_eq_some_iff.mp hread
  cases heq
  obtain ⟨⟨tail, _⟩, htail, heq⟩ := Option.map_eq_some_iff.mp hbody
  cases heq
  rw [quotedBody?] at htail
  split_ifs at htail
  obtain ⟨⟨more, _⟩, -, heq⟩ := Option.map_eq_some_iff.mp htail
  cases heq
  simp only [List.length_append, List.length_cons, List.length_nil]
  omega

theorem whole_of_quoted {before : Option Char} {text rest : Text} {string : Char × Text}
    (h : quoted before t = some (string, text, rest)) :
    isQuote string.1 = true ∧ Whole string.1 string.2 := by
  cases t with
  | nil => cases h
  | cons q t =>
    rw [quoted] at h
    split_ifs at h with hq
    obtain ⟨⟨inner, _⟩, hbody, heq⟩ := Option.map_eq_some_iff.mp h
    cases heq
    exact ⟨isQuote_iff.mpr hq, Whole.of_quotedBody? hbody⟩

section Found

variable {α : Type}

def Piece.value? : Piece α → Option α
  | .plain _ => none
  | .found v _ => some v

def finds (find : Finder α) (t : Text) : List α := (pieces find t).filterMap Piece.value?

theorem Cuts.exists_find {find : Finder α} {before : Option Char} {t : Text}
    {ps : List (Piece α)} (h : Cuts find before t ps) {v : α} (hv : v ∈ ps.filterMap Piece.value?) :
    ∃ before' t' text rest, find before' t' = some (v, text, rest) := by
  induction h with
  | nil => cases hv
  | plain _ _ ih => exact ih hv
  | found hsome _ ih =>
    rcases List.mem_cons.mp hv with rfl | hv
    · exact ⟨_, _, _, _, hsome⟩
    · exact ih hv

theorem map_events_replaceAll {β : Type} {replace : Nat → α → Pass} {g : Event → β}
    {f : α → List β} (h : ∀ line v, (replace line v).events.map g = f v) (line : Nat)
    (ps : List (Piece α)) :
    (replaceAll replace line ps).events.map g = (ps.filterMap Piece.value?).flatMap f := by
  induction ps generalizing line with
  | nil => rfl
  | cons p ps ih =>
    cases p with
    | plain c => exact ih _
    | found v text =>
      simp only [replaceAll, List.map_append, h, ih]
      rfl

end Found

def callStrings (name t : Text) : List (Char × Text) :=
  (finds (joinCall name) t).flatMap (finds quoted)

theorem map_events_joinPass (scope name t : Text) :
    ((joinPass scope name t).events.map fun e => (e.before, e.after)) =
      (callStrings name t).map fun string => (string.2, ClassList.qualify scope string.2) := by
  have hstring : ∀ line (_ : Nat) (string : Char × Text),
      ((requote scope line string).events.map fun e => (e.before, e.after)) =
        [(string.2, ClassList.qualify scope string.2)] := fun _ _ _ => rfl
  have hcall : ∀ line arguments,
      ((qualifyCall scope name line arguments).events.map fun e => (e.before, e.after)) =
        (finds quoted arguments).map fun string =>
          (string.2, ClassList.qualify scope string.2) := by
    intro line arguments
    rw [qualifyCall, map_events_replaceAll (hstring line), List.map_eq_flatMap]
    rfl
  rw [joinPass, map_events_replaceAll hcall, callStrings, List.map_flatMap]
  rfl

theorem whole_of_mem_callStrings {name : Text} {string : Char × Text}
    (h : string ∈ callStrings name t) : isQuote string.1 = true ∧ Whole string.1 string.2 := by
  obtain ⟨arguments, -, hstring⟩ := List.mem_flatMap.mp h
  have hcuts := (pieces_eq_iff quoted_sound).mp (rfl : pieces quoted arguments = _)
  obtain ⟨before, t', text, rest, hfind⟩ := hcuts.exists_find hstring
  exact whole_of_quoted hfind

def IsQuotedString (text : Text) : Prop := ∃ string, quoted none text = some (string, text, [])

/-- Each string in a call that the first pass reports gets a new text. That is a quoted string
again, and ends at its closing quote whatever follows, exactly if the last name of the string does
not end with an odd number of backslashes; and if it does, the closing quote is lost, and a string
that starts there runs on beyond it. -/
theorem requoted_string_closes_iff {settings : Settings} (hvalid : settings.fault? = none)
    (t : Text) :
    (((joinPass settings.scope settings.joinName t).events.map fun e => (e.before, e.after)) =
      (callStrings settings.joinName t).map fun string =>
        (string.2, ClassList.qualify settings.scope string.2)) ∧
    ∀ string ∈ callStrings settings.joinName t, ∀ line,
      let new := (requote settings.scope line string).code
      (IsQuotedString new ↔ Closes string.2) ∧
      (Closes string.2 → ∀ before rest, quoted before (new ++ rest) =
        some ((string.1, ClassList.qualify settings.scope string.2), new, rest)) ∧
      (¬ Closes string.2 → ∀ before rest other text after,
        quoted before (new ++ rest) = some (other, text, after) → new.length < text.length) := by
  refine ⟨map_events_joinPass _ _ t, fun string hstring line => ?_⟩
  intro new
  obtain ⟨hquote, hwhole⟩ := whole_of_mem_callStrings hstring
  obtain ⟨hfragment, hiff⟩ := fragment_qualify hquote
    (fun _ hc => Settings.not_mem_scope_of_special hvalid hc) hwhole
  have hcloses : Closes string.2 → ∀ before rest, quoted before (new ++ rest) =
      some ((string.1, ClassList.qualify settings.scope string.2), new, rest) :=
    fun h => (hiff.mpr h).quoted_eq hquote
  have hruns : ¬ Closes string.2 → ∀ before rest other text after,
      quoted before (new ++ rest) = some (other, text, after) → new.length < text.length := by
    intro h before rest other text after hread
    exact (hfragment.resolve_left (mt hiff.mp h)).length_lt hread
  refine ⟨⟨?_, fun h => ?_⟩, hcloses, hruns⟩
  · rintro ⟨other, hread⟩
    by_contra h
    have hlonger := hruns h none [] other new [] (by simpa using hread)
    exact Nat.lt_irrefl _ hlonger
  · have hread := hcloses h none []
    rw [List.append_nil] at hread
    exact ⟨_, hread⟩

def escapedBlank : Text := "classnames(\"a\\ \", \"b\")".toList

theorem escaped_blank_opens_string :
    Settings.defaults.fault? = none ∧
      ('"', "a\\ ".toList) ∈ callStrings Settings.defaults.joinName escapedBlank ∧
      (sweep Settings.defaults escapedBlank).code =
        "classnames(\"app-a\\\", \"app-b\")".toList ∧
      ¬ IsQuotedString "\"app-a\\\"".toList ∧
      quoted (some '(') "\"app-a\\\", \"app-b\")".toList =
        some (('"', "app-a\\\", ".toList), "\"app-a\\\", \"".toList, "app-b\")".toList) := by
  have hvalid : Settings.defaults.fault? = none := by decide +kernel
  have hmem : ('"', "a\\ ".toList) ∈ callStrings Settings.defaults.joinName escapedBlank := by
    decide +kernel
  have hopen : ¬ Closes "a\\ ".toList := by
    intro h
    have heven : Even (backslashes "a\\".toList) := h _ (by decide +kernel)
    exact absurd heven (by decide +kernel)
  have hiff := ((requoted_string_closes_iff hvalid escapedBlank).2 _ hmem 1).1
  exact ⟨hvalid, hmem, by decide +kernel, fun h => hopen (hiff.mp h), by decide +kernel⟩

end Sweep
end ClassScope
