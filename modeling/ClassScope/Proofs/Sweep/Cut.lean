import ClassScope.Proofs.Sweep.Match

/-! How a sweep cuts a text at the matches, and what becomes of the text when they are replaced. The
fuel of the cut is gone here: a text is cut in one way, which follows it from left to right. -/
namespace ClassScope.Sweep
open Text

variable {α : Type}

/-- A finder that gives back the text that it was given, in two parts, and takes a character at
least. -/
def Finder.Sound (find : Finder α) : Prop :=
  ∀ before t v text rest, find before t = some (v, text, rest) → t = text ++ rest ∧ text ≠ []

theorem Finder.Sound.find_nil {find : Finder α} (h : find.Sound) (before : Option Char) :
    find before [] = none := by
  rw [Option.eq_none_iff_forall_ne_some]
  rintro ⟨v, text, rest⟩ hsome
  obtain ⟨ht, hne⟩ := h _ _ _ _ _ hsome
  exact hne (List.append_eq_nil_iff.mp ht.symm).1

theorem quoted_sound : Finder.Sound quoted := by
  intro before t v text rest h
  obtain ⟨ht, rfl⟩ := quoted_eq_some h
  exact ⟨ht, by simp⟩

theorem joinCall_sound (name : Text) : Finder.Sound (joinCall name) := by
  intro before t v text rest h
  obtain ⟨-, ht, rfl, -⟩ := joinCall_eq_some_iff.mp h
  exact ⟨ht, by simp⟩

theorem assigned_sound (name : Text) : Finder.Sound (assigned name) := by
  intro before t v text rest h
  obtain ⟨-, ht, rfl, -⟩ := assigned_eq_some_iff.mp h
  exact ⟨ht, by simp⟩

/-- How a finder cuts a text that stands after `before`. -/
inductive Cuts (find : Finder α) : Option Char → Text → List (Piece α) → Prop
  | nil (before : Option Char) : Cuts find before [] []
  | plain {before : Option Char} {c : Char} {t : Text} {ps : List (Piece α)}
      (hnone : find before (c :: t) = none) (hrest : Cuts find (some c) t ps) :
      Cuts find before (c :: t) (.plain c :: ps)
  | found {before : Option Char} {v : α} {t text rest : Text} {ps : List (Piece α)}
      (hsome : find before t = some (v, text, rest))
      (hrest : Cuts find (text.getLast?.or before) rest ps) :
      Cuts find before t (.found v text :: ps)

/-- With enough fuel a text is cut as the relation says. -/
theorem cuts_cut {find : Finder α} (h : find.Sound) {fuel : Nat} {before : Option Char} {t : Text}
    (hfuel : t.length ≤ fuel) : Cuts find before t (cut find fuel before t) := by
  fun_induction cut find fuel before t with
  | case1 => exact .nil _
  | case2 _ t hne => exact absurd (List.length_eq_zero_iff.mp (Nat.le_zero.mp hfuel)) hne
  | case3 fuel before c t v text rest hsome ih =>
    obtain ⟨ht, hne⟩ := h _ _ _ _ _ hsome
    have hlength := congrArg List.length ht
    have hpos := List.length_pos_iff.mpr hne
    simp only [List.length_append, List.length_cons] at hlength hfuel
    exact .found hsome (ih (by omega))
  | case4 fuel before c t hnone ih =>
    simp only [List.length_cons] at hfuel
    exact .plain hnone (ih (by omega))

/-- A text is cut in one way only. -/
theorem Cuts.unique {find : Finder α} (h : find.Sound) {before : Option Char} {t : Text}
    {ps qs : List (Piece α)} (hp : Cuts find before t ps) (hq : Cuts find before t qs) :
    ps = qs := by
  induction hp generalizing qs with
  | nil =>
    cases hq with
    | nil => rfl
    | found hsome =>
      rw [h.find_nil] at hsome
      cases hsome
  | plain hnone _ ih =>
    cases hq with
    | plain _ hrest => rw [ih hrest]
    | found hsome =>
      rw [hnone] at hsome
      cases hsome
  | found hsome _ ih =>
    cases hq with
    | nil =>
      rw [h.find_nil] at hsome
      cases hsome
    | plain hnone =>
      rw [hnone] at hsome
      cases hsome
    | found hsome' hrest =>
      rw [hsome] at hsome'
      cases hsome'
      rw [ih hrest]

theorem pieces_eq_iff {find : Finder α} (h : find.Sound) {t : Text} {ps : List (Piece α)} :
    pieces find t = ps ↔ Cuts find none t ps := by
  have hcuts : Cuts find none t (pieces find t) := cuts_cut h (Nat.le_refl _)
  constructor
  · rintro rfl
    exact hcuts
  · exact fun hps => hcuts.unique h hps

def Piece.code (f : α → Text) : Piece α → Text
  | .plain c => [c]
  | .found v _ => f v

theorem code_replaceAll {replace : Nat → α → Pass} {f : α → Text}
    (h : ∀ line v, (replace line v).code = f v) (line : Nat) (ps : List (Piece α)) :
    (replaceAll replace line ps).code = ps.flatMap (Piece.code f) := by
  induction ps generalizing line with
  | nil => rfl
  | cons p ps ih => cases p <;> simp [replaceAll, Piece.code, h, ih]

/-- A text that stands after `before` becomes another when every match `v` is replaced by
`f v`. -/
def Becomes (find : Finder α) (f : α → Text) (before : Option Char) (t u : Text) : Prop :=
  ∃ ps, Cuts find before t ps ∧ ps.flatMap (Piece.code f) = u

/-- No match starts in the first text if the second one follows. -/
def Misses (find : Finder α) (s t : Text) : Prop :=
  ∀ before u, u <:+ s → u ≠ [] → find before (u ++ t) = none

theorem Cuts.missed {find : Finder α} {before : Option Char} {s t : Text} {ps : List (Piece α)}
    (hrest : Cuts find (s.getLast?.or before) t ps) (h : Misses find s t) :
    Cuts find before (s ++ t) (s.map .plain ++ ps) := by
  induction s generalizing before with
  | nil => exact hrest
  | cons c s ih =>
    have hnone : find before (c :: s ++ t) = none := h before _ (List.suffix_refl _) (by simp)
    have hlast : (c :: s).getLast?.or before = s.getLast?.or (some c) := by
      rw [List.getLast?_cons]
      cases s.getLast? <;> rfl
    have hsuffix : Misses find s t := fun b v hv => h b v (hv.trans (List.suffix_cons c s))
    exact .plain hnone (ih (hlast ▸ hrest) hsuffix)

namespace Becomes

variable {find : Finder α} {f : α → Text} {before : Option Char} {t u : Text}

theorem nil : Becomes find f before [] [] := ⟨[], .nil before, rfl⟩

theorem found {v : α} {text rest : Text} (hsome : find before t = some (v, text, rest))
    (hrest : Becomes find f (text.getLast?.or before) rest u) :
    Becomes find f before t (f v ++ u) := by
  obtain ⟨ps, hps, rfl⟩ := hrest
  exact ⟨.found v text :: ps, .found hsome hps, rfl⟩

theorem kept {s : Text} (h : Misses find s t)
    (hrest : Becomes find f (s.getLast?.or before) t u) :
    Becomes find f before (s ++ t) (s ++ u) := by
  obtain ⟨ps, hps, rfl⟩ := hrest
  exact ⟨_, hps.missed h, by simp [Piece.code, List.flatMap_map]⟩

theorem flatMap_pieces (hfind : find.Sound) (h : Becomes find f none t u) :
    (pieces find t).flatMap (Piece.code f) = u := by
  obtain ⟨ps, hps, rfl⟩ := h
  rw [(pieces_eq_iff hfind).mpr hps]

end Becomes

def requoted (scope : Text) (string : Char × Text) : Text :=
  string.1 :: ClassList.qualify scope string.2 ++ [string.1]

def recalled (scope name arguments : Text) : Text :=
  name ++ '(' :: (pieces quoted arguments).flatMap (Piece.code (requoted scope)) ++ [')']

def reassigned (scope name : Text) (a : Assigned) : Text :=
  name ++ a.separator ++ a.quote :: ClassList.qualify scope a.inner ++ [a.quote]

theorem code_joinPass {scope name t u : Text}
    (h : Becomes (joinCall name) (recalled scope name) none t u) :
    (joinPass scope name t).code = u := by
  have hcall : ∀ line arguments,
      (qualifyCall scope name line arguments).code = recalled scope name arguments := by
    intro line arguments
    have hstring : ∀ (_ : Nat) string, (requote scope line string).code = requoted scope string :=
      fun _ _ => rfl
    simp only [qualifyCall, code_replaceAll hstring, recalled]
  rw [joinPass, code_replaceAll hcall, h.flatMap_pieces (joinCall_sound name)]

theorem code_attributePass {scope name t u : Text}
    (h : Becomes (assigned name) (reassigned scope name) none t u) :
    (attributePass scope name t).code = u := by
  have hvalue : ∀ line a, (qualifyAssigned scope name line a).code = reassigned scope name a := by
    intro line a
    simp [qualifyAssigned, requote, qualified, reassigned]
  rw [attributePass, code_replaceAll hvalue, h.flatMap_pieces (assigned_sound name)]

/-! Where no match starts. -/

theorem Misses.append {find : Finder α} {s s' t : Text} (h : Misses find s (s' ++ t))
    (h' : Misses find s' t) : Misses find (s ++ s') t := by
  intro before u hu hne
  obtain ⟨w, hw⟩ := hu
  rcases List.append_eq_append_iff.mp hw with ⟨m, rfl, rfl⟩ | ⟨m, rfl, hm⟩
  · by_cases hm : m = []
    · subst hm
      exact h' before _ (List.suffix_refl _) (by simpa using hne)
    · rw [List.append_assoc]
      exact h before m (List.suffix_append _ _) hm
  · exact h' before u ⟨m, hm.symm⟩ hne

theorem misses_of_not_mem {find : Finder α} {c : Char} {s : Text} (hc : c ∉ s)
    (hfind : ∀ before t r, find before t = some r → t.head? = some c) (t : Text) :
    Misses find s t := by
  intro before u hu hne
  rw [Option.eq_none_iff_forall_ne_some]
  intro r hr
  obtain ⟨d, v, rfl⟩ := List.exists_cons_of_ne_nil hne
  obtain rfl : d = c := by simpa using hfind _ _ _ hr
  exact hc (hu.subset List.mem_cons_self)

theorem head?_of_joinCall {name t : Text} {before : Option Char} {r : Text × Text × Text}
    (h : joinCall name before t = some r) : t.head? = name.head? := by
  obtain ⟨arguments, text, rest⟩ := r
  obtain ⟨⟨c, hc, -⟩, rfl, rfl, -⟩ := joinCall_eq_some_iff.mp h
  simp [hc]

theorem head?_of_assigned {name t : Text} {before : Option Char} {r : Assigned × Text × Text}
    (h : assigned name before t = some r) : t.head? = name.head? := by
  obtain ⟨a, text, rest⟩ := r
  obtain ⟨⟨c, hc, -⟩, rfl, rfl, -⟩ := assigned_eq_some_iff.mp h
  simp [hc]

/-- In a text without opening brackets that does not end inside the name there is no call. -/
theorem misses_joinCall {name s : Text} {d : Char} (hopen : '(' ∉ s) (hd : s.getLast? = some d)
    (hname : d ∉ name) (t : Text) : Misses (joinCall name) s t := by
  intro before u hu hne
  rw [Option.eq_none_iff_forall_ne_some]
  rintro ⟨arguments, text, rest⟩ hsome
  obtain ⟨-, htext, rfl, -⟩ := joinCall_eq_some_iff.mp hsome
  have hlast : u.getLast? = some d := by
    obtain ⟨w, rfl⟩ := hu
    rwa [List.getLast?_append_of_ne_nil _ hne] at hd
  have hmem : d ∈ u := List.mem_of_getLast? hlast
  have hcall : u ++ t = name ++ '(' :: (arguments ++ ')' :: rest) := by simpa using htext
  rcases List.append_eq_append_iff.mp hcall with ⟨m, rfl, -⟩ | ⟨m, rfl, hm⟩
  · exact hname (List.mem_append_left _ hmem)
  · cases m with
    | nil => exact hname (by simpa using hmem)
    | cons e m =>
      obtain rfl : '(' = e := (List.cons.inj hm).1
      exact hopen (hu.subset (by simp))

/-- Does the text end with an equals sign or a colon, and blanks behind it? -/
def awaitsValue (t : Text) : Bool :=
  (t.reverse.dropWhile isBlank).head?.any fun c => c == ':' || c == '='

theorem awaitsValue_append_separator {t : Text} (s : Text) (h : IsSeparator t) :
    awaitsValue (s ++ t) = true := by
  obtain ⟨lead, mark, trail, rfl, hmark, -, htrail⟩ := h
  have hblank : isBlank mark = false := by rcases hmark with rfl | rfl <;> decide
  have hreverse : (s ++ (lead ++ mark :: trail)).reverse =
      trail.reverse ++ mark :: (s ++ lead).reverse := by simp
  have htrail' : ∀ c ∈ trail.reverse, isBlank c = true := fun c hc => htrail c (by simpa using hc)
  rw [awaitsValue, hreverse, List.dropWhile_append_of_pos htrail']
  simpa [hblank] using hmark

theorem awaitsValue_append_singleton (t : Text) {d : Char} (hd : isBlank d = false) :
    awaitsValue (t ++ [d]) = (d == ':' || d == '=') := by
  simp [awaitsValue, hd]

def isQuote (c : Char) : Bool := c == '"' || c == '\''

theorem isQuote_iff {c : Char} : isQuote c = true ↔ c = '"' ∨ c = '\'' := by simp [isQuote]

theorem not_isQuote_iff {c : Char} : isQuote c = false ↔ c ≠ '"' ∧ c ≠ '\'' := by simp [isQuote]

theorem misses_quoted {s : Text} (hs : ∀ c ∈ s, isQuote c = false) (t : Text) :
    Misses quoted s t := by
  intro before u hu hne
  obtain ⟨c, v, rfl⟩ := List.exists_cons_of_ne_nil hne
  have hc := not_isQuote_iff.mp (hs c (hu.subset List.mem_cons_self))
  simp [quoted, hc]

theorem not_isQuote_of_mem_separator {t : Text} (h : IsSeparator t) :
    ∀ c ∈ t, isQuote c = false := by
  obtain ⟨lead, mark, trail, rfl, hmark, hlead, htrail⟩ := h
  have hblank : ∀ c, isBlank c = true → isQuote c = false := by
    intro c hc
    refine not_isQuote_iff.mpr ⟨?_, ?_⟩ <;> rintro rfl <;> cases hc
  intro c hc
  simp only [List.mem_append, List.mem_cons] at hc
  rcases hc with hc | rfl | hc
  · exact hblank c (hlead c hc)
  · rcases hmark with rfl | rfl <;> rfl
  · exact hblank c (htrail c hc)

/-- An attribute does not reach over a quote, and its own stands behind an equals sign or a
colon. -/
theorem misses_assigned {name s : Text} {quote : Char} (hname : ∀ c ∈ name, isQuote c = false)
    (hs : ∀ c ∈ s, isQuote c = false) (hq : isQuote quote = true)
    (hawaits : awaitsValue s = false) (t : Text) :
    Misses (assigned name) (s ++ [quote]) t := by
  intro before u hu hne
  rw [Option.eq_none_iff_forall_ne_some]
  rintro ⟨a, text, rest⟩ hsome
  obtain ⟨-, htext, rfl, hsep, hquote, -⟩ := assigned_eq_some_iff.mp hsome
  obtain ⟨w, rfl, hw⟩ := (List.suffix_concat_iff.mp hu).resolve_left hne
  -- Both readings have the first quote of the text at the same place.
  have hone : w ++ quote :: t = name ++ a.separator ++ a.quote :: (a.inner ++ a.quote :: rest) := by
    simpa using htext
  have hfree : ∀ c ∈ name ++ a.separator, (!isQuote c) = true := by
    intro c hc
    rcases List.mem_append.mp hc with hc | hc
    · simp [hname c hc]
    · simp [not_isQuote_of_mem_separator hsep c hc]
  have hleft := (Text.span_eq_iff (p := (!isQuote ·))).mpr
    ⟨hone, hfree, by simp [isQuote_iff.mpr hquote]⟩
  have hright := (Text.span_eq_iff (p := (!isQuote ·))).mpr
    ⟨(rfl : w ++ quote :: t = _), fun c hc => by simp [hs c (hw.subset hc)], by simp [hq]⟩
  obtain rfl : w = name ++ a.separator := hright.1.symm.trans hleft.1
  obtain ⟨v, rfl⟩ := hw
  rw [← List.append_assoc, awaitsValue_append_separator _ hsep] at hawaits
  cases hawaits

end ClassScope.Sweep
