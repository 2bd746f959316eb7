import Mathlib.Tactic.SplitIfs
import ClassScope.ClassValue.Qualify
import ClassScope.Markup.Lexeme.Token

/-! String literals as they are written and as they are read. A text that is rendered as a string
is read back as that text, whatever follows it, and what follows a string never changes its
value. -/
namespace ClassScope

namespace Markup
open Text

variable {quote : Char} {n : Nat}

theorem stringRaw?_quote (hq : quote = '"' ∨ quote = '\'') (t : Text) :
    stringRaw? quote n (quote :: t) = some ([], ⟨n + 1, t⟩) := by
  rcases hq with rfl | rfl <;> simp [stringRaw?]

/-- A character that stands for itself in a string: it escapes nothing and ends neither the string
nor the line. -/
def Raw (quote c : Char) : Prop := c ≠ '\\' ∧ c ≠ quote ∧ c ≠ '\n' ∧ c ≠ '\r'

instance (quote c : Char) : Decidable (Raw quote c) := inferInstanceAs (Decidable (_ ∧ _))

theorem stringRaw?_raw {c : Char} (h : Raw quote c) (t : Text) :
    stringRaw? quote n (c :: t) =
      (stringRaw? quote (n + c.utf8Size) t).map fun (s, k) => (c :: s, k) := by
  obtain ⟨hesc, hq, hlf, hcr⟩ := h
  rw [stringRaw?]
  · simp [hq, hlf, hcr]
  · simp [hesc]
  · simp [hesc]

theorem stringRaw?_escape {c : Char} (hcr : c ≠ '\r') (t : Text) :
    stringRaw? quote n ('\\' :: c :: t) =
      (stringRaw? quote (n + 1 + c.utf8Size) t).map fun (s, k) => ('\\' :: c :: s, k) := by
  rw [stringRaw?]
  simp [hcr]

theorem raw_digitChar :
    ∀ d < 16, Raw '"' (Nat.digitChar d) ∧ Raw '\'' (Nat.digitChar d) := by
  decide

theorem raw_hexPair (hq : quote = '"' ∨ quote = '\'') {m : Nat} (hm : m < 0x100) :
    ∀ c ∈ hexPair m, Raw quote c := by
  have hdigit : ∀ d < 16, Raw quote (Nat.digitChar d) := by
    intro d hd
    rcases hq with rfl | rfl
    · exact (raw_digitChar d hd).1
    · exact (raw_digitChar d hd).2
  simp [hexPair, hdigit (m / 16) (by omega), hdigit (m % 16) (by omega)]

theorem hexNumber?_hexPair : ∀ m < 0x80, Json.hexNumber? (hexPair m) = some m := by
  decide +kernel

theorem decode?_hex {a b : Char} {m : Nat} (h : Json.hexNumber? [a, b] = some m) (t : Text) :
    Escape.decode? none ('\\' :: 'x' :: a :: b :: t) =
      (Escape.decode? none t).map (m :: ·) := by
  simp [Escape.decode?, h]

theorem decode?_unicode {a b c d : Char} {m : Nat} (ha : a ≠ '\x7b')
    (h : Json.hexNumber? [a, b, c, d] = some m) (t : Text) :
    Escape.decode? none ('\\' :: 'u' :: a :: b :: c :: d :: t) =
      (Escape.decode? none t).map (m :: ·) := by
  simp [Escape.decode?, h]

theorem stringRaw?_raw_append {u : Text} (h : ∀ c ∈ u, Raw quote c) (t : Text) :
    stringRaw? quote n (u ++ t) =
      (stringRaw? quote (n + size u) t).map fun (s, k) => (u ++ s, k) := by
  induction u generalizing n with
  | nil => cases h' : stringRaw? quote n t <;> simp [h']
  | cons c u ih =>
    obtain ⟨hc, hu⟩ := List.forall_mem_cons.mp h
    rw [List.cons_append, stringRaw?_raw hc, ih hu, size_cons, ← Nat.add_assoc]
    cases stringRaw? quote (n + c.utf8Size + size u) t <;> rfl

/-- A character stands for itself, or it is written as an escape that stands for it. -/
theorem stringChar_cases (hq : quote = '"' ∨ quote = '\'') (c : Char) :
    (stringChar quote c = [c] ∧ Raw quote c) ∨
    ∃ d u, stringChar quote c = '\\' :: d :: u ∧ d ≠ '\r' ∧ (∀ c ∈ u, Raw quote c) ∧
      ∀ t, Escape.decode? none ('\\' :: d :: u ++ t) =
        (Escape.decode? none t).map (c.toNat :: ·) := by
  have hdigits : ∀ m < 0x100, ∀ c ∈ hexPair 0x20 ++ hexPair m, Raw quote c := fun m hm =>
    List.forall_mem_append.mpr ⟨raw_hexPair hq (by decide), raw_hexPair hq hm⟩
  unfold stringChar
  split_ifs with hesc hlf hcr hls hps hquote hcontrol
  · subst hesc
    exact Or.inr ⟨'\\', [], rfl, by decide, by simp, fun t => by
      simp [Escape.decode?, Escape.isOctal, Escape.single]⟩
  · subst hlf
    exact Or.inr ⟨'n', [], rfl, by decide, by simp, fun t => by
      simp [Escape.decode?, Escape.isOctal, Escape.single]⟩
  · subst hcr
    exact Or.inr ⟨'r', [], rfl, by decide, by simp, fun t => by
      simp [Escape.decode?, Escape.isOctal, Escape.single]⟩
  · subst hls
    exact Or.inr ⟨'u', hexPair 0x20 ++ hexPair 0x28, rfl, by decide, hdigits 0x28 (by decide),
      decode?_unicode (by decide) rfl⟩
  · subst hps
    exact Or.inr ⟨'u', hexPair 0x20 ++ hexPair 0x29, rfl, by decide, hdigits 0x29 (by decide),
      decode?_unicode (by decide) rfl⟩
  · subst hquote
    refine Or.inr ⟨c, [], rfl, hcr, by simp, fun t => ?_⟩
    rcases hq with rfl | rfl <;> simp [Escape.decode?, Escape.isOctal, Escape.single]
  · have hsmall : c.toNat < 0x80 := by omega
    exact Or.inr ⟨'x', hexPair c.toNat, rfl, by decide, raw_hexPair hq (by omega),
      decode?_hex (hexNumber?_hexPair c.toNat hsmall)⟩
  · exact Or.inl ⟨rfl, hesc, hquote, hlf, hcr⟩

/-- What is written for a character is read as it is written. -/
theorem stringRaw?_stringChar (hq : quote = '"' ∨ quote = '\'') (c : Char) (t : Text) :
    stringRaw? quote n (stringChar quote c ++ t) =
      (stringRaw? quote (n + size (stringChar quote c)) t).map fun (s, k) =>
        (stringChar quote c ++ s, k) := by
  rcases stringChar_cases hq c with ⟨hc, hraw⟩ | ⟨d, u, hc, hd, hu, -⟩
  · rw [hc]
    exact stringRaw?_raw_append (by simpa using hraw) t
  · have hsize : n + size ('\\' :: d :: u) = n + 1 + d.utf8Size + size u := by
      rw [size_cons, size_cons, show '\\'.utf8Size = 1 from rfl]
      omega
    rw [hc, List.cons_append, List.cons_append, stringRaw?_escape hd, stringRaw?_raw_append hu,
      hsize]
    cases stringRaw? quote (n + 1 + d.utf8Size + size u) t <;> rfl

theorem stringRaw?_flatMap_stringChar (hq : quote = '"' ∨ quote = '\'') (text rest : Text) :
    stringRaw? quote n (text.flatMap (stringChar quote) ++ quote :: rest) =
      some (text.flatMap (stringChar quote),
        ⟨n + size (text.flatMap (stringChar quote)) + 1, rest⟩) := by
  induction text generalizing n with
  | nil => simp [stringRaw?_quote hq]
  | cons c text ih =>
    rw [List.flatMap_cons, List.append_assoc, stringRaw?_stringChar hq, ih]
    simp [Nat.add_assoc]

theorem decode?_stringChar (hq : quote = '"' ∨ quote = '\'') (c : Char) (t : Text) :
    Escape.decode? none (stringChar quote c ++ t) =
      (Escape.decode? none t).map (c.toNat :: ·) := by
  rcases stringChar_cases hq c with ⟨hc, hraw⟩ | ⟨d, u, hc, -, -, hdecode⟩
  · rw [hc, List.singleton_append, Escape.decode?.eq_def]
    simp [hraw.1]
  · rw [hc]
    exact hdecode t

theorem decode?_flatMap_stringChar (hq : quote = '"' ∨ quote = '\'') (text : Text) :
    Escape.decode? none (text.flatMap (stringChar quote)) = some (text.map Char.toNat) := by
  induction text with
  | nil => simp [Escape.decode?]
  | cons c text ih => rw [List.flatMap_cons, decode?_stringChar hq, ih]; rfl

theorem text?_map_toNat (text : Text) : Escape.text? (text.map Char.toNat) = some text := by
  induction text with
  | nil => rfl
  | cons c text ih =>
    have hvalid : c.toNat < 0xD800 ∨ 0xDFFF < c.toNat := by
      rcases c.valid with h | h
      · exact Or.inl h
      · exact Or.inr h.1
    have hhigh : Json.isHighSurrogate c.toNat = false := by
      simp [Json.isHighSurrogate]; omega
    have hlow : Json.isLowSurrogate c.toNat = false := by
      simp [Json.isLowSurrogate]; omega
    rw [List.map_cons, Escape.text?.eq_def]
    simp [hhigh, hlow, ih]

/-- A text rendered as a string is read back, whatever follows it. -/
theorem tokenAt_render_string (hq : quote = '"' ∨ quote = '\'') (text rest : Text) :
    tokenAt n ((LiteralStyle.string quote).render text ++ rest) =
      (.string (some text),
        ⟨n + 1 + size (text.flatMap (stringChar quote)) + 1, rest⟩) := by
  have hraw := stringRaw?_flatMap_stringChar hq text rest (n := n + 1)
  have hopen : (quote = '"' || quote = '\'') = true := by simpa using hq
  simp only [LiteralStyle.render, List.cons_append, List.append_assoc, List.nil_append, tokenAt,
    hopen, hraw, decode?_flatMap_stringChar hq, text?_map_toNat, if_true]

/-- A string that is closed is read the same whatever follows it. -/
theorem stringRaw?_append (hq : quote = '"' ∨ quote = '\'') {t raw u : Text} {m : Nat}
    (rest : Text) (h : stringRaw? quote n t = some (raw, ⟨m, u⟩)) :
    stringRaw? quote n (t ++ rest) = some (raw, ⟨m, u ++ rest⟩) := by
  -- In each step that reads on, something is left to read, since the string is closed later.
  have hopen : ∀ {n raw u m}, stringRaw? quote n [] ≠ some (raw, ⟨m, u⟩) := by
    simp [stringRaw?]
  fun_induction stringRaw? quote n t generalizing raw with
  | case1 => cases h
  | case2 n t ih =>
    obtain ⟨⟨raw', k⟩, hraw, heq⟩ := Option.map_eq_some_iff.mp h
    cases heq
    simp [stringRaw?, ih hraw]
  | case3 n c t hline ih =>
    obtain ⟨⟨raw', k⟩, hraw, heq⟩ := Option.map_eq_some_iff.mp h
    cases heq
    rw [List.cons_append, List.cons_append, stringRaw?, ih hraw]
    · rfl
    · rintro v rfl hlf
      cases t with
      | nil => exact hopen hraw
      | cons d t => exact hline t rfl (by simpa using (List.cons.inj hlf).1)
  | case4 n t =>
    cases h
    exact stringRaw?_quote hq _
  | case5 => cases h
  | case6 n c t _ hesc hquote hend ih =>
    obtain ⟨⟨raw', k⟩, hraw, heq⟩ := Option.map_eq_some_iff.mp h
    cases heq
    have hc : c ≠ '\\' := by
      rintro rfl
      cases t with
      | nil => exact hopen hraw
      | cons d t => exact hesc d t rfl rfl
    have hends : c ≠ '\n' ∧ c ≠ '\r' := by simpa using hend
    rw [List.cons_append, stringRaw?_raw ⟨hc, hquote, hends⟩, ih hraw]
    rfl

theorem tokenAt_string_append {t : Text} {value : Option Text} (rest : Text)
    (h : (tokenAt n t).1 = .string value) : (tokenAt n (t ++ rest)).1 = .string value := by
  cases t with
  | nil => cases h
  | cons c t =>
    by_cases hq : c = '"' ∨ c = '\''
    · have hopen : (c = '"' || c = '\'') = true := by simpa using hq
      simp only [tokenAt, hopen, if_true] at h
      simp only [List.cons_append, tokenAt, hopen, if_true]
      split at h
      · cases h
      · rename_i raw k hraw
        split at h
        · cases h
        · rename_i codes hcodes
          simpa [stringRaw?_append hq rest hraw, hcodes] using h
    · -- No other token is a string.
      have hopen : (c = '"' || c = '\'') = false := by simpa using hq
      simp only [tokenAt, hopen, Bool.false_eq_true, if_false] at h
      repeat' split at h
      all_goals cases h

end Markup
end ClassScope
