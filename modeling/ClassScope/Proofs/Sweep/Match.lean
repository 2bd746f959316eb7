import Mathlib.Data.List.Basic
import Mathlib.Data.List.TakeWhile
import ClassScope.Sweep

/-! What the finders of a sweep match, said of the text and not of the way it is read. -/
namespace ClassScope

namespace Text

theorem span_eq_iff {p : Char → Bool} {t a r : Text} {d : Char} :
    t.takeWhile p = a ∧ t.dropWhile p = d :: r ↔
      t = a ++ d :: r ∧ (∀ c ∈ a, p c = true) ∧ p d = false := by
  constructor
  · rintro ⟨rfl, hdrop⟩
    refine ⟨?_, fun c hc => List.mem_takeWhile_imp hc, ?_⟩
    · rw [← hdrop, List.takeWhile_append_dropWhile]
    · have hhead := List.head?_dropWhile_not p t
      rw [hdrop] at hhead
      simpa using hhead
  · rintro ⟨rfl, ha, hd⟩
    simp [List.takeWhile_append_of_pos ha, List.dropWhile_append_of_pos ha, hd]

theorem upTo_eq_iff {t a r : Text} {d e : Char} :
    t.takeWhile (· ≠ d) = a ∧ t.dropWhile (· ≠ d) = e :: r ↔
      e = d ∧ t = a ++ d :: r ∧ d ∉ a := by
  rw [span_eq_iff]
  constructor
  · rintro ⟨rfl, ha, he⟩
    obtain rfl : e = d := by simpa using he
    exact ⟨rfl, rfl, fun hd => by simpa using ha e hd⟩
  · rintro ⟨rfl, rfl, ha⟩
    refine ⟨rfl, fun c hc => ?_, by simp⟩
    rw [decide_eq_true_eq]
    rintro rfl
    exact ha hc

theorem forall_eq_false_of_any {p : Char → Bool} {t : Text} (h : t.any p = false) :
    ∀ c ∈ t, p c = false :=
  fun c hc => Bool.eq_false_iff.mpr (List.any_eq_false.mp h c hc)

end Text

namespace Sweep
open Text

def StartsName (name : Text) (before : Option Char) : Prop :=
  ∃ c, name.head? = some c ∧ isWordStart before c = true

theorem nameAt?_eq_some_iff {name t rest : Text} {before : Option Char} :
    nameAt? name before t = some rest ↔ StartsName name before ∧ t = name ++ rest := by
  cases name with
  | nil => simp [nameAt?, StartsName]
  | cons c name =>
    simp only [nameAt?, StartsName, List.head?_cons, Option.some.injEq, exists_eq_left']
    split
    · rename_i hstart
      rw [List.isPrefixOf?_eq_some_iff_append_eq]
      simp [hstart, eq_comm]
    · rename_i hstart
      simp [hstart]

/-- A call is matched up to its first closing bracket, and not without something in it. -/
theorem joinCall_eq_some_iff {name t arguments text rest : Text} {before : Option Char} :
    joinCall name before t = some (arguments, text, rest) ↔
      StartsName name before ∧ t = text ++ rest ∧ text = name ++ '(' :: arguments ++ [')'] ∧
        arguments ≠ [] ∧ ')' ∉ arguments := by
  constructor
  · intro h
    unfold joinCall at h
    split at h
    · rename_i inside hname
      obtain ⟨hstart, rfl⟩ := nameAt?_eq_some_iff.mp hname
      split at h
      · rename_i d after hdrop
        dsimp only at h
        split at h
        · cases h
        · rename_i hne
          cases h
          obtain ⟨rfl, htext, hmem⟩ := upTo_eq_iff.mp ⟨rfl, hdrop⟩
          refine ⟨hstart, ?_, rfl, by simpa using hne, hmem⟩
          conv_lhs => rw [htext]
          simp
      · cases h
    · cases h
  · rintro ⟨hstart, rfl, rfl, hne, hmem⟩
    obtain ⟨htake, hdrop⟩ := upTo_eq_iff.mpr ⟨rfl, (rfl : arguments ++ ')' :: rest = _), hmem⟩
    have hname : nameAt? name before (name ++ '(' :: arguments ++ [')'] ++ rest) =
        some ('(' :: (arguments ++ ')' :: rest)) :=
      nameAt?_eq_some_iff.mpr ⟨hstart, by simp⟩
    simp only [joinCall, hname, htake, hdrop]
    simp [hne]

/-- What separates an attribute from its value: an equals sign or a colon, and blanks. -/
def IsSeparator (t : Text) : Prop :=
  ∃ lead mark trail, t = lead ++ mark :: trail ∧ (mark = ':' ∨ mark = '=') ∧
    (∀ c ∈ lead, isBlank c = true) ∧ ∀ c ∈ trail, isBlank c = true

theorem plainQuoted?_eq_some_iff {t inner rest : Text} {quote : Char} :
    plainQuoted? t = some (quote, inner, rest) ↔
      (quote = '"' ∨ quote = '\'') ∧ t = quote :: (inner ++ quote :: rest) ∧ quote ∉ inner := by
  constructor
  · intro h
    unfold plainQuoted? at h
    split at h
    · rename_i q t
      split_ifs at h with hq
      split at h
      · rename_i d after hdrop
        cases h
        obtain ⟨rfl, htext, hmem⟩ := upTo_eq_iff.mp ⟨rfl, hdrop⟩
        exact ⟨hq, congrArg (_ :: ·) htext, hmem⟩
      · cases h
    · cases h
  · rintro ⟨hq, rfl, hmem⟩
    obtain ⟨htake, hdrop⟩ := upTo_eq_iff.mpr ⟨rfl, (rfl : inner ++ quote :: rest = _), hmem⟩
    simp only [plainQuoted?, if_pos hq, htake, hdrop]

theorem assigned_eq_some_iff {name t text rest : Text} {before : Option Char} {a : Assigned} :
    assigned name before t = some (a, text, rest) ↔
      StartsName name before ∧ t = text ++ rest ∧
        text = name ++ a.separator ++ a.quote :: a.inner ++ [a.quote] ∧
        IsSeparator a.separator ∧ (a.quote = '"' ∨ a.quote = '\'') ∧ a.quote ∉ a.inner := by
  constructor
  · intro h
    unfold assigned at h
    split at h
    · cases h
    · rename_i value hname
      obtain ⟨hstart, rfl⟩ := nameAt?_eq_some_iff.mp hname
      dsimp only at h
      split at h
      · rename_i mark value' hmark
        obtain ⟨hvalue, hlead, -⟩ := span_eq_iff.mp ⟨rfl, hmark⟩
        split at h
        · rename_i hsep
          split at h
          · rename_i q inner after hquoted
            cases h
            obtain ⟨hq, htext, hmem⟩ := plainQuoted?_eq_some_iff.mp hquoted
            refine ⟨hstart, ?_, rfl, ⟨_, mark, _, rfl, hsep, hlead, ?_⟩, hq, hmem⟩
            · have hrest := List.takeWhile_append_dropWhile (p := isBlank) (l := value')
              rw [htext] at hrest
              conv_lhs => rw [hvalue, ← hrest]
              simp
            · exact fun c hc => List.mem_takeWhile_imp hc
          · cases h
        · cases h
      · cases h
  · rintro ⟨hstart, rfl, rfl, ⟨lead, mark, trail, hsep, hmark, hlead, htrail⟩, hq, hmem⟩
    obtain ⟨separator, quote, inner⟩ := a
    dsimp only at hsep hq hmem ⊢
    subst hsep
    have hname : nameAt? name before
        (name ++ (lead ++ mark :: trail) ++ quote :: inner ++ [quote] ++ rest) =
        some (lead ++ mark :: (trail ++ quote :: (inner ++ quote :: rest))) :=
      nameAt?_eq_some_iff.mpr ⟨hstart, by simp⟩
    have hmark' : isBlank mark = false := by rcases hmark with rfl | rfl <;> decide
    have hquote : isBlank quote = false := by rcases hq with rfl | rfl <;> decide
    obtain ⟨htake, hdrop⟩ := span_eq_iff.mpr
      ⟨(rfl : lead ++ mark :: (trail ++ quote :: (inner ++ quote :: rest)) = _), hlead, hmark'⟩
    obtain ⟨htake', hdrop'⟩ := span_eq_iff.mpr
      ⟨(rfl : trail ++ quote :: (inner ++ quote :: rest) = _), htrail, hquote⟩
    have hvalue := plainQuoted?_eq_some_iff.mpr
      ⟨hq, (rfl : quote :: (inner ++ quote :: rest) = _), hmem⟩
    simp only [assigned, hname, htake, hdrop, htake', hdrop', if_pos hmark, hvalue]

theorem eq_of_quotedBody? {quote : Char} {t inner rest : Text}
    (h : quotedBody? quote t = some (inner, rest)) : t = inner ++ quote :: rest := by
  fun_induction quotedBody? quote t generalizing inner with
  | case1 => cases h
  | case2 => cases h
  | case3 c t _ ih =>
    obtain ⟨⟨inner', _⟩, hbody, heq⟩ := Option.map_eq_some_iff.mp h
    cases heq
    simp [ih hbody]
  | case4 =>
    cases h
    rfl
  | case5 => cases h
  | case6 c t _ _ _ ih =>
    obtain ⟨⟨inner', _⟩, hbody, heq⟩ := Option.map_eq_some_iff.mp h
    cases heq
    simp [ih hbody]

theorem quotedBody?_of_not_mem {quote : Char} {inner : Text} (hesc : '\\' ∉ inner)
    (hquote : quote ∉ inner) (hq : quote ≠ '\\') (rest : Text) :
    quotedBody? quote (inner ++ quote :: rest) = some (inner, rest) := by
  induction inner with
  | nil => simp [quotedBody?, hq]
  | cons c inner ih =>
    have hc : c ≠ '\\' ∧ c ≠ quote := ⟨fun h => hesc (by simp [h]), fun h => hquote (by simp [h])⟩
    have hrest := ih (fun h => hesc (by simp [h])) (fun h => hquote (by simp [h]))
    simp [quotedBody?, hc, hrest]

theorem quoted_eq_some {before : Option Char} {t text rest : Text} {string : Char × Text}
    (h : quoted before t = some (string, text, rest)) :
    t = text ++ rest ∧ text = string.1 :: string.2 ++ [string.1] := by
  cases t with
  | nil => cases h
  | cons q t =>
    rw [quoted] at h
    split_ifs at h with hq
    obtain ⟨⟨inner, _⟩, hbody, heq⟩ := Option.map_eq_some_iff.mp h
    cases heq
    simp [eq_of_quotedBody? hbody]

end Sweep
end ClassScope
