import ClassScope.ClassValue.Qualify
import ClassScope.Markup.Grammar.Elements
import ClassScope.Proofs.ClassList

/-! Qualified literals end where they are written to end. A scope that passes the check puts no
quote into an attribute value, and nothing into a segment of a template that a reader would take
for an escape, for the end of the template or for an interpolation. -/
namespace ClassScope

namespace Text

theorem pair_infix_append {a b : Char} {s t : Text} (h : [a, b] <:+: s ++ t) :
    [a, b] <:+: s ∨ [a, b] <:+: t ∨ s.getLast? = some a ∧ t.head? = some b := by
  induction s with
  | nil => exact Or.inr (Or.inl h)
  | cons c s ih =>
    rcases List.infix_cons_iff.mp h with hp | hi
    · obtain ⟨rfl, hb⟩ := List.cons_prefix_cons.mp hp
      cases s with
      | nil =>
        obtain ⟨r, rfl⟩ : [b] <+: t := hb
        exact Or.inr (Or.inr ⟨rfl, rfl⟩)
      | cons d s =>
        obtain ⟨rfl, -⟩ := List.cons_prefix_cons.mp hb
        exact Or.inl ⟨[], s, rfl⟩
    · rcases ih hi with h | h | ⟨hl, hh⟩
      · exact Or.inl (h.trans (List.infix_cons (List.infix_refl s)))
      · exact Or.inr (Or.inl h)
      · refine Or.inr (Or.inr ⟨?_, hh⟩)
        cases s with
        | nil => simp at hl
        | cons d s => rw [List.getLast?_cons_cons, hl]

/-- A text that a template can hold as it is written. -/
structure Plain (t : Text) : Prop where
  no_escape : '\\' ∉ t
  no_backtick : '\x60' ∉ t
  no_opening : ¬ ['$', '\x7b'] <:+: t

theorem Plain.nil : Plain [] := ⟨by simp, by simp, by simp⟩

theorem Plain.of_infix {s t : Text} (ht : Plain t) (h : s <:+: t) : Plain s where
  no_escape hs := ht.no_escape (h.subset hs)
  no_backtick hs := ht.no_backtick (h.subset hs)
  no_opening hs := ht.no_opening (hs.trans h)

theorem Plain.tail {c : Char} {t : Text} (h : Plain (c :: t)) : Plain t :=
  h.of_infix (List.infix_cons (List.infix_refl t))

theorem Plain.append {s t : Text} (hs : Plain s) (ht : Plain t) (hd : s.getLast? ≠ some '$') :
    Plain (s ++ t) where
  no_escape h := (List.mem_append.mp h).elim hs.no_escape ht.no_escape
  no_backtick h := (List.mem_append.mp h).elim hs.no_backtick ht.no_backtick
  no_opening h := by
    rcases pair_infix_append h with h | h | ⟨h, -⟩
    · exact hs.no_opening h
    · exact ht.no_opening h
    · exact hd h

theorem Plain.append_of_head {s t : Text} (hs : Plain s) (ht : Plain t)
    (hb : t.head? ≠ some '\x7b') : Plain (s ++ t) where
  no_escape h := (List.mem_append.mp h).elim hs.no_escape ht.no_escape
  no_backtick h := (List.mem_append.mp h).elim hs.no_backtick ht.no_backtick
  no_opening h := by
    rcases pair_infix_append h with h | h | ⟨-, h⟩
    · exact hs.no_opening h
    · exact ht.no_opening h
    · exact hb h

theorem Plain.space : Plain [' '] :=
  ⟨by decide, by decide, fun h => absurd (List.IsInfix.length_le h) (by decide)⟩

theorem Plain.join {ws : List Text} (h : ∀ w ∈ ws, Plain w) : Plain (Text.join [' '] ws) := by
  induction ws with
  | nil => exact Plain.nil
  | cons w ws ih =>
    have hw := h w List.mem_cons_self
    cases ws with
    | nil => exact hw
    | cons v vs =>
      have hrest := ih fun u hu => h u (List.mem_cons_of_mem _ hu)
      rw [join_cons_cons, List.append_assoc]
      exact hw.append_of_head (Plain.space.append hrest (by decide)) (by simp)

/-- The characters of a joined list come from its members or stand between. -/
theorem mem_join_space {ws : List Text} {c : Char} (h : c ∈ join [' '] ws) :
    (∃ w ∈ ws, c ∈ w) ∨ c = ' ' := by
  induction ws with
  | nil => simp [join] at h
  | cons w ws ih =>
    cases ws with
    | nil => exact .inl ⟨w, by simp, h⟩
    | cons v vs =>
      rw [join_cons_cons] at h
      simp only [List.mem_append, List.mem_singleton] at h
      rcases h with (hc | hc) | hc
      · exact .inl ⟨w, by simp, hc⟩
      · exact .inr hc
      · rcases ih hc with ⟨u, hu, hc⟩ | hc
        · exact .inl ⟨u, List.mem_cons_of_mem _ hu, hc⟩
        · exact .inr hc

end Text

namespace ClassList
open Text

theorem mem_qualify {scope t : Text} {c : Char} (h : c ∈ qualify scope t) :
    c ∈ scope ∨ c ∈ t ∨ c = '-' ∨ c = ' ' := by
  rcases mem_join_space h with ⟨w, hw, hc⟩ | hc
  · obtain ⟨v, hv, rfl⟩ := List.mem_map.mp hw
    simp only [qualifyName, List.mem_append, List.mem_cons] at hc
    rcases hc with hc | hc | hc
    · exact Or.inl hc
    · exact Or.inr (Or.inr (Or.inl hc))
    · exact Or.inr (Or.inl ((infix_of_mem_words hv).subset hc))
  · exact Or.inr (Or.inr (Or.inr hc))

variable {s : Settings}

theorem plain_scope (h : s.fault? = none) : Plain s.scope where
  no_escape := Settings.not_mem_scope_of_special h (by decide)
  no_backtick := Settings.not_mem_scope_of_special h (by decide)
  no_opening hin := Settings.not_mem_scope_of_special h (by decide : '$' ∈ Settings.special)
    (hin.subset (by simp))

theorem plain_qualify (h : s.fault? = none) {t : Text} (ht : Plain t) :
    Plain (qualify s.scope t) := by
  refine Plain.join ?_
  intro w hw
  obtain ⟨v, hv, rfl⟩ := List.mem_map.mp hw
  have hhyphen : Plain ['-'] :=
    ⟨by decide, by decide, fun hin => absurd (List.IsInfix.length_le hin) (by decide)⟩
  have hv' : Plain ('-' :: v) :=
    hhyphen.append (ht.of_infix (infix_of_mem_words hv)) (by decide)
  exact (plain_scope h).append_of_head hv' (by simp)

/-- Whatever stands around it, a segment stays one that a template can hold as it is written. -/
theorem plain_qualifySegment (h : s.fault? = none) (place : Place) {t : Text} (ht : Plain t) :
    Plain (qualifySegment s.scope place t) := by
  have hnames := plain_qualify h ht
  have hspace : ∀ b : Bool, Plain (if b = true then [' '] else []) := by
    intro b
    cases b
    · exact Plain.nil
    · exact Plain.space
  by_cases hw : words t = []
  · rw [qualifySegment_of_words_eq_nil hw]
    exact hspace _
  · rw [qualifySegment_of_words_ne_nil hw]
    refine Plain.append_of_head (Plain.append (hspace _) hnames ?_) (hspace _) ?_
    · split <;> simp
    · split <;> simp

end ClassList

namespace Markup
open Text

def SegmentEnd.text : SegmentEnd → Text
  | interpolation => ['$', '\x7b']
  | backtick => ['\x60']

def endsSegment : Text → Bool
  | '\x60' :: _ => true
  | '$' :: '\x7b' :: _ => true
  | _ => false

theorem endsSegment_text (e : SegmentEnd) (rest : Text) : endsSegment (e.text ++ rest) = true := by
  cases e <;> rfl

/-- Inside a plain text nothing ends a segment, unless a brace comes after it. -/
theorem not_endsSegment_append {c : Char} {t rest : Text} (h : Plain (c :: t))
    (hrest : rest.head? ≠ some '\x7b') : endsSegment (c :: t ++ rest) = false := by
  have hc : c ≠ '\x60' := fun he => h.no_backtick (by simp [he])
  by_cases hd : c = '$'
  · subst hd
    cases t with
    | nil =>
      cases rest with
      | nil => rfl
      | cons d rest =>
        have hb : d ≠ '\x7b' := fun he => hrest (by simp [he])
        simp [endsSegment, hb]
    | cons d t =>
      have hb : d ≠ '\x7b' := fun he => h.no_opening ⟨[], t, by simp [he]⟩
      simp [endsSegment, hb]
  · simp [endsSegment, hc, hd]

theorem head?_text_append (e : SegmentEnd) (rest : Text) :
    (e.text ++ rest).head? = some '$' ∨ (e.text ++ rest).head? = some '\x60' := by
  cases e <;> simp [SegmentEnd.text]

theorem not_endsSegment_of_plain {c : Char} {t : Text} (h : Plain (c :: t)) (e : SegmentEnd)
    (rest : Text) : endsSegment (c :: t ++ e.text ++ rest) = false := by
  rw [List.append_assoc]
  apply not_endsSegment_append h
  rcases head?_text_append e rest with hhead | hhead <;> simp [hhead]

theorem not_endsSegment_drop_of_plain {t : Text} (h : Plain t) (e : SegmentEnd) (rest : Text)
    {k : Nat} (hk : k < t.length) : endsSegment ((t ++ e.text ++ rest).drop k) = false := by
  induction t generalizing k with
  | nil => simp at hk
  | cons c t ih =>
    cases k with
    | zero => exact not_endsSegment_of_plain h e rest
    | succ k => exact ih h.tail (by simpa using hk)

/-- The reader of segments stops right after a plain text. -/
theorem segmentRaw?_of_plain {t : Text} (h : Plain t) (e : SegmentEnd) (rest : Text) (n : Nat) :
    segmentRaw? n (t ++ e.text ++ rest) =
      some (t, e, ⟨n + size t + size e.text, rest⟩) := by
  induction t generalizing n with
  | nil => cases e <;> rfl
  | cons c t ih =>
    have hesc : c ≠ '\\' := fun he => h.no_escape (by simp [he])
    have hend := not_endsSegment_of_plain h e rest
    have hread := ih h.tail (n + c.utf8Size)
    rw [List.cons_append, List.cons_append] at hend ⊢
    unfold segmentRaw?
    split
    · rename_i hnil
      cases hnil
    · rename_i heq
      exact absurd (List.cons.inj heq).1 hesc
    · rename_i heq
      rw [heq] at hend
      cases hend
    · rename_i d u _ _ heq
      obtain ⟨rfl, rfl⟩ := List.cons.inj heq
      have htick : c ≠ '\x60' := fun he => h.no_backtick (by simp [he])
      rw [if_neg htick, hread]
      simp [Nat.add_assoc]

theorem quoteEnd?_of_not_mem {quote : Char} {body : Text} (h : quote ∉ body) (rest : Text)
    (n : Nat) :
    Elements.quoteEnd? quote n (body ++ quote :: rest) =
      some ⟨n + size body + 1, rest⟩ := by
  induction body generalizing n with
  | nil => simp [Elements.quoteEnd?]
  | cons c body ih =>
    have hc : c ≠ quote := fun he => h (by simp [he])
    have hread := ih (fun hm => h (List.mem_cons_of_mem _ hm)) (n + c.utf8Size)
    rw [List.cons_append, Elements.quoteEnd?, if_neg hc, hread]
    simp [Nat.add_assoc]

end Markup

namespace ClassList
open Text Markup

theorem quote_not_mem_qualify {s : Settings} (h : s.fault? = none) {quote : Char} {t : Text}
    (hq : quote = '"' ∨ quote = '\'') (ht : quote ∉ t) : quote ∉ qualify s.scope t := by
  have hspecial : quote ∈ Settings.special := by rcases hq with rfl | rfl <;> decide
  intro hm
  rcases mem_qualify hm with hm | hm | hm | hm
  · exact Settings.not_mem_scope_of_special h hspecial hm
  · exact ht hm
  · rcases hq with rfl | rfl <;> cases hm
  · rcases hq with rfl | rfl <;> cases hm

/-- With settings that pass the check, a qualified attribute value has its quotes at its two ends
and nowhere else, and a qualified segment is plain again: whatever ends it in the source, its
end is the first one that a reader finds. -/
theorem qualified_literals_stay_enclosed {s : Settings} (h : s.fault? = none) :
    (∀ (quote : Char) (text : Text), quote = '"' ∨ quote = '\'' → quote ∉ text →
      ∃ body, (LiteralStyle.attr quote).render (qualify s.scope text) = quote :: body ++ [quote] ∧
        quote ∉ body ∧
        ∀ rest n, Elements.quoteEnd? quote n (body ++ quote :: rest) =
          some ⟨n + size body + 1, rest⟩) ∧
    (∀ (place : Place) (raw : Text), Plain raw →
      ∃ new, LiteralStyle.segment.render (qualifySegment s.scope place raw) = new ∧ Plain new ∧
        ∀ (e : SegmentEnd) (rest : Text),
          (∀ k < new.length, endsSegment ((new ++ e.text ++ rest).drop k) = false) ∧
          endsSegment ((new ++ e.text ++ rest).drop new.length) = true ∧
          ∀ n, segmentRaw? n (new ++ e.text ++ rest) =
            some (new, e, ⟨n + size new + size e.text, rest⟩)) := by
  constructor
  · intro quote text hq ht
    have hbody := quote_not_mem_qualify h hq ht
    exact ⟨qualify s.scope text, rfl, hbody, quoteEnd?_of_not_mem hbody⟩
  · intro place raw hraw
    have hnew := plain_qualifySegment h place hraw
    refine ⟨_, rfl, hnew, fun e rest => ⟨?_, ?_, segmentRaw?_of_plain hnew e rest⟩⟩
    · exact fun k hk => not_endsSegment_drop_of_plain hnew e rest hk
    · rw [List.append_assoc, List.drop_left]
      exact endsSegment_text e rest

theorem dollar_segment_stays_enclosed :
    Settings.defaults.fault? = none ∧ Plain " a $ \x7bb $".toList ∧
    ∃ new, LiteralStyle.segment.render
        (qualifySegment Settings.defaults.scope ⟨true, true⟩ " a $ \x7bb $".toList) = new ∧
      Plain new ∧
      ∀ (e : SegmentEnd) (rest : Text),
        (∀ k < new.length, endsSegment ((new ++ e.text ++ rest).drop k) = false) ∧
        endsSegment ((new ++ e.text ++ rest).drop new.length) = true ∧
        ∀ n, segmentRaw? n (new ++ e.text ++ rest) =
          some (new, e, ⟨n + size new + size e.text, rest⟩) := by
  have hplain : Plain " a $ \x7bb $".toList :=
    ⟨by decide +kernel, by decide +kernel, by decide +kernel⟩
  have hvalid : Settings.defaults.fault? = none := by decide +kernel
  exact ⟨hvalid, hplain, (qualified_literals_stay_enclosed hvalid).2 _ _ hplain⟩

end ClassList

end ClassScope
