import ClassScope.Proofs.Settings.Layer
import ClassScope.Settings.Options

/-! Options documents as layers. A reader that takes settings along replaces some of them by what it
reads. Which ones and by what depends on the document alone, so a document has one layer that can
be put over any settings, and reading it into the defaults is one case of that. -/
namespace ClassScope.Settings

/-- A document read into settings of one's own. -/
def documentOver? (s : Settings) : Text → Option (Settings × Text)
  | '\x7b' :: t =>
    match Json.skipBlanks t with
    | '\x7d' :: t => some (s, t)
    | t => members? Slot.all.length Slot.all s t
  | '[' :: t =>
    match Json.skipBlanks t with
    | ']' :: t => some (s, t)
    | t => elements? Slot.all s t
  | _ => none

def readOver? (s : Settings) (t : Text) : Option Settings :=
  match documentOver? s (Json.skipBlanks t) with
  | some (s, rest) => if (Json.skipBlanks rest).isEmpty then some s else none
  | none => none

theorem ofOptions?_eq_readOver? (t : Text) : ofOptions? t = readOver? defaults t := rfl

/-- The layer says what the document says: read into any settings, the document replaces those that
the layer speaks of and keeps the others. -/
def Says (t : Text) (l : Layer) : Prop := ∀ s, readOver? s t = some (l.cover s)

theorem Says.unique {t : Text} {l k : Layer} (hl : Says t l) (hk : Says t k) : l = k :=
  Layer.ext_cover fun s => Option.some.inj ((hl s).symm.trans (hk s))

/-- The reader fails for all settings, or puts one layer over them and leaves one rest. -/
def IsLayered (f : Settings → Option (Settings × Text)) : Prop :=
  (∀ s, f s = none) ∨ ∃ (l : Layer) (rest : Text), ∀ s, f s = some (l.cover s, rest)

namespace IsLayered

theorem fails : IsLayered fun _ => none := .inl fun _ => rfl

theorem silent (rest : Text) : IsLayered fun s => some (s, rest) := .inr ⟨{}, rest, fun _ => rfl⟩

theorem congr {f g : Settings → Option (Settings × Text)} (hf : IsLayered f)
    (h : ∀ s, g s = f s) : IsLayered g := by
  rwa [show g = f from funext h]

theorem ofValue {α : Type} (value? : Option (α × Text)) (layer : α → Layer) :
    IsLayered fun s => value?.map fun (v, rest) => ((layer v).cover s, rest) := by
  cases value? with
  | none => exact .inl fun s => rfl
  | some r => exact .inr ⟨layer r.1, r.2, fun s => rfl⟩

/-- One reader after another. -/
theorem bind {f : Settings → Option (Settings × Text)}
    {g : Settings → Text → Option (Settings × Text)} (hf : IsLayered f)
    (hg : ∀ rest, IsLayered fun s => g s rest) :
    IsLayered fun s => (f s).bind fun (s, rest) => g s rest := by
  rcases hf with hnone | ⟨l, rest, hf⟩
  · exact .inl fun s => by simp only [hnone, Option.bind_none]
  · rcases hg rest with hnone | ⟨k, rest', hk⟩
    · exact .inl fun s => by simpa only [hf, Option.bind_some] using hnone (l.cover s)
    · refine .inr ⟨k.onto l, rest', fun s => ?_⟩
      simpa only [hf, Option.bind_some, Layer.cover_onto] using hk (l.cover s)

end IsLayered

theorem isLayered_read? (slot : Slot) (t : Text) : IsLayered fun s => slot.read? s t := by
  cases slot with
  | scope => exact .ofValue (Json.string? t) fun v => { scope := some v }
  | debugging => exact .ofValue (Json.bool? t) fun v => { debugging := some v }
  | attributeName => exact .ofValue (Json.string? t) fun v => { attributeName := some v }
  | joinName => exact .ofValue (Json.string? t) fun v => { joinName := some v }

theorem member?_cases (free : List Slot) (t : Text) :
    (∀ s, member? free s t = none) ∨ ∃ (slot : Slot) (l : Layer) (rest : Text),
      ∀ s, member? free s t = some (slot, l.cover s, rest) := by
  cases hkey : Json.string? t with
  | none => exact .inl fun s => by simp [member?, hkey]
  | some key =>
    cases hslot : free.find? fun slot => slot.key.toList == key.1 with
    | none => exact .inl fun s => by simp [member?, hkey, hslot]
    | some slot =>
      cases hcolon : Json.skipBlanks key.2 with
      | nil => exact .inl fun s => by simp [member?, hkey, hslot, hcolon]
      | cons c t =>
        by_cases hc : c = ':'
        · subst hc
          rcases isLayered_read? slot (Json.skipBlanks t) with hnone | ⟨l, rest, hread⟩
          · exact .inl fun s => by simp [member?, hkey, hslot, hcolon, hnone]
          · exact .inr ⟨slot, l, rest, fun s => by simp [member?, hkey, hslot, hcolon, hread]⟩
        · exact .inl fun s => by simp [member?, hkey, hslot, hcolon, hc]

/-- Behind an entry stands a comma and what comes next, or the end. -/
def follow? (close : Char) (next? : Settings → Text → Option (Settings × Text)) (s : Settings)
    (t : Text) : Option (Settings × Text) :=
  match Json.skipBlanks t with
  | [] => none
  | c :: t =>
    if c = ',' then next? s (Json.skipBlanks t) else if c = close then some (s, t) else none

theorem members?_succ (n : Nat) (free : List Slot) (s : Settings) (t : Text) :
    members? (n + 1) free s t = (member? free s t).bind fun (slot, s, t) =>
      follow? '\x7d' (members? n (free.erase slot)) s t := by
  rw [members?]
  cases member? free s t with
  | none => rfl
  | some r =>
    cases hrest : Json.skipBlanks r.2.2 with
    | nil => simp [follow?, hrest]
    | cons c u =>
      by_cases hcomma : c = ','
      · simp [follow?, hrest, hcomma]
      · by_cases hclose : c = '\x7d' <;> simp [follow?, hrest, hcomma, hclose]

theorem elements?_cons (slot : Slot) (free : List Slot) (s : Settings) (t : Text) :
    elements? (slot :: free) s t = (slot.read? s t).bind fun (s, t) =>
      follow? ']' (elements? free) s t := by
  rw [elements?]
  cases slot.read? s t with
  | none => rfl
  | some r =>
    cases hrest : Json.skipBlanks r.2 with
    | nil => simp [follow?, hrest]
    | cons c u =>
      by_cases hcomma : c = ','
      · simp [follow?, hrest, hcomma]
      · by_cases hclose : c = ']' <;> simp [follow?, hrest, hcomma, hclose]

theorem isLayered_follow? (close : Char) {next? : Settings → Text → Option (Settings × Text)}
    (hnext : ∀ t, IsLayered fun s => next? s t) (t : Text) :
    IsLayered fun s => follow? close next? s t := by
  unfold follow?
  cases Json.skipBlanks t with
  | nil => exact .fails
  | cons c u =>
    by_cases hcomma : c = ','
    · simpa only [if_pos hcomma] using hnext (Json.skipBlanks u)
    · by_cases hclose : c = close
      · simpa only [if_neg hcomma, if_pos hclose] using .silent u
      · simpa only [if_neg hcomma, if_neg hclose] using .fails

theorem isLayered_members? (n : Nat) (free : List Slot) (t : Text) :
    IsLayered fun s => members? n free s t := by
  induction n generalizing free t with
  | zero => exact .fails
  | succ n ih =>
    rcases member?_cases free t with hnone | ⟨slot, l, rest, hmember⟩
    · exact .inl fun s => by simp [members?_succ, hnone]
    · have hread : IsLayered fun s => some (l.cover s, rest) := .inr ⟨l, rest, fun _ => rfl⟩
      have hfollow := isLayered_follow? '\x7d' (ih (free.erase slot))
      exact (hread.bind hfollow).congr fun s => by rw [members?_succ, hmember]; rfl

theorem isLayered_elements? (free : List Slot) (t : Text) :
    IsLayered fun s => elements? free s t := by
  induction free generalizing t with
  | nil => exact .fails
  | cons slot free ih =>
    have hfollow := isLayered_follow? ']' ih
    exact ((isLayered_read? slot t).bind hfollow).congr fun s => elements?_cons slot free s t

theorem isLayered_documentOver? (t : Text) : IsLayered fun s => documentOver? s t := by
  unfold documentOver?
  split
  · split
    · exact .silent _
    · exact isLayered_members? _ _ _
  · split
    · exact .silent _
    · exact isLayered_elements? _ _
  · exact .fails

theorem exists_says {t : Text} {s s' : Settings} (h : readOver? s t = some s') :
    ∃ l, Says t l ∧ s' = l.cover s := by
  rcases isLayered_documentOver? (Json.skipBlanks t) with hnone | ⟨l, rest, hread⟩
  · simp [readOver?, hnone] at h
  · by_cases hrest : (Json.skipBlanks rest).isEmpty = true
    · have hsaid : Says t l := fun s => by simp only [readOver?, hread, if_pos hrest]
      exact ⟨l, hsaid, Option.some.inj (h.symm.trans (hsaid s))⟩
    · simp [readOver?, hread, hrest] at h

end ClassScope.Settings
