import Mathlib.Data.List.Basic
import Mathlib.Data.List.Perm.Basic
import ClassScope.Proofs.Sweep.Strips

/-! When the two passes of a sweep can be told as one. The second pass reads what the first one
wrote, so a string may be changed twice, or be reported with a text that the source never had. It
is not, and every event has a stretch of the source to itself, exactly if no string of the second
pass reaches into a string that the first one changed. -/
namespace ClassScope.Sweep
open Text Strip

/-- Every event of a pass has a stretch of the text to itself: it holds the event's text before,
no two of them overlap, and the code is the text with each of them replaced. -/
def EachOnce (t : Text) (pass : Pass) : Prop :=
  ∃ edits : List Edit, edits.Pairwise (·.stop ≤ ·.start) ∧
    (edits.map fun e => (t.slice? e.start e.stop, e.replacement)).Perm
      (pass.events.map fun e => (some e.before, e.after)) ∧
    Edit.splice? t edits = some pass.code

/-- In the text between two passes no string that the first one changed shares a place with a
string that the second one changes. Empty strings stay empty and are in nobody's way. -/
def Apart (p q : List Strip) : Prop :=
  ∀ p₀ e p₁ q₀ f q₁, p = p₀ ++ changed e :: p₁ → q = q₀ ++ changed f :: q₁ →
    e.before ≠ [] → f.before ≠ [] →
    (target p₀).length + e.after.length ≤ (source q₀).length ∨
      (source q₀).length + f.before.length ≤ (target p₀).length

/-- What the second pass takes for the old text of a string stands at that place in the text before
the first pass. -/
def InPlace (p q : List Strip) : Prop :=
  ∀ q₀ f q₁, q = q₀ ++ changed f :: q₁ → f.before ≠ [] →
    ∃ a b c, p = a ++ b ++ c ∧ target a = source q₀ ∧ target b = f.before ∧ source b = f.before

/-- Both rows of strips at once. -/
inductive Overlay : List Strip → List Strip → List Strip → Prop
  | nil : Overlay [] [] []
  | kept {p q r : List Strip} (c : Char) (h : Overlay p q r) :
      Overlay (kept c :: p) (kept c :: q) (kept c :: r)
  | first {p q r : List Strip} (e : Event) (h : Overlay p q r) :
      Overlay (changed e :: p) (plain e.after ++ q) (changed e :: r)
  | second {p q r : List Strip} (f : Event) (h : Overlay p q r) :
      Overlay (plain f.before ++ p) (changed f :: q) (changed f :: r)

theorem strip_in_append {a b p₀ p₁ : List Strip} {s : Strip} (h : p₀ ++ s :: p₁ = a ++ b) :
    (∃ m, a = p₀ ++ s :: m) ∨ ∃ m, p₀ = a ++ m ∧ b = m ++ s :: p₁ := by
  rcases List.append_eq_append_iff.mp h with ⟨m, rfl, hm⟩ | ⟨m, rfl, hm⟩
  · cases m with
    | nil => exact .inr ⟨[], by simp, by simpa using hm.symm⟩
    | cons s' m =>
      obtain ⟨rfl, -⟩ := List.cons.inj hm
      exact .inl ⟨m, rfl⟩
  · exact .inr ⟨m, rfl, hm⟩

namespace Overlay

variable {p q r : List Strip}

theorem source_eq (h : Overlay p q r) : source r = source p := by
  induction h with
  | nil => rfl
  | kept c _ ih => simp [ih]
  | first e _ ih => simp [ih]
  | second f _ ih => simp [ih]

theorem target_eq (h : Overlay p q r) : target r = target q := by
  induction h with
  | nil => rfl
  | kept c _ ih => simp [ih]
  | first e _ ih => simp [ih]
  | second f _ ih => simp [ih]

theorem events_perm (h : Overlay p q r) : (events r).Perm (events p ++ events q) := by
  induction h with
  | nil => exact .refl _
  | kept c _ ih => simpa using ih
  | first e _ ih => simpa using ih
  | second f _ ih => simpa using (ih.cons f).trans List.perm_middle.symm

theorem plain_append_eq {t : Text} {q₀ q₁ : List Strip} {f : Event}
    (h : plain t ++ q = q₀ ++ changed f :: q₁) :
    ∃ m, q₀ = plain t ++ m ∧ q = m ++ changed f :: q₁ := by
  rcases strip_in_append h.symm with ⟨m, hm⟩ | hafter
  · have hmem : changed f ∈ plain t := hm ▸ by simp
    simp [plain] at hmem
  · exact hafter

theorem inPlace (h : Overlay p q r) : InPlace p q := by
  induction h with
  | nil => simp [InPlace]
  | @kept p q r c _ ih =>
    intro q₀ f q₁ hq hf
    cases q₀ with
    | nil => cases hq
    | cons s q₀ =>
      obtain ⟨rfl, hrest⟩ := List.cons.inj hq
      obtain ⟨a, b, d, rfl, ha, hb, hb'⟩ := ih q₀ f q₁ hrest hf
      exact ⟨.kept c :: a, b, d, rfl, by simp [ha], hb, hb'⟩
  | @first p q r e _ ih =>
    intro q₀ f q₁ hq hf
    obtain ⟨m, rfl, hm⟩ := plain_append_eq hq
    obtain ⟨a, b, d, rfl, ha, hb, hb'⟩ := ih m f q₁ hm hf
    exact ⟨.changed e :: a, b, d, rfl, by simp [ha], hb, hb'⟩
  | @second p q r g _ ih =>
    intro q₀ f q₁ hq hf
    cases q₀ with
    | nil =>
      obtain ⟨heq, -⟩ := List.cons.inj hq
      cases heq
      exact ⟨[], plain g.before, p, rfl, rfl, by simp, by simp⟩
    | cons s q₀ =>
      obtain ⟨rfl, hrest⟩ := List.cons.inj hq
      obtain ⟨a, b, d, rfl, ha, hb, hb'⟩ := ih q₀ f q₁ hrest hf
      exact ⟨plain g.before ++ a, b, d, by simp, by simp [ha], hb, hb'⟩

end Overlay

/-! Strings that were empty, of which nothing is seen in either text. -/

/-- Has the strip a string that was not empty, or a character? -/
def Strip.isBusy : Strip → Bool
  | .kept _ => true
  | .changed e => !e.before.isEmpty

def Busy (p : List Strip) : Prop := ∀ s ∈ p, s.isBusy = true

theorem Busy.before_ne_nil {p : List Strip} (h : Busy p) {e : Event} (he : changed e ∈ p) :
    e.before ≠ [] := by simpa [Strip.isBusy] using h _ he

/-- A row that starts with `w`, and in which nothing is changed before the end of `w`. -/
theorem exists_eq_plain_append (side : Strip → Text) (hside : ∀ c, side (kept c) = [c])
    {p : List Strip} {w rest : Text} (h : p.flatMap side = w ++ rest)
    (hclear : ∀ p₀ e p₁, p = p₀ ++ changed e :: p₁ → w.length ≤ (p₀.flatMap side).length) :
    ∃ p', p = plain w ++ p' ∧ p'.flatMap side = rest := by
  induction w generalizing p with
  | nil => exact ⟨p, rfl, h⟩
  | cons c w ih =>
    cases p with
    | nil => cases h
    | cons s p =>
      cases s with
      | changed e => simpa using hclear [] e p rfl
      | kept d =>
        rw [List.flatMap_cons, hside] at h
        obtain ⟨rfl, hrest⟩ := List.cons.inj h
        have hclear' : ∀ p₀ e p₁, p = p₀ ++ changed e :: p₁ →
            w.length ≤ (p₀.flatMap side).length := by
          rintro p₀ e p₁ rfl
          simpa [hside] using hclear (kept d :: p₀) e p₁ rfl
        obtain ⟨p', rfl, hp'⟩ := ih hrest hclear'
        exact ⟨p', rfl, hp'⟩

theorem Apart.of_append {a b p q : List Strip} (h : Apart (a ++ p) (b ++ q))
    (hlength : (target a).length = (source b).length) : Apart p q := by
  rintro p₀ e p₁ q₀ f q₁ rfl rfl he hf
  have hplaces := h (a ++ p₀) e p₁ (b ++ q₀) f q₁ (by simp) (by simp) he hf
  simp only [target_append, source_append, List.length_append] at hplaces
  omega

theorem Busy.of_append {p q : List Strip} (h : Busy (p ++ q)) : Busy q :=
  fun s hs => h s (List.mem_append_right p hs)

/-- Rows that are apart can be laid over one another. Whichever row has a changed strip first, the
other one has nothing but characters there. -/
theorem exists_overlay {p q : List Strip} (hp : Busy p) (hq : Busy q)
    (htext : target p = source q) (h : Apart p q) : ∃ r, Overlay p q r := by
  induction hn : p.length + q.length using Nat.strong_induction_on generalizing p q with
  | h n ih =>
    match p, q with
    | [], [] => exact ⟨[], .nil⟩
    | [], kept d :: q => simp at htext
    | [], changed f :: q =>
      simp only [target_nil, source_changed] at htext
      exact absurd (List.append_eq_nil_iff.mp htext.symm).1 (hq.before_ne_nil (by simp))
    | kept c :: p, [] => simp at htext
    | kept c :: p, kept d :: q =>
      obtain ⟨rfl, htext'⟩ := List.cons.inj htext
      obtain ⟨r, hr⟩ := ih (p.length + q.length) (by simp only [List.length_cons] at hn; omega)
        (Busy.of_append (p := [kept c]) hp) (Busy.of_append (p := [kept c]) hq) htext'
        (Apart.of_append (a := [kept c]) (b := [kept c]) h rfl) rfl
      exact ⟨_, .kept c hr⟩
    | kept c :: p, changed f :: q =>
      have hf : f.before ≠ [] := hq.before_ne_nil (by simp)
      have hclear : ∀ p₀ e p₁, kept c :: p = p₀ ++ changed e :: p₁ →
          f.before.length ≤ (target p₀).length := by
        intro p₀ e p₁ heq
        have he : e.before ≠ [] := hp.before_ne_nil (by rw [heq]; simp)
        rcases h p₀ e p₁ [] f q heq rfl he hf with hle | hle
        · cases p₀ with
          | nil => cases heq
          | cons s p₀ =>
            obtain ⟨rfl, -⟩ := List.cons.inj heq
            simp at hle
        · simpa using hle
      have hstart : (kept c :: p).flatMap Strip.new = f.before ++ source q := htext
      obtain ⟨p', hp', htext'⟩ := exists_eq_plain_append _ (fun _ => rfl) hstart hclear
      have hlength := congrArg List.length hp'
      simp only [List.length_append, plain, List.length_map, List.length_cons] at hlength hn
      rw [hp'] at hp h
      obtain ⟨r, hr⟩ := ih (p'.length + q.length) (by omega) hp.of_append
        (Busy.of_append (p := [changed f]) hq) htext'
        (Apart.of_append (b := [changed f]) h (by simp)) rfl
      exact ⟨changed f :: r, hp' ▸ Overlay.second f hr⟩
    | changed e :: p, q =>
      have he : e.before ≠ [] := hp.before_ne_nil (by simp)
      have hclear : ∀ q₀ f q₁, q = q₀ ++ changed f :: q₁ →
          e.after.length ≤ (source q₀).length := by
        intro q₀ f q₁ heq
        have hf : f.before ≠ [] := hq.before_ne_nil (by rw [heq]; simp)
        have hpos := List.length_pos_iff.mpr hf
        rcases h [] e p q₀ f q₁ rfl heq he hf with hle | hle
        · simpa using hle
        · simp only [target_nil, List.length_nil] at hle
          omega
      have hstart : q.flatMap Strip.old = e.after ++ target p := htext.symm
      obtain ⟨q', hq', htext'⟩ := exists_eq_plain_append _ (fun _ => rfl) hstart hclear
      have hlength := congrArg List.length hq'
      simp only [List.length_append, plain, List.length_map, List.length_cons] at hlength hn
      rw [hq'] at hq h
      obtain ⟨r, hr⟩ := ih (p.length + q'.length) (by omega)
        (Busy.of_append (p := [changed e]) hp) hq.of_append htext'.symm
        (Apart.of_append (a := [changed e]) h (by simp)) rfl
      exact ⟨changed e :: r, hq' ▸ Overlay.first e hr⟩

/-! Strips without a text. -/

section Idle

variable {scope : Text} {p q : List Strip}

theorem flatMap_filter_isBusy {side : Strip → Text}
    (h : ∀ s ∈ p, isBusy s = false → side s = []) :
    (p.filter isBusy).flatMap side = p.flatMap side := by
  induction p with
  | nil => rfl
  | cons s p ih =>
    obtain ⟨hs, hrest⟩ := List.forall_mem_cons.mp h
    cases hbusy : s.isBusy with
    | true => rw [List.filter_cons_of_pos hbusy, List.flatMap_cons, List.flatMap_cons, ih hrest]
    | false =>
      rw [List.filter_cons_of_neg (by simp [hbusy]), List.flatMap_cons, hs hbusy, ih hrest]
      rfl

theorem eq_nil_of_not_isBusy (hp : ∀ e ∈ events p, Qualifies scope e) :
    ∀ s ∈ p, isBusy s = false → s.old = [] ∧ s.new = [] := by
  intro s hs hidle
  cases s with
  | kept c => cases hidle
  | changed e =>
    have hbefore : e.before = [] := by simpa [isBusy] using hidle
    have hafter : e.after = ClassList.qualify scope e.before := hp e (mem_events.mpr hs)
    exact ⟨hbefore, by simp [Strip.new, hafter, hbefore]⟩

theorem source_filter_isBusy (hp : ∀ e ∈ events p, Qualifies scope e) :
    source (p.filter isBusy) = source p :=
  flatMap_filter_isBusy fun s hs hidle => (eq_nil_of_not_isBusy hp s hs hidle).1

theorem target_filter_isBusy (hp : ∀ e ∈ events p, Qualifies scope e) :
    target (p.filter isBusy) = target p :=
  flatMap_filter_isBusy fun s hs hidle => (eq_nil_of_not_isBusy hp s hs hidle).2

theorem forall_mem_events_append {P : Event → Prop} {a b : List Strip}
    (h : ∀ e ∈ events (a ++ b), P e) : (∀ e ∈ events a, P e) ∧ ∀ e ∈ events b, P e := by
  rw [events_append] at h
  exact List.forall_mem_append.mp h

theorem busy_filter (p : List Strip) : Busy (p.filter isBusy) :=
  fun _ hs => (List.mem_filter.mp hs).2

/-- A changed strip in a row without the idle strips, found in the whole row. -/
theorem exists_of_filter_eq {p₀ p₁ : List Strip} {e : Event}
    (h : p.filter isBusy = p₀ ++ changed e :: p₁) :
    ∃ a b, p = a ++ changed e :: b ∧ a.filter isBusy = p₀ := by
  obtain ⟨a, m, rfl, rfl, hm⟩ := List.filter_eq_append_iff.mp h
  obtain ⟨idle, b, rfl, hidle, -, -⟩ := List.filter_eq_cons_iff.mp hm
  refine ⟨a ++ idle, b, by simp, ?_⟩
  rw [List.filter_append, List.filter_eq_nil_iff.mpr hidle, List.append_nil]

theorem Apart.filter (hp : ∀ e ∈ events p, Qualifies scope e)
    (hq : ∀ e ∈ events q, Qualifies scope e) (h : Apart p q) :
    Apart (p.filter isBusy) (q.filter isBusy) := by
  intro p₀ e p₁ q₀ f q₁ hpe hqf he hf
  obtain ⟨a, b, rfl, rfl⟩ := exists_of_filter_eq hpe
  obtain ⟨a', b', rfl, rfl⟩ := exists_of_filter_eq hqf
  rw [target_filter_isBusy (forall_mem_events_append hp).1,
    source_filter_isBusy (forall_mem_events_append hq).1]
  exact h a e b a' f b' rfl rfl he hf

theorem InPlace.of_filter (hp : ∀ e ∈ events p, Qualifies scope e)
    (hq : ∀ e ∈ events q, Qualifies scope e)
    (h : InPlace (p.filter isBusy) (q.filter isBusy)) : InPlace p q := by
  rintro q₀ f q₁ rfl hf
  have hbusy : isBusy (changed f) = true := by simpa [isBusy] using hf
  obtain ⟨a', b', c', hp', ha, hb, hb'⟩ := h (q₀.filter isBusy) f (q₁.filter isBusy)
    (by rw [List.filter_append, List.filter_cons_of_pos hbusy]) hf
  obtain ⟨m, c, rfl, hm, rfl⟩ := List.filter_eq_append_iff.mp hp'
  obtain ⟨a, b, rfl, rfl, rfl⟩ := List.filter_eq_append_iff.mp hm
  obtain ⟨hpa, hpb⟩ := forall_mem_events_append (forall_mem_events_append hp).1
  rw [target_filter_isBusy hpa, source_filter_isBusy (forall_mem_events_append hq).1] at ha
  rw [target_filter_isBusy hpb] at hb
  rw [source_filter_isBusy hpb] at hb'
  exact ⟨a, b, c, rfl, ha, hb, hb'⟩

/-- A string that the second pass finds as it stood in the source holds no string that the first one
changed: such a string has become longer or, if it was blank, shorter. -/
theorem InPlace.apart (hscope : ∀ c ∈ scope, isBlank c = false)
    (hp : ∀ e ∈ events p, Qualifies scope e) (h : InPlace p q) : Apart p q := by
  intro p₀ e p₁ q₀ f q₁ hpe hqf he hf
  obtain ⟨a, b, c, hsplit, ha, hb, hb'⟩ := h q₀ f q₁ hqf hf
  rw [← ha, ← hb]
  rw [hsplit] at hp
  have hidle := before_eq_nil_of_target_eq_source hscope
    (forall_mem_events_append (forall_mem_events_append hp).1).2 (hb.trans hb'.symm)
  rcases strip_in_append (hpe.symm.trans hsplit) with ⟨m, hm⟩ | ⟨m, rfl, -⟩
  · rcases strip_in_append hm.symm with ⟨k, rfl⟩ | ⟨k, -, rfl⟩
    · left
      simp only [target_append, target_changed, List.length_append]
      omega
    · exact absurd (hidle e (by simp)) he
  · right
    simp only [target_append, List.length_append]
    omega

end Idle

theorem eachOnce_of_strips {t : Text} {pass : Pass} {r : List Strip} (hsource : source r = t)
    (htarget : target r = pass.code) (hevents : (events r).Perm pass.events) :
    EachOnce t pass := by
  subst hsource
  refine ⟨edits 0 r, (edits_ordered 0 r).1, ?_, ?_⟩
  · have hmap := map_edits size_nil r
    rw [List.nil_append] at hmap
    rw [hmap]
    exact hevents.map _
  · rw [Edit.splice?_eq_some_iff fun e he => ((edits_ordered 0 r).2 e he).2, ← htarget]
    exact spliced_edits 0 r

theorem events_filter_perm (p : List Strip) :
    (events (p.filter (!isBusy ·)) ++ events (p.filter isBusy)).Perm (events p) := by
  rw [← events_append]
  exact (List.perm_append_comm.trans (List.filter_append_perm isBusy p)).filterMap _

/-- Rows that are apart make one pass over the text. -/
theorem Apart.eachOnce {scope : Text} {p q : List Strip} (htext : target p = source q)
    (hp : ∀ e ∈ events p, Qualifies scope e) (hq : ∀ e ∈ events q, Qualifies scope e)
    (h : Apart p q) : InPlace p q ∧ EachOnce (source p) ⟨target q, events p ++ events q⟩ := by
  have htext' : target (p.filter isBusy) = source (q.filter isBusy) := by
    rw [target_filter_isBusy hp, source_filter_isBusy hq, htext]
  obtain ⟨r, hr⟩ := exists_overlay (busy_filter p) (busy_filter q) htext' (h.filter hp hq)
  have hidle : ∀ {p : List Strip}, (∀ e ∈ events p, Qualifies scope e) →
      source (p.filter (!isBusy ·)) = [] ∧ target (p.filter (!isBusy ·)) = [] := by
    intro p hp
    have hnil : ∀ s ∈ p.filter (!isBusy ·), s.old = [] ∧ s.new = [] := by
      intro s hs
      obtain ⟨hmem, hbusy⟩ := List.mem_filter.mp hs
      exact eq_nil_of_not_isBusy hp s hmem (by simpa using hbusy)
    exact ⟨List.flatMap_eq_nil_iff.mpr fun s hs => (hnil s hs).1,
      List.flatMap_eq_nil_iff.mpr fun s hs => (hnil s hs).2⟩
  refine ⟨hr.inPlace.of_filter hp hq, eachOnce_of_strips
    (r := p.filter (!isBusy ·) ++ q.filter (!isBusy ·) ++ r) ?_ ?_ ?_⟩
  · simp [hidle hp, hidle hq, hr.source_eq, source_filter_isBusy hp]
  · simp [hidle hp, hidle hq, hr.target_eq, target_filter_isBusy hq]
  · rw [events_append, events_append]
    refine (List.Perm.append_left _ hr.events_perm).trans ?_
    refine List.Perm.trans ?_ ((events_filter_perm p).append (events_filter_perm q))
    simp only [List.append_assoc]
    refine List.Perm.append_left _ ?_
    rw [← List.append_assoc, ← List.append_assoc]
    exact List.perm_append_comm.append_right _

/-- A sweep with an empty scope does nothing. With any other scope each event has a stretch of the
text to itself, and has it where its string stands, exactly if no string after the attribute's name
reaches into a string that was changed in a call. -/
theorem swept_once_iff_apart {settings : Settings} (hvalid : settings.fault? = none) (t : Text) :
    let p := joinStrips settings.scope settings.joinName t
    let q := attributeStrips settings.scope settings.attributeName (target p)
    (settings.scope = [] → EachOnce t (sweep settings t)) ∧
      (settings.scope ≠ [] → (InPlace p q ∧ EachOnce t (sweep settings t) ↔ Apart p q)) := by
  intro p q
  constructor
  · intro hscope
    have hsweep : sweep settings t = ⟨t, []⟩ := by simp [sweep, hscope]
    rw [hsweep]
    exact ⟨[], .nil, .nil, Edit.splice?_nil t⟩
  · intro hscope
    have hp : ∀ e ∈ events p, Qualifies settings.scope e := qualifies_joinStrips _ _ _
    have hq : ∀ e ∈ events q, Qualifies settings.scope e := qualifies_attributeStrips _ _ _
    have hsource : source p = t := source_joinStrips _ _ _
    have htext : target p = source q := (source_attributeStrips _ _ _).symm
    rw [sweep_eq hscope t]
    constructor
    · rintro ⟨hplace, -⟩
      exact hplace.apart (Settings.scope_solid hvalid) hp
    · intro hapart
      have honce := hapart.eachOnce htext hp hq
      rwa [hsource] at honce

def propertyInCall : Text := "classnames(\x7bclassName: \"a\"\x7d)".toList

theorem property_in_call_is_swept_twice :
    Settings.defaults.fault? = none ∧ Settings.defaults.scope ≠ [] ∧
      (sweep Settings.defaults propertyInCall).code =
        "classnames(\x7bclassName: \"app-app-a\"\x7d)".toList ∧
      ¬ EachOnce propertyInCall (sweep Settings.defaults propertyInCall) ∧
      let p := joinStrips Settings.defaults.scope Settings.defaults.joinName propertyInCall
      ¬ Apart p (attributeStrips Settings.defaults.scope Settings.defaults.attributeName
        (target p)) := by
  have hvalid : Settings.defaults.fault? = none := by decide +kernel
  have hscope : Settings.defaults.scope ≠ [] := by decide +kernel
  have htwice : ¬ EachOnce propertyInCall (sweep Settings.defaults propertyInCall) := by
    rintro ⟨edits, -, hperm, -⟩
    have hevent : ∃ e ∈ (sweep Settings.defaults propertyInCall).events,
        e.before = "app-a".toList := by decide +kernel
    obtain ⟨e, he, hbefore⟩ := hevent
    obtain ⟨edit, -, hedit⟩ := List.mem_map.mp (hperm.mem_iff.mpr (List.mem_map_of_mem he))
    obtain ⟨a, b, htext, -⟩ := slice?_eq_some_iff.mp (Prod.mk.inj hedit).1
    have hinfix : "app-a".toList <:+: propertyInCall := ⟨a, b, by rw [htext, hbefore]⟩
    exact absurd hinfix (by decide +kernel)
  refine ⟨hvalid, hscope, by decide +kernel, htwice, fun hapart => ?_⟩
  exact htwice (((swept_once_iff_apart hvalid propertyInCall).2 hscope).mpr hapart).2

end ClassScope.Sweep
