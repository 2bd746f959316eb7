import ClassScope.Proofs.ClassList
import ClassScope.Proofs.Splice
import ClassScope.Proofs.Sweep.Cut

/-! A pass of a sweep as a row of strips: characters that stay, and strings that get a new text. The
row tells which event belongs to which stretch of the text, before the pass and after it. -/
namespace ClassScope.Sweep
open Text

inductive Strip where
  | kept (c : Char)
  | changed (e : Event)
  deriving DecidableEq

namespace Strip

def old : Strip → Text
  | kept c => [c]
  | changed e => e.before

def new : Strip → Text
  | kept c => [c]
  | changed e => e.after

def event? : Strip → Option Event
  | kept _ => none
  | changed e => some e

def source (p : List Strip) : Text := p.flatMap old

def target (p : List Strip) : Text := p.flatMap new

def events (p : List Strip) : List Event := p.filterMap event?

/-- A text that stays. -/
def plain (t : Text) : List Strip := t.map kept

variable {p q : List Strip}

@[simp] theorem source_nil : source [] = [] := rfl
@[simp] theorem target_nil : target [] = [] := rfl
@[simp] theorem events_nil : events [] = [] := rfl

@[simp] theorem source_kept (c : Char) (p : List Strip) :
    source (kept c :: p) = c :: source p := rfl
@[simp] theorem target_kept (c : Char) (p : List Strip) :
    target (kept c :: p) = c :: target p := rfl
@[simp] theorem events_kept (c : Char) (p : List Strip) : events (kept c :: p) = events p := rfl

@[simp] theorem source_changed (e : Event) (p : List Strip) :
    source (changed e :: p) = e.before ++ source p := rfl
@[simp] theorem target_changed (e : Event) (p : List Strip) :
    target (changed e :: p) = e.after ++ target p := rfl
@[simp] theorem events_changed (e : Event) (p : List Strip) :
    events (changed e :: p) = e :: events p := rfl

@[simp] theorem source_append (p q : List Strip) : source (p ++ q) = source p ++ source q :=
  List.flatMap_append
@[simp] theorem target_append (p q : List Strip) : target (p ++ q) = target p ++ target q :=
  List.flatMap_append
@[simp] theorem events_append (p q : List Strip) : events (p ++ q) = events p ++ events q :=
  List.filterMap_append

@[simp] theorem source_plain (t : Text) : source (plain t) = t := by
  induction t with
  | nil => rfl
  | cons c t ih => simpa [plain] using ih

@[simp] theorem target_plain (t : Text) : target (plain t) = t := by
  induction t with
  | nil => rfl
  | cons c t ih => simpa [plain] using ih

@[simp] theorem events_plain (t : Text) : events (plain t) = [] := by
  induction t with
  | nil => rfl
  | cons c t ih => simpa [plain] using ih

theorem mem_events {e : Event} : e ∈ events p ↔ changed e ∈ p := by
  simp only [events, List.mem_filterMap]
  constructor
  · rintro ⟨s, hs, he⟩
    cases s with
    | kept => cases he
    | changed => cases he; exact hs
  · exact fun h => ⟨_, h, rfl⟩

/-- The edits that a row of strips makes in a text, if `n` bytes lie in front of it. -/
def edits : Nat → List Strip → List Edit
  | _, [] => []
  | n, kept c :: p => edits (n + c.utf8Size) p
  | n, changed e :: p => ⟨n, n + size e.before, e.after⟩ :: edits (n + size e.before) p

theorem spliced_edits (n : Nat) (p : List Strip) :
    Edit.Spliced n (edits n p) (source p) (target p) := by
  fun_induction edits n p with
  | case1 n => exact .rest n []
  | case2 n c p ih => exact .kept [c] ih
  | case3 n e p ih =>
    exact Edit.Spliced.edit (e := ⟨n, n + size e.before, e.after⟩)
      (by simp : n = n + size []) rfl ih

theorem edits_ordered (n : Nat) (p : List Strip) :
    (edits n p).Pairwise (·.stop ≤ ·.start) ∧ ∀ e ∈ edits n p, n ≤ e.start ∧ e.start ≤ e.stop := by
  fun_induction edits n p with
  | case1 => simp
  | case2 n c p ih =>
    refine ⟨ih.1, fun e he => ?_⟩
    have := ih.2 e he
    omega
  | case3 n e p ih =>
    refine ⟨List.pairwise_cons.mpr ⟨fun f hf => (ih.2 f hf).1, ih.1⟩,
      List.forall_mem_cons.mpr ⟨⟨Nat.le_refl n, Nat.le_add_right n _⟩, fun f hf => ?_⟩⟩
    have := ih.2 f hf
    omega

/-- Each edit takes the text that its event was before, and writes what it is after. -/
theorem map_edits {n : Nat} {head : Text} (hhead : size head = n) (p : List Strip) :
    ((edits n p).map fun e => (slice? e.start e.stop (head ++ source p), e.replacement)) =
      (events p).map fun e => (some e.before, e.after) := by
  induction p generalizing n head with
  | nil => rfl
  | cons s p ih =>
    cases s with
    | kept c =>
      have hsize : size (head ++ [c]) = n + c.utf8Size := by simp [hhead]
      simpa [edits] using ih hsize
    | changed e =>
      have hsize : size (head ++ e.before) = n + size e.before := by rw [size_append, hhead]
      have hslice : slice? n (n + size e.before) (head ++ (e.before ++ source p)) =
          some e.before := slice?_eq_some_iff.mpr ⟨head, source p, by simp, hhead, rfl⟩
      have hrest := ih hsize
      simp only [List.append_assoc] at hrest
      simp [edits, hslice, hrest]

end Strip

open Strip

variable {α : Type}

/-- The strips of a text in pieces. `strips` gives those of a match, and `line` is the line of the
first piece. -/
def stripsOf (strips : Nat → α → List Strip) : Nat → List (Piece α) → List Strip
  | _, [] => []
  | line, .plain c :: rest => .kept c :: stripsOf strips (if c = '\n' then line + 1 else line) rest
  | line, .found value text :: rest =>
    strips line value ++ stripsOf strips (line + text.lineFeeds) rest

def stringStrips (scope : Text) (line : Nat) (string : Char × Text) : List Strip :=
  [.kept string.1, .changed ⟨string.2, ClassList.qualify scope string.2, line⟩, .kept string.1]

def callStrips (scope name : Text) (line : Nat) (arguments : Text) : List Strip :=
  plain (name ++ ['(']) ++
    stripsOf (fun _ => stringStrips scope line) line (pieces quoted arguments) ++ plain [')']

def assignedStrips (scope name : Text) (line : Nat) (a : Assigned) : List Strip :=
  plain (name ++ a.separator) ++ stringStrips scope line (a.quote, a.inner)

def joinStrips (scope name t : Text) : List Strip :=
  stripsOf (callStrips scope name) 1 (pieces (joinCall name) t)

def attributeStrips (scope name t : Text) : List Strip :=
  stripsOf (assignedStrips scope name) 1 (pieces (assigned name) t)

/-- The strips show what a pass makes of a text, and what it reports. -/
structure Shows (p : List Strip) (pass : Pass) : Prop where
  target_eq : target p = pass.code
  events_eq : events p = pass.events

theorem shows_stripsOf {strips : Nat → α → List Strip} {replace : Nat → α → Pass}
    (h : ∀ line value, Shows (strips line value) (replace line value)) (line : Nat)
    (ps : List (Piece α)) : Shows (stripsOf strips line ps) (replaceAll replace line ps) := by
  induction ps generalizing line with
  | nil => exact ⟨rfl, rfl⟩
  | cons piece ps ih =>
    cases piece with
    | plain c =>
      have hrest := ih (if c = '\n' then line + 1 else line)
      exact ⟨congrArg (c :: ·) hrest.target_eq, hrest.events_eq⟩
    | found value text =>
      have hhere := h line value
      have hrest := ih (line + text.lineFeeds)
      constructor
      · simp [stripsOf, replaceAll, hhere.target_eq, hrest.target_eq]
      · simp [stripsOf, replaceAll, hhere.events_eq, hrest.events_eq]

/-- If the strips of each match start from its text, those of all pieces start from the whole
text. -/
theorem source_stripsOf {find : Finder α} {strips : Nat → α → List Strip}
    (hfind : ∀ before t value text rest, find before t = some (value, text, rest) →
      t = text ++ rest ∧ ∀ line, source (strips line value) = text)
    {before : Option Char} {t : Text} {ps : List (Piece α)} (hcuts : Cuts find before t ps)
    (line : Nat) : source (stripsOf strips line ps) = t := by
  induction hcuts generalizing line with
  | nil => rfl
  | plain _ _ ih => simp [stripsOf, ih]
  | found hsome _ ih =>
    obtain ⟨ht, hsource⟩ := hfind _ _ _ _ _ hsome
    simp [stripsOf, hsource, ih, ht]

theorem forall_mem_events_stripsOf {strips : Nat → α → List Strip} {P : Event → Prop}
    (h : ∀ line value, ∀ e ∈ events (strips line value), P e) (line : Nat)
    (ps : List (Piece α)) : ∀ e ∈ events (stripsOf strips line ps), P e := by
  induction ps generalizing line with
  | nil => simp [stripsOf]
  | cons piece ps ih =>
    cases piece with
    | plain c => exact ih _
    | found value text =>
      intro e he
      rw [stripsOf, events_append] at he
      rcases List.mem_append.mp he with he | he
      · exact h _ _ e he
      · exact ih _ e he

/-- The event gives the qualified form of what was there before. -/
def Qualifies (scope : Text) (e : Event) : Prop := e.after = ClassList.qualify scope e.before

section Growth

variable {scope : Text} {p : List Strip}

/-- A pass writes the scope and a hyphen for every name, and nothing else but blanks. -/
theorem length_solid_target (hscope : ∀ c ∈ scope, isBlank c = false)
    (hp : ∀ e ∈ events p, Qualifies scope e) :
    (solid (target p)).length = (solid (source p)).length +
      ((events p).flatMap fun e => words e.before).length * (scope.length + 1) := by
  induction p with
  | nil => simp [solid]
  | cons s p ih =>
    cases s with
    | kept c =>
      have hrest := ih hp
      simp only [solid, target_kept, source_kept, events_kept, List.filter_cons] at hrest ⊢
      split
      · simp only [List.length_cons]
        omega
      · exact hrest
    | changed e =>
      have hrest := ih fun f hf => hp f (List.mem_cons_of_mem e hf)
      have he : e.after = ClassList.qualify scope e.before := hp e List.mem_cons_self
      have hqualify := ClassList.length_solid_qualify hscope e.before
      simp only [solid, target_changed, source_changed, events_changed, List.filter_append,
        List.length_append, List.flatMap_cons, Nat.add_mul, he] at hrest hqualify ⊢
      omega

theorem length_source_of_after_eq_nil (hp : ∀ e ∈ events p, e.after = []) :
    (source p).length = (target p).length + ((events p).flatMap (·.before)).length := by
  induction p with
  | nil => rfl
  | cons s p ih =>
    cases s with
    | kept c =>
      have hrest := ih hp
      simp only [source_kept, target_kept, events_kept, List.length_cons] at hrest ⊢
      omega
    | changed e =>
      obtain ⟨he, hafter⟩ := List.forall_mem_cons.mp hp
      have hrest := ih hafter
      simp only [source_changed, target_changed, events_changed, List.length_append, he,
        List.flatMap_cons, List.length_nil] at hrest ⊢
      omega

/-- A row of strips that leaves its text as it is has only strings that were empty. -/
theorem before_eq_nil_of_target_eq_source (hscope : ∀ c ∈ scope, isBlank c = false)
    (hp : ∀ e ∈ events p, Qualifies scope e) (h : target p = source p) :
    ∀ e ∈ events p, e.before = [] := by
  have hgrowth := length_solid_target hscope hp
  rw [h] at hgrowth
  have hzero : ((events p).flatMap fun e => words e.before).length * (scope.length + 1) = 0 := by
    omega
  have hwords := List.flatMap_eq_nil_iff.mp (List.length_eq_zero_iff.mp
    ((Nat.mul_eq_zero.mp hzero).resolve_right (Nat.succ_ne_zero _)))
  -- No string has a name, so nothing is left of any of them.
  have hafter : ∀ e ∈ events p, e.after = [] :=
    fun e he => (hp e he).trans (ClassList.qualify_eq_nil_iff.mpr (hwords e he))
  have hlength := length_source_of_after_eq_nil hafter
  rw [h] at hlength
  have hnone : (events p).flatMap (·.before) = [] := List.length_eq_zero_iff.mp (by omega)
  exact List.flatMap_eq_nil_iff.mp hnone

end Growth

section Passes

variable (scope name t : Text)

theorem shows_stringStrips (line : Nat) (string : Char × Text) :
    Shows (stringStrips scope line string) (requote scope line string) := by
  constructor <;> simp [stringStrips, requote, qualified]

theorem qualifies_stringStrips (line : Nat) (string : Char × Text) :
    ∀ e ∈ events (stringStrips scope line string), Qualifies scope e := by
  simp [stringStrips, Qualifies]

theorem shows_callStrips (line : Nat) (arguments : Text) :
    Shows (callStrips scope name line arguments) (qualifyCall scope name line arguments) := by
  have hinside := shows_stripsOf (fun _ => shows_stringStrips scope line) line
    (pieces quoted arguments)
  constructor
  · simp [callStrips, qualifyCall, hinside.target_eq]
  · simp [callStrips, qualifyCall, hinside.events_eq]

theorem source_callStrips (line : Nat) (arguments : Text) :
    source (callStrips scope name line arguments) = name ++ '(' :: arguments ++ [')'] := by
  have hstring : ∀ before t string text rest, quoted before t = some (string, text, rest) →
      t = text ++ rest ∧ ∀ _ : Nat, source (stringStrips scope line string) = text := by
    intro before t string text rest hsome
    obtain ⟨ht, rfl⟩ := quoted_eq_some hsome
    exact ⟨ht, fun _ => by simp [stringStrips]⟩
  have hcuts := (pieces_eq_iff quoted_sound).mp (rfl : pieces quoted arguments = _)
  simp [callStrips, source_stripsOf hstring hcuts]

theorem shows_assignedStrips (line : Nat) (a : Assigned) :
    Shows (assignedStrips scope name line a) (qualifyAssigned scope name line a) := by
  have hvalue := shows_stringStrips scope line (a.quote, a.inner)
  constructor
  · simp [assignedStrips, qualifyAssigned, hvalue.target_eq]
  · simp [assignedStrips, qualifyAssigned, hvalue.events_eq]

theorem shows_joinStrips : Shows (joinStrips scope name t) (joinPass scope name t) :=
  shows_stripsOf (shows_callStrips scope name) 1 _

theorem shows_attributeStrips :
    Shows (attributeStrips scope name t) (attributePass scope name t) :=
  shows_stripsOf (shows_assignedStrips scope name) 1 _

@[simp] theorem source_joinStrips : source (joinStrips scope name t) = t := by
  have hcuts := (pieces_eq_iff (joinCall_sound name)).mp (rfl : pieces (joinCall name) t = _)
  refine source_stripsOf (fun before t arguments text rest hsome => ?_) hcuts 1
  obtain ⟨-, ht, rfl, -⟩ := joinCall_eq_some_iff.mp hsome
  exact ⟨ht, fun line => source_callStrips scope name line arguments⟩

@[simp] theorem source_attributeStrips : source (attributeStrips scope name t) = t := by
  have hcuts := (pieces_eq_iff (assigned_sound name)).mp (rfl : pieces (assigned name) t = _)
  refine source_stripsOf (fun before t a text rest hsome => ?_) hcuts 1
  obtain ⟨-, ht, rfl, -⟩ := assigned_eq_some_iff.mp hsome
  exact ⟨ht, fun line => by simp [assignedStrips, stringStrips]⟩

theorem qualifies_joinStrips : ∀ e ∈ events (joinStrips scope name t), Qualifies scope e := by
  refine forall_mem_events_stripsOf (fun line arguments e he => ?_) 1 _
  have hinside := forall_mem_events_stripsOf
    (fun _ => qualifies_stringStrips scope line) line (pieces quoted arguments)
  exact hinside e (by simpa [callStrips] using he)

theorem qualifies_attributeStrips :
    ∀ e ∈ events (attributeStrips scope name t), Qualifies scope e := by
  refine forall_mem_events_stripsOf (fun line a e he => ?_) 1 _
  exact qualifies_stringStrips scope line (a.quote, a.inner) e (by simpa [assignedStrips] using he)

end Passes

/-- A sweep is two rows of strips, the second laid over what the first one gives. -/
theorem sweep_eq {settings : Settings} (hscope : settings.scope ≠ []) (t : Text) :
    sweep settings t =
      let p := joinStrips settings.scope settings.joinName t
      let q := attributeStrips settings.scope settings.attributeName (target p)
      ⟨target q, events p ++ events q⟩ := by
  have hfirst := shows_joinStrips settings.scope settings.joinName t
  have hsecond := shows_attributeStrips settings.scope settings.attributeName
    (joinPass settings.scope settings.joinName t).code
  simp only [sweep, List.isEmpty_iff, hscope, if_false, hfirst.target_eq, hfirst.events_eq,
    hsecond.target_eq, hsecond.events_eq]

end ClassScope.Sweep
