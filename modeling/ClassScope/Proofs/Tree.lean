import Mathlib.Data.List.Pairwise
import ClassScope.ClassValue.Classify
import ClassScope.Proofs.Text.Slice

/-! Trees whose nodes stand where they say. Parts lie inside the whole and beside each other, a
string and a quoted value read as quoted text, a segment reads as its raw text. From this follows
that no two literals of a tree overlap, however they are nested. -/
namespace ClassScope

namespace Span

/-- Does the one stretch end before the other starts? -/
def Apart (s t : Span) : Prop := s.hi ≤ t.lo ∨ t.hi ≤ s.lo

def Inside (s t : Span) : Prop := t.lo ≤ s.lo ∧ s.hi ≤ t.hi

instance (s t : Span) : Decidable (s.Apart t) := inferInstanceAs (Decidable (_ ∨ _))

instance (s t : Span) : Decidable (s.Inside t) := inferInstanceAs (Decidable (_ ∧ _))

theorem Apart.symm {s t : Span} (h : s.Apart t) : t.Apart s := Or.symm h

theorem Inside.refl (s : Span) : s.Inside s := ⟨Nat.le_refl _, Nat.le_refl _⟩

theorem Inside.trans {s t u : Span} (h : s.Inside t) (h' : t.Inside u) : s.Inside u :=
  ⟨Nat.le_trans h'.1 h.1, Nat.le_trans h.2 h'.2⟩

theorem Apart.of_inside {s t s' t' : Span} (h : s.Apart t) (hs : s'.Inside s) (ht : t'.Inside t) :
    s'.Apart t' := by
  unfold Apart Inside at *
  omega

def own? (s : Span) : Option Span := if s.lo = 0 then none else some s

def orElse (s : Span) (inner : List Span) : List Span := if s.lo = 0 then inner else [s]

theorem orElse_of_own {s t : Span} (h : s.own? = some t) (inner : List Span) :
    s.orElse inner = [t] := by
  unfold own? at h
  unfold orElse
  split at h <;> simp_all

theorem orElse_of_nowhere {s : Span} (h : s.own? = none) (inner : List Span) :
    s.orElse inner = inner := by
  unfold own? at h
  unfold orElse
  split at h <;> simp_all

end Span

namespace Node

def parts : Node → List Node
  | .identifier _ _ | .string _ _ | .quoted _ => []
  | .parens _ inner | .spread _ inner | .slot _ inner | .attr _ inner => [inner]
  | .conditional _ test consequent alternate => [test, consequent, alternate]
  | .template _ _ parts | .other _ _ parts => parts
  | .call _ callee arguments => callee :: arguments

theorem sizeOf_lt_of_mem_parts {p n : Node} (h : p ∈ n.parts) : sizeOf p < sizeOf n := by
  cases n with
  | identifier | string | quoted => cases h
  | parens span inner =>
    rw [List.mem_singleton.mp h, parens.sizeOf_spec]
    omega
  | spread dots inner =>
    rw [List.mem_singleton.mp h, spread.sizeOf_spec]
    omega
  | slot span inner =>
    rw [List.mem_singleton.mp h, slot.sizeOf_spec]
    omega
  | attr name value =>
    rw [List.mem_singleton.mp h, attr.sizeOf_spec]
    omega
  | conditional span test c a =>
    rw [conditional.sizeOf_spec]
    simp only [parts, List.mem_cons, List.not_mem_nil, or_false] at h
    rcases h with rfl | rfl | rfl <;> omega
  | template span segments parts =>
    have hlt : sizeOf p < sizeOf parts := List.sizeOf_lt_of_mem h
    rw [template.sizeOf_spec]
    omega
  | other shape span parts =>
    have hlt : sizeOf p < sizeOf parts := List.sizeOf_lt_of_mem h
    rw [other.sizeOf_spec]
    omega
  | call span callee arguments =>
    rw [call.sizeOf_spec]
    rcases List.mem_cons.mp h with rfl | h
    · omega
    · have hlt := List.sizeOf_lt_of_mem h
      omega

/-- To prove something of a tree, prove it of a node whose parts all have it. -/
theorem parts_induction {P : Node → Prop} (h : ∀ n, (∀ p ∈ n.parts, P p) → P n) (n : Node) : P n :=
  h n fun p hp => have := sizeOf_lt_of_mem_parts hp; parts_induction h p
termination_by sizeOf n

mutual

/-- A node and everything in it. -/
def subtrees : Node → List Node
  | .identifier span name => [.identifier span name]
  | .string span value => [.string span value]
  | .quoted span => [.quoted span]
  | .parens span inner => .parens span inner :: inner.subtrees
  | .spread dots inner => .spread dots inner :: inner.subtrees
  | .slot span inner => .slot span inner :: inner.subtrees
  | .attr name value => .attr name value :: value.subtrees
  | .conditional span test consequent alternate =>
    .conditional span test consequent alternate ::
      (test.subtrees ++ (consequent.subtrees ++ alternate.subtrees))
  | .template span segments parts => .template span segments parts :: subtreesAll parts
  | .other shape span parts => .other shape span parts :: subtreesAll parts
  | .call span callee arguments =>
    .call span callee arguments :: (callee.subtrees ++ subtreesAll arguments)

def subtreesAll : List Node → List Node
  | [] => []
  | n :: ns => n.subtrees ++ subtreesAll ns

end

theorem subtreesAll_eq (ns : List Node) : subtreesAll ns = ns.flatMap subtrees := by
  induction ns with
  | nil => rfl
  | cons n ns ih => rw [subtreesAll, ih, List.flatMap_cons]

theorem subtrees_eq (n : Node) : n.subtrees = n :: n.parts.flatMap subtrees := by
  cases n <;> simp [subtrees, parts, subtreesAll_eq]

theorem mem_subtrees_self (n : Node) : n ∈ n.subtrees := by
  rw [subtrees_eq]
  exact List.mem_cons_self

theorem mem_subtrees_of_mem_parts {m p n : Node} (hp : p ∈ n.parts) (hm : m ∈ p.subtrees) :
    m ∈ n.subtrees := by
  rw [subtrees_eq]
  exact List.mem_cons_of_mem _ (List.mem_flatMap.mpr ⟨p, hp, hm⟩)

theorem mem_subtrees_trans {m p n : Node} (hm : m ∈ p.subtrees) (hp : p ∈ n.subtrees) :
    m ∈ n.subtrees := by
  induction n using parts_induction with
  | h n ih =>
    rw [subtrees_eq, List.mem_cons, List.mem_flatMap] at hp
    rcases hp with rfl | ⟨q, hq, hp⟩
    · exact hm
    · exact mem_subtrees_of_mem_parts hq (ih q hq hp)

mutual

/-- The stretches of source that a node takes up: its own, or those of its parts if it is
nowhere itself. -/
def stretches : Node → List Span
  | .identifier span _ => span.orElse []
  | .string span _ | .quoted span => span.orElse [span]
  | .parens span inner | .slot span inner => span.orElse inner.stretches
  | .spread _ inner | .attr _ inner => inner.stretches
  | .conditional span test consequent alternate =>
    span.orElse (test.stretches ++ (consequent.stretches ++ alternate.stretches))
  | .template span segments parts =>
    span.orElse (segments.map Segment.span ++ stretchesAll parts)
  | .other _ span parts => span.orElse (stretchesAll parts)
  | .call span callee arguments => span.orElse (callee.stretches ++ stretchesAll arguments)

def stretchesAll : List Node → List Span
  | [] => []
  | n :: ns => n.stretches ++ stretchesAll ns

end

theorem stretchesAll_eq (ns : List Node) : stretchesAll ns = ns.flatMap stretches := by
  induction ns with
  | nil => rfl
  | cons n ns ih => rw [stretchesAll, ih, List.flatMap_cons]

def ownPlaces : Node → List Span
  | .string span _ | .quoted span => [span]
  | .template _ segments _ => segments.map Segment.span
  | _ => []

/-- The stretch around everything a node holds, if it has one. -/
def ownSpan? : Node → Option Span
  | .spread _ _ | .attr _ _ => none
  | n => n.span.own?

/-- What stands side by side in a node: its own literals and the stretches of each part. -/
def siblings (n : Node) : List (List Span) := n.ownPlaces.map ([·]) ++ n.parts.map stretches

theorem stretches_of_ownSpan {n : Node} {s : Span} (h : n.ownSpan? = some s) :
    n.stretches = [s] := by
  cases n <;> first | cases h | exact Span.orElse_of_own h _

theorem stretches_of_nowhere {n : Node} (h : n.ownSpan? = none) :
    n.stretches = n.siblings.flatten := by
  have hown : (n.ownPlaces.map ([·])).flatten = n.ownPlaces := by
    rw [← List.flatMap_def, List.flatMap_singleton']
  rw [siblings, List.flatten_append, hown, ← List.flatMap_def]
  cases n <;> simp only [stretches, ownPlaces, parts, stretchesAll_eq, List.flatMap_cons,
    List.flatMap_nil, List.append_nil, List.nil_append]
  all_goals exact Span.orElse_of_nowhere h _

end Node

namespace Source

/-- Does the source read, at this place, a text in quotes? -/
def QuotedAt (s : Source) (span : Span) : Prop :=
  ∃ quote text, (quote = '"' ∨ quote = '\'') ∧ s.slice? span = some (quote :: text ++ [quote])

theorem quoteOf?_eq_some_iff {raw : Text} {quote : Char} :
    quoteOf? raw = some quote ↔
      (quote = '"' ∨ quote = '\'') ∧ ∃ text, raw = quote :: text ++ [quote] := by
  unfold quoteOf?
  constructor
  · intro h
    split at h
    · rename_i q rest
      split at h
      · rename_i hq
        cases h
        obtain ⟨text, rfl⟩ := List.getLast?_eq_some_iff.mp hq.2
        exact ⟨hq.1, text, rfl⟩
      · cases h
    · cases h
  · rintro ⟨hq, text, rfl⟩
    simp [hq]

theorem quotedAt_iff {s : Source} {span : Span} :
    s.QuotedAt span ↔ ((s.slice? span).bind quoteOf?).isSome = true := by
  rw [Option.isSome_iff_exists]
  constructor
  · rintro ⟨quote, text, hq, hs⟩
    exact ⟨quote, by rw [hs, Option.bind_some, quoteOf?_eq_some_iff]; exact ⟨hq, text, rfl⟩⟩
  · rintro ⟨quote, h⟩
    obtain ⟨raw, hs, hraw⟩ := Option.bind_eq_some_iff.mp h
    obtain ⟨hq, text, rfl⟩ := quoteOf?_eq_some_iff.mp hraw
    exact ⟨quote, text, hq, hs⟩

theorem QuotedAt.isQuote {s : Source} {span : Span} {quote : Char} {text : Text}
    (h : s.QuotedAt span) (hraw : s.slice? span = some (quote :: text ++ [quote])) :
    quote = '"' ∨ quote = '\'' := by
  obtain ⟨quote', text', hq, hraw'⟩ := h
  have hsame : quote :: text ++ [quote] = quote' :: text' ++ [quote'] :=
    Option.some.inj (hraw.symm.trans hraw')
  rwa [(List.cons.inj hsame).1]

instance (s : Source) (span : Span) : Decidable (s.QuotedAt span) :=
  decidable_of_iff _ quotedAt_iff.symm

theorem slice?_eq_some_iff {s : Source} {span : Span} {t : Text} :
    s.slice? span = some t ↔
      span.lo ≠ 0 ∧ span.lo ≤ span.hi ∧ s.text.slice? (span.lo - 1) (span.hi - 1) = some t := by
  unfold slice? range?
  constructor
  · intro h
    split at h
    · cases h
    · rename_i hcond
      simp only [not_or, Nat.not_lt] at hcond
      exact ⟨hcond.1, hcond.2.1, h⟩
  · rintro ⟨hlo, hle, h⟩
    have hsize := (Text.slice?_le h).2
    have hcond : ¬ (span.lo = 0 ∨ span.hi < span.lo ∨ s.text.size < span.hi - 1) := by omega
    rw [if_neg hcond]
    exact h

theorem range?_of_slice? {s : Source} {span : Span} {t : Text} (h : s.slice? span = some t) :
    s.range? span = some (span.lo - 1, span.hi - 1) := by
  obtain ⟨hlo, hle, hs⟩ := slice?_eq_some_iff.mp h
  have hsize := (Text.slice?_le hs).2
  have hcond : ¬ (span.lo = 0 ∨ span.hi < span.lo ∨ s.text.size < span.hi - 1) := by omega
  rw [range?, if_neg hcond]

end Source

namespace Node

/-- What the source reads where the node stands: a string and a value in quotes stand in quotes,
each segment of a template reads as it says, and a value that is neither in quotes nor in braces
is an element. -/
def Reads (s : Source) : Node → Prop
  | .string span _ | .quoted span => s.QuotedAt span
  | .template _ segments parts =>
    segments.length = parts.length + 1 ∧ ∀ g ∈ segments, s.slice? g.span = some g.raw
  | .attr _ (.quoted _) | .attr _ (.slot _ _) => True
  | .attr _ (.other _ span _) => ((s.slice? span).bind List.head?) = some '<'
  | .attr _ _ => False
  | _ => True

instance (s : Source) : (n : Node) → Decidable (n.Reads s)
  | .string span _ | .quoted span => inferInstanceAs (Decidable (s.QuotedAt span))
  | .template _ segments parts => inferInstanceAs (Decidable
      (segments.length = parts.length + 1 ∧ ∀ g ∈ segments, s.slice? g.span = some g.raw))
  | .attr _ (.other _ span _) =>
    inferInstanceAs (Decidable (((s.slice? span).bind List.head?) = some '<'))
  | .attr _ (.quoted _) | .attr _ (.slot _ _) => isTrue trivial
  | .attr _ (.identifier _ _) | .attr _ (.string _ _) | .attr _ (.parens _ _)
  | .attr _ (.conditional _ _ _ _) | .attr _ (.template _ _ _) | .attr _ (.call _ _ _)
  | .attr _ (.spread _ _) | .attr _ (.attr _ _) => isFalse id
  | .identifier _ _ | .parens _ _ | .conditional _ _ _ _ | .call _ _ _ | .spread _ _
  | .slot _ _ | .other _ _ _ => isTrue trivial

/-- A node stands where it says, and so does what it holds. -/
structure Placed (s : Source) (n : Node) : Prop where
  inside : ∀ t ∈ n.ownSpan?, ∀ us ∈ n.siblings, ∀ u ∈ us, u.Inside t
  apart : n.siblings.Pairwise fun ts us => ∀ t ∈ ts, ∀ u ∈ us, t.Apart u
  reads : n.Reads s

instance (s : Source) (n : Node) : Decidable (n.Placed s) :=
  decidable_of_iff
    ((∀ t ∈ n.ownSpan?, ∀ us ∈ n.siblings, ∀ u ∈ us, u.Inside t) ∧
      (n.siblings.Pairwise fun ts us => ∀ t ∈ ts, ∀ u ∈ us, t.Apart u) ∧ n.Reads s)
    ⟨fun h => ⟨h.1, h.2.1, h.2.2⟩, fun h => ⟨h.inside, h.apart, h.reads⟩⟩

def Faithful (s : Source) (n : Node) : Prop := ∀ m ∈ n.subtrees, m.Placed s

instance (s : Source) (n : Node) : Decidable (n.Faithful s) :=
  inferInstanceAs (Decidable (∀ m ∈ n.subtrees, m.Placed s))

theorem Faithful.placed {s : Source} {n : Node} (h : n.Faithful s) : n.Placed s :=
  h n n.mem_subtrees_self

theorem Faithful.part {s : Source} {n p : Node} (h : n.Faithful s) (hp : p ∈ n.parts) :
    p.Faithful s :=
  fun m hm => h m (mem_subtrees_of_mem_parts hp hm)

theorem Faithful.sub {s : Source} {n m : Node} (h : n.Faithful s) (hm : m ∈ n.subtrees) :
    m.Faithful s :=
  fun k hk => h k (mem_subtrees_trans hk hm)

mutual

def places : Node → List Span
  | .identifier _ _ => []
  | .string span _ | .quoted span => [span]
  | .parens _ inner | .spread _ inner | .slot _ inner | .attr _ inner => inner.places
  | .conditional _ test consequent alternate =>
    test.places ++ (consequent.places ++ alternate.places)
  | .template _ segments parts => segments.map Segment.span ++ placesAll parts
  | .other _ _ parts => placesAll parts
  | .call _ callee arguments => callee.places ++ placesAll arguments

def placesAll : List Node → List Span
  | [] => []
  | n :: ns => n.places ++ placesAll ns

end

theorem placesAll_eq (ns : List Node) : placesAll ns = ns.flatMap places := by
  induction ns with
  | nil => rfl
  | cons n ns ih => rw [placesAll, ih, List.flatMap_cons]

theorem places_eq (n : Node) : n.places = n.ownPlaces ++ n.parts.flatMap places := by
  cases n <;> simp [places, ownPlaces, parts, placesAll_eq]

/-- Groups of places, each inside its own stretches: if the stretches of different groups are
apart, all the places are. -/
theorem pairwise_apart_of_groups {gs : List (List Span × List Span)}
    (hgroup : ∀ g ∈ gs, g.1.Pairwise Span.Apart ∧ ∀ p ∈ g.1, ∃ t ∈ g.2, p.Inside t)
    (hgs : (gs.map Prod.snd).Pairwise fun ts us => ∀ t ∈ ts, ∀ u ∈ us, t.Apart u) :
    (gs.flatMap Prod.fst).Pairwise Span.Apart := by
  rw [List.pairwise_flatMap]
  refine ⟨fun g hg => (hgroup g hg).1, ?_⟩
  refine (List.pairwise_map.mp hgs).imp_of_mem ?_
  intro g g' hg hg' hapart p hp p' hp'
  obtain ⟨t, ht, hin⟩ := (hgroup g hg).2 p hp
  obtain ⟨u, hu, hin'⟩ := (hgroup g' hg').2 p' hp'
  exact (hapart t ht u hu).of_inside hin hin'

/-- In a faithful tree no two literals overlap, and all lie where the tree lies. -/
theorem Faithful.places_apart {s : Source} {n : Node} (h : n.Faithful s) :
    n.places.Pairwise Span.Apart ∧ ∀ p ∈ n.places, ∃ t ∈ n.stretches, p.Inside t := by
  induction n using parts_induction with
  | h n ih =>
    -- Each literal of the node and each part is a group: its places, and the stretches around them.
    let groups : List (List Span × List Span) :=
      n.ownPlaces.map (fun p => ([p], [p])) ++ n.parts.map fun p => (p.places, p.stretches)
    have hfst : groups.flatMap Prod.fst = n.places := by
      simp [groups, places_eq n, List.flatMap_map]
    have hsnd : groups.map Prod.snd = n.siblings := by
      simp [groups, siblings, Function.comp_def]
    have hgroup : ∀ g ∈ groups, g.1.Pairwise Span.Apart ∧ ∀ p ∈ g.1, ∃ t ∈ g.2, p.Inside t := by
      intro g hg
      rcases List.mem_append.mp hg with hg | hg
      · obtain ⟨p, -, rfl⟩ := List.mem_map.mp hg
        simp [Span.Inside.refl]
      · obtain ⟨p, hp, rfl⟩ := List.mem_map.mp hg
        exact ih p hp (h.part hp)
    have hapart := pairwise_apart_of_groups hgroup (hsnd ▸ h.placed.apart)
    rw [hfst] at hapart
    refine ⟨hapart, fun p hp => ?_⟩
    obtain ⟨g, hg, hpg⟩ := List.mem_flatMap.mp (hfst ▸ hp)
    obtain ⟨t, ht, hin⟩ := (hgroup g hg).2 p hpg
    have hsib : g.2 ∈ n.siblings := hsnd ▸ List.mem_map_of_mem hg
    cases hspan : n.ownSpan? with
    | none =>
      refine ⟨t, ?_, hin⟩
      rw [stretches_of_nowhere hspan]
      exact List.mem_flatten.mpr ⟨g.2, hsib, ht⟩
    | some u =>
      refine ⟨u, by simp [stretches_of_ownSpan hspan], ?_⟩
      exact hin.trans (h.placed.inside u hspan g.2 hsib t ht)

end Node

theorem exists_ok_of_any {ε α : Type} {x : Except ε α} {p : α → Bool}
    (h : x.toOption.any p = true) : ∃ a, x = .ok a ∧ p a = true := by
  cases x with
  | error e => cases h
  | ok a => exact ⟨a, rfl, h⟩

end ClassScope
