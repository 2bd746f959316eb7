import Mathlib.Data.List.Chain
import ClassScope.Proofs.Splice

/-! Edits that are made together, edits that are made one at a time, and edits that take others
back. An edit moves everything behind it by as much as it lets the text grow; edits that are made
from the last to the first never meet a place that has moved, and edits that take others back have
to be moved by all the growth in front of them. -/
namespace ClassScope

/-- The place lies between two characters of the text or at one of its ends. -/
def Text.IsBoundary (t : Text) (n : Nat) : Prop := ∃ a b, t = a ++ b ∧ size a = n

namespace Edit
open Text

structure Fits (e : Edit) (t : Text) : Prop where
  start_le_stop : e.start ≤ e.stop
  start_boundary : t.IsBoundary e.start
  stop_boundary : t.IsBoundary e.stop

variable {e : Edit} {t : Text} {es : List Edit}

theorem fits_iff : e.Fits t ↔ ∃ old, t.slice? e.start e.stop = some old := by
  constructor
  · rintro ⟨hle, ⟨a, b, rfl, ha⟩, ⟨c, d, hcut, hc⟩⟩
    have hsize : size a ≤ size c := by rw [ha, hc]; exact hle
    obtain ⟨old, rfl, rfl⟩ := append_eq_append_of_size_le hcut hsize
    rw [size_append, ha] at hc
    exact ⟨old, slice?_eq_some_iff.mpr ⟨a, d, by simp, ha, hc⟩⟩
  · rintro ⟨old, hold⟩
    obtain ⟨a, b, ht, ha, hstop⟩ := slice?_eq_some_iff.mp hold
    refine ⟨(slice?_le hold).1, ⟨a, old ++ b, by simp [ht], ha⟩, ⟨a ++ old, b, ht, ?_⟩⟩
    rw [size_append, ha, hstop]

instance (e : Edit) (t : Text) : Decidable (e.Fits t) :=
  decidable_of_iff ((t.slice? e.start e.stop).isSome = true)
    (Option.isSome_iff_exists.trans fits_iff.symm)

/-- Every edit fits the text, and none starts before the end of the one in front of it. -/
structure InOrder (t : Text) (es : List Edit) : Prop where
  apart : es.IsChain (·.stop ≤ ·.start)
  fits : ∀ e ∈ es, e.Fits t

theorem inOrder_iff :
    InOrder t es ↔ es.IsChain (·.stop ≤ ·.start) ∧ ∀ e ∈ es, e.Fits t :=
  ⟨fun h => ⟨h.apart, h.fits⟩, fun h => ⟨h.1, h.2⟩⟩

instance (t : Text) (es : List Edit) : Decidable (InOrder t es) :=
  decidable_of_iff _ inOrder_iff.symm

theorem InOrder.start_le_stop (h : InOrder t es) : ∀ e ∈ es, e.start ≤ e.stop :=
  fun e he => (h.fits e he).start_le_stop

theorem InOrder.pairwise (h : InOrder t es) : es.Pairwise (·.stop ≤ ·.start) := by
  obtain ⟨hchain, hfits⟩ := h
  induction es with
  | nil => exact List.Pairwise.nil
  | cons e es ih =>
    obtain ⟨hnext, htail⟩ := List.isChain_cons.mp hchain
    have hpairs := ih htail fun f hf => hfits f (List.mem_cons_of_mem _ hf)
    refine List.pairwise_cons.mpr ⟨fun g hg => ?_, hpairs⟩
    cases es with
    | nil => simp at hg
    | cons f fs =>
      have hef : e.stop ≤ f.start := hnext f rfl
      have hf : f.start ≤ f.stop := (hfits f (by simp)).start_le_stop
      rcases List.mem_cons.mp hg with rfl | hg
      · exact hef
      · have hfg : f.stop ≤ g.start := (List.pairwise_cons.mp hpairs).1 g hg
        omega

theorem InOrder.exists_spliced (h : InOrder t es) : ∃ code, Spliced 0 es t code := by
  have hslices : ∀ e ∈ es, ∃ old, t.slice? e.start e.stop = some old :=
    fun e he => fits_iff.mp (h.fits e he)
  obtain ⟨code, hcode⟩ := exists_spliceFrom?_eq_some (List.nil_append t).symm
    (fun _ _ => Nat.zero_le _) hslices h.pairwise
  exact ⟨code, (splice?_eq_some_iff h.start_le_stop).mp hcode⟩

theorem Spliced.le_start_of_head {n : Nat} {u : Text} (h : Spliced n es t u)
    (he : e ∈ es.head?) : n ≤ e.start := by
  cases h with
  | rest => simp at he
  | edit hstart hstop hrest =>
    cases he
    omega

theorem slice?_of_parts {n : Nat} {head kept old rest : Text} (hhead : size head = n)
    (hstart : e.start = n + size kept) (hstop : e.stop = e.start + size old) :
    slice? e.start e.stop (head ++ (kept ++ old ++ rest)) = some old := by
  have hsize : size (head ++ kept) = e.start := by rw [size_append, hhead, hstart]
  exact slice?_eq_some_iff.mpr ⟨head ++ kept, rest, by simp, hsize, hstop.symm⟩

theorem Spliced.inOrder {n : Nat} {head rest code : Text} (h : Spliced n es rest code)
    (ht : t = head ++ rest) (hhead : size head = n) : InOrder t es := by
  induction h generalizing head with
  | rest => exact ⟨.nil, by simp⟩
  | @edit n e es kept old rest code hstart hstop hrest ih =>
    have hfits : e.Fits t := fits_iff.mpr ⟨old, ht ▸ slice?_of_parts hhead hstart hstop⟩
    have hbehind : t = head ++ kept ++ old ++ rest := by simp [ht]
    have hes : InOrder t es := ih hbehind (by simp only [size_append]; omega)
    exact ⟨List.isChain_cons.mpr ⟨fun _ hf => hrest.le_start_of_head hf, hes.apart⟩,
      List.forall_mem_cons.mpr ⟨hfits, hes.fits⟩⟩

def make? (e : Edit) (t : Text) : Option Text :=
  if e.start ≤ e.stop then do
    let front ← t.takeBytes? e.start
    let back ← t.dropBytes? e.stop
    return front ++ e.replacement ++ back
  else none

/-- The text with the edits made one at a time, the last one first. -/
def makeFromLast? (t : Text) (es : List Edit) : Option Text := es.foldrM make? t

theorem make?_append {front old back : Text} (hstart : e.start = size front)
    (hstop : e.stop = e.start + size old) :
    e.make? (front ++ old ++ back) = some (front ++ e.replacement ++ back) := by
  have hle : e.start ≤ e.stop := by omega
  have hfront : takeBytes? e.start (front ++ old ++ back) = some front := by
    rw [hstart, List.append_assoc]
    exact takeBytes?_size_append front (old ++ back)
  have hback : dropBytes? e.stop (front ++ old ++ back) = some back := by
    rw [hstop, hstart, ← size_append]
    exact dropBytes?_size_append (front ++ old) back
  simp only [make?, if_pos hle, hfront, hback]
  rfl

/-- Edits further back leave everything in front of them where it was, so that each edit still finds
its range. -/
theorem Spliced.makeFromLast? {n : Nat} {head rest code : Text} (h : Spliced n es rest code)
    (hhead : size head = n) :
    makeFromLast? (head ++ rest) es = some (head ++ code) := by
  induction h generalizing head with
  | rest => rfl
  | @edit n e es kept old rest code hstart hstop hrest ih =>
    have hstart' : e.start = size (head ++ kept) := by rw [size_append, hhead, hstart]
    have hbehind : Edit.makeFromLast? (head ++ kept ++ old ++ rest) es =
        some (head ++ kept ++ old ++ code) :=
      ih (by rw [size_append, ← hstart', hstop])
    have hmade : e.make? (head ++ kept ++ old ++ code) =
        some (head ++ kept ++ e.replacement ++ code) := make?_append hstart' hstop
    calc Edit.makeFromLast? (head ++ (kept ++ old ++ rest)) (e :: es)
        = (Edit.makeFromLast? (head ++ kept ++ old ++ rest) es).bind e.make? := by
          simp [Edit.makeFromLast?]
      _ = some (head ++ (kept ++ e.replacement ++ code)) := by
          rw [hbehind, Option.bind_some, hmade]
          simp

def growth (e : Edit) : Int := size e.replacement - (e.stop - e.start : Int)

/-- The edit that takes `e` back: it puts what stood in the text for what `e` puts there, where that
stands once the text in front has grown by `shift`. -/
def inverse? (t : Text) (shift : Int) (e : Edit) : Option Edit := do
  let old ← t.slice? e.start e.stop
  let start ← (e.start + shift).toNat?
  return ⟨start, start + size e.replacement, old⟩

def inversesFrom? (t : Text) (shift : Int) : List Edit → Option (List Edit)
  | [] => some []
  | e :: es => do
    let first ← inverse? t shift e
    let others ← inversesFrom? t (shift + e.growth) es
    return first :: others

def inverses? (t : Text) (es : List Edit) : Option (List Edit) := inversesFrom? t 0 es

/-- The parts that stay are the same in both texts, so that a splice read the other way is one too.
In front of the edits lie `n` bytes of the one text and `m` of the other. -/
theorem Spliced.exists_inverses {n m : Nat} {shift : Int} {head rest code : Text}
    (h : Spliced n es rest code) (ht : t = head ++ rest) (hhead : size head = n)
    (hshift : (m : Int) = n + shift) :
    ∃ back, inversesFrom? t shift es = some back ∧ Spliced m back code rest := by
  induction h generalizing head m shift with
  | rest n rest => exact ⟨[], rfl, .rest m rest⟩
  | @edit n e es kept old rest code hstart hstop hrest ih =>
    have hold : t.slice? e.start e.stop = some old := ht ▸ slice?_of_parts hhead hstart hstop
    -- However much has been removed, the `m` bytes in front are left, so that no place gets lost.
    have hplace : (e.start + shift).toNat? = some (m + size kept) :=
      Int.mem_toNat?.mpr (by omega)
    let b : Edit := ⟨m + size kept, m + size kept + size e.replacement, old⟩
    have hfirst : inverse? t shift e = some b := by simp [inverse?, hold, hplace, b]
    have hgrown : (b.stop : Int) = e.stop + (shift + e.growth) := by
      simp only [b, growth]
      omega
    have hbehind : t = head ++ kept ++ old ++ rest := by simp [ht]
    obtain ⟨others, hothers, hspliced⟩ :=
      ih hbehind (by simp only [size_append]; omega) hgrown
    refine ⟨b :: others, by simp [inversesFrom?, hfirst, hothers], ?_⟩
    exact Spliced.edit (e := b) rfl rfl hspliced

/-- Edits in order give the same text together as one at a time from the last to the first. The
edits that take them back are in order for that text, and give the text that was edited. -/
theorem splice_is_stepwise_and_reversible {source : Text} (h : InOrder source es) :
    ∃ code back, splice? source es = some code ∧ makeFromLast? source es = some code ∧
      inverses? source es = some back ∧ InOrder code back ∧ splice? code back = some source := by
  obtain ⟨code, hmade⟩ := h.exists_spliced
  have hshift : ((0 : Nat) : Int) = (0 : Nat) + 0 := rfl
  obtain ⟨back, hback, hundone⟩ :=
    hmade.exists_inverses (List.nil_append source).symm size_nil hshift
  have horder : InOrder code back := hundone.inOrder (List.nil_append code).symm size_nil
  refine ⟨code, back, ?_, ?_, hback, horder, ?_⟩
  · exact (splice?_eq_some_iff h.start_le_stop).mpr hmade
  · exact hmade.makeFromLast? size_nil
  · exact (splice?_eq_some_iff horder.start_le_stop).mpr hundone

def mixedText : Text := "aé€b😀c".toList

/-- An insertion at the start, a removal right behind it, a growing edit that touches it, a
shrinking one further back, and an insertion at the end. -/
def mixedEdits : List Edit :=
  [⟨0, 0, "ü".toList⟩, ⟨0, 1, []⟩, ⟨1, 3, "xyz".toList⟩, ⟨7, 11, "€".toList⟩, ⟨12, 12, "!".toList⟩]

theorem mixed_edits_are_reversible :
    InOrder mixedText mixedEdits ∧
      splice? mixedText mixedEdits = some "üxyz€b€c!".toList ∧
      inverses? mixedText mixedEdits = some [⟨0, 2, []⟩, ⟨2, 2, "a".toList⟩, ⟨2, 5, "é".toList⟩,
        ⟨9, 12, "😀".toList⟩, ⟨13, 14, []⟩] ∧
      ∃ code back, splice? mixedText mixedEdits = some code ∧
        makeFromLast? mixedText mixedEdits = some code ∧
        inverses? mixedText mixedEdits = some back ∧ InOrder code back ∧
        splice? code back = some mixedText := by
  have h : InOrder mixedText mixedEdits := by decide
  exact ⟨h, by decide, by decide, splice_is_stepwise_and_reversible h⟩

end Edit
end ClassScope
