import ClassScope.Proofs.Ledger
import ClassScope.Proofs.Text.Slice
import ClassScope.Transform

/-! Moving everything by the same number of bytes: rewrites, the ledger they make, the edits in it,
and what a text becomes that got something in front. -/
namespace ClassScope

namespace Edit
open Text

def moved (n : Nat) (e : Edit) : Edit := ⟨e.start + n, e.stop + n, e.replacement⟩

end Edit

namespace Text

variable {front t : Text}

theorem dropBytes?_front (n : Nat) :
    dropBytes? (n + size front) (front ++ t) = dropBytes? n t := by
  refine Option.ext fun u => ?_
  rw [dropBytes?_eq_some_iff, dropBytes?_eq_some_iff]
  constructor
  · rintro ⟨head, hs, hn⟩
    obtain ⟨kept, rfl, rfl⟩ := append_eq_append_of_size_le hs (by omega)
    exact ⟨kept, rfl, by rw [size_append] at hn; omega⟩
  · rintro ⟨head, rfl, rfl⟩
    exact ⟨front ++ head, by simp, by rw [size_append]; omega⟩

theorem slice?_front (start stop : Nat) :
    slice? (start + size front) (stop + size front) (front ++ t) = slice? start stop t := by
  unfold slice?
  rw [dropBytes?_front, Nat.add_sub_add_right]
  simp only [Nat.add_le_add_iff_right]

/-- What stands in front of a text is part of its first piece. -/
theorem slice?_zero_front (stop : Nat) :
    slice? 0 (stop + size front) (front ++ t) = (slice? 0 stop t).map (front ++ ·) := by
  refine Option.ext fun u => ?_
  rw [slice?_eq_some_iff, Option.map_eq_some_iff]
  constructor
  · rintro ⟨head, rest, hs, hhead, hu⟩
    obtain rfl := size_eq_zero_iff.mp hhead
    rw [List.nil_append] at hs
    obtain ⟨kept, rfl, rfl⟩ := append_eq_append_of_size_le hs (by omega)
    exact ⟨kept, slice?_eq_some_iff.mpr ⟨[], rest, rfl, rfl, by rw [size_append] at hu; omega⟩, rfl⟩
  · rintro ⟨kept, hk, rfl⟩
    obtain ⟨head, rest, rfl, hhead, hu⟩ := slice?_eq_some_iff.mp hk
    obtain rfl := size_eq_zero_iff.mp hhead
    exact ⟨[], rest, by simp, rfl, by rw [size_append]; omega⟩

end Text

namespace Edit
open Text

variable {front t : Text}

theorem spliceFrom?_moved (n : Nat) (es : List Edit) :
    spliceFrom? (front ++ t) (n + size front) (es.map (moved (size front))) =
      spliceFrom? t n es := by
  induction es generalizing n with
  | nil => exact dropBytes?_front n
  | cons e es ih =>
    rw [List.map_cons, spliceFrom?, spliceFrom?, moved, slice?_front, ih]

/-- Edits that are moved behind a front leave the front as it is. -/
theorem splice?_moved (front t : Text) (es : List Edit) :
    splice? (front ++ t) (es.map (moved (size front))) = (splice? t es).map (front ++ ·) := by
  cases es with
  | nil => simp
  | cons e es =>
    rw [splice?, splice?, List.map_cons, spliceFrom?, spliceFrom?, moved, slice?_zero_front,
      spliceFrom?_moved]
    cases slice? 0 e.start t with
    | none => rfl
    | some kept => cases spliceFrom? t e.stop es <;> simp

end Edit

namespace Rewrite

def moved (n : Nat) (r : Rewrite) : Rewrite :=
  { r with literal := { r.literal with start := r.literal.start + n, stop := r.literal.stop + n } }

@[simp] theorem edit_moved (n : Nat) (r : Rewrite) : (r.moved n).edit = r.edit.moved n := rfl

@[simp] theorem event_moved (n : Nat) (r : Rewrite) : (r.moved n).event = r.event := rfl

end Rewrite

namespace Ledger

def moved (n : Nat) (b : Ledger) : Ledger := { b with edits := b.edits.map (Edit.moved n) }

theorem insert_moved (n : Nat) (e : Edit) (es : List Edit) :
    insert (e.moved n) (es.map (Edit.moved n)) = (insert e es).map (Edit.moved n) := by
  induction es with
  | nil => rfl
  | cons f fs ih =>
    have hlt : (e.moved n).start < (f.moved n).start ↔ e.start < f.start :=
      Nat.add_lt_add_iff_right
    rw [List.map_cons, insert, insert]
    by_cases h : e.start < f.start
    · rw [if_pos h, if_pos (hlt.mpr h), List.map_cons, List.map_cons]
    · rw [if_neg h, if_neg (fun h' => h (hlt.mp h')), ih, List.map_cons]

theorem isTaken_moved (n : Nat) (b : Ledger) (start : Nat) :
    (b.moved n).isTaken (start + n) = b.isTaken start := by
  rw [Bool.eq_iff_iff, isTaken_iff, isTaken_iff]
  constructor
  · rintro ⟨e, he, hstart⟩
    obtain ⟨f, hf, rfl⟩ := List.mem_map.mp he
    exact ⟨f, hf, Nat.add_right_cancel hstart⟩
  · rintro ⟨f, hf, rfl⟩
    exact ⟨_, List.mem_map_of_mem hf, rfl⟩

theorem write_moved (n : Nat) (r : Rewrite) (b : Ledger) :
    (write (r.moved n).literal (r.moved n).updated (b.moved n)).2 =
      ((write r.literal r.updated b).2).moved n := by
  have htaken := isTaken_moved n b r.literal.start
  by_cases hc : r.Counts
  · have hcm : (r.moved n).Counts := hc
    cases hfree : b.isTaken r.literal.start with
    | true => rw [write_of_taken hfree, write_of_taken (htaken.trans hfree)]
    | false =>
      rw [write_of_counts hc hfree, write_of_counts hcm (htaken.trans hfree)]
      simp [moved, insert_moved]
  · have hcm : ¬ (r.moved n).Counts := hc
    rw [write_of_not_counts hc, write_of_not_counts hcm]

theorem enter_moved (n : Nat) (rs : List Rewrite) (b : Ledger) :
    (b.moved n).enter (rs.map (Rewrite.moved n)) = (b.enter rs).moved n := by
  induction rs generalizing b with
  | nil => rfl
  | cons r rs ih => rw [List.map_cons, enter_cons, enter_cons, write_moved, ih]

/-- Only the rewrites that count are entered. -/
theorem enter_filter_counts (rs : List Rewrite) (b : Ledger) :
    b.enter (rs.filter (·.Counts)) = b.enter rs := by
  induction rs generalizing b with
  | nil => rfl
  | cons r rs ih =>
    by_cases hc : r.Counts
    · rw [List.filter_cons_of_pos (by simpa using hc), enter_cons, enter_cons, ih]
    · rw [List.filter_cons_of_neg (by simpa using hc), enter_cons, write_of_not_counts hc, ih]

end Ledger
end ClassScope
