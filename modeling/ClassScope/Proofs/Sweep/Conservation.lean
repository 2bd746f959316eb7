import ClassScope.Proofs.Sweep.Strips

/-! What a sweep leaves of a text. Blanks aside, every character of the text is there after the
sweep, in the same order, and what has come in between is the scope and a hyphen for each name of
each string that is reported, even where the second pass takes up what the first one wrote. -/
namespace ClassScope

namespace Text

theorem solid_append (s t : Text) : solid (s ++ t) = solid s ++ solid t := List.filter_append ..

end Text

namespace ClassList
open Text

theorem flatten_sublist_qualified (scope : Text) (ws : List Text) :
    ws.flatten.Sublist (ws.map (qualifyName scope)).flatten := by
  induction ws with
  | nil => exact .slnil
  | cons w ws ih =>
    have hname : w.Sublist (qualifyName scope w) :=
      (List.sublist_cons_self '-' w).trans (List.sublist_append_right scope _)
    rw [List.map_cons, List.flatten_cons, List.flatten_cons]
    exact hname.append ih

theorem solid_sublist_qualify {scope : Text} (hscope : ∀ c ∈ scope, isBlank c = false) (t : Text) :
    (solid t).Sublist (solid (qualify scope t)) := by
  rw [← flatten_words, ← flatten_words, words_qualify hscope]
  exact flatten_sublist_qualified scope (words t)

end ClassList

namespace Sweep
open Text Strip

def nameCount (events : List Event) : Nat := (events.flatMap fun e => words e.before).length

theorem nameCount_append (es fs : List Event) :
    nameCount (es ++ fs) = nameCount es + nameCount fs := by
  simp [nameCount]

section Rows

variable {scope : Text} {p : List Strip}

/-- A row of strips loses nothing but blanks. -/
theorem solid_source_sublist_target (hscope : ∀ c ∈ scope, isBlank c = false)
    (hp : ∀ e ∈ events p, Qualifies scope e) :
    (solid (source p)).Sublist (solid (target p)) := by
  induction p with
  | nil => exact .slnil
  | cons s p ih =>
    cases s with
    | kept c =>
      have hsource : solid (source (kept c :: p)) = solid [c] ++ solid (source p) :=
        solid_append [c] (source p)
      have htarget : solid (target (kept c :: p)) = solid [c] ++ solid (target p) :=
        solid_append [c] (target p)
      rw [hsource, htarget]
      exact (List.Sublist.refl _).append (ih hp)
    | changed e =>
      obtain ⟨he, hrest⟩ := List.forall_mem_cons.mp hp
      have hafter : e.after = ClassList.qualify scope e.before := he
      rw [source_changed, target_changed, solid_append, solid_append, hafter]
      exact (ClassList.solid_sublist_qualify hscope e.before).append (ih hrest)

end Rows

theorem run_of_valid {settings : Settings} (hvalid : settings.fault? = none) (t : Text) :
    run settings t = .ok (sweep settings t) := by
  simp [run, Settings.validated, hvalid, Except.map]

/-- A sweep with usable settings gives a result. It keeps every character of the text that is not
blank, in order, and the number of those characters grows by the scope and a hyphen for each name in
the old texts of the events. -/
theorem sweep_keeps_solid_text {settings : Settings} (hvalid : settings.fault? = none) (t : Text) :
    ∃ pass, run settings t = .ok pass ∧ (solid t).Sublist (solid pass.code) ∧
      (solid pass.code).length =
        (solid t).length + nameCount pass.events * (settings.scope.length + 1) := by
  refine ⟨sweep settings t, run_of_valid hvalid t, ?_⟩
  by_cases hempty : settings.scope = []
  · have hsweep : sweep settings t = ⟨t, []⟩ := by simp [sweep, hempty]
    rw [hsweep]
    exact ⟨List.Sublist.refl _, by simp [nameCount]⟩
  · have hscope := Settings.scope_solid hvalid
    -- The first row starts from the text, the second from what the first one ends with.
    let p := joinStrips settings.scope settings.joinName t
    let q := attributeStrips settings.scope settings.attributeName (target p)
    have hp : ∀ e ∈ events p, Qualifies settings.scope e := qualifies_joinStrips _ _ _
    have hq : ∀ e ∈ events q, Qualifies settings.scope e := qualifies_attributeStrips _ _ _
    have hsource : source p = t := source_joinStrips _ _ _
    have hmiddle : source q = target p := source_attributeStrips _ _ _
    have hfirst := solid_source_sublist_target hscope hp
    have hsecond := solid_source_sublist_target hscope hq
    have hgrowth := length_solid_target hscope hp
    have hgrowth' := length_solid_target hscope hq
    rw [hsource] at hfirst hgrowth
    rw [hmiddle] at hsecond hgrowth'
    rw [sweep_eq hempty t]
    refine ⟨hfirst.trans hsecond, ?_⟩
    calc (solid (target q)).length
        = (solid (target p)).length +
            nameCount (events q) * (settings.scope.length + 1) := hgrowth'
      _ = (solid t).length + nameCount (events p) * (settings.scope.length + 1) +
            nameCount (events q) * (settings.scope.length + 1) := congrArg (· + _) hgrowth
      _ = (solid t).length +
            nameCount (events p ++ events q) * (settings.scope.length + 1) := by
          rw [nameCount_append, Nat.add_mul, Nat.add_assoc]

def wideProperty : Text := "classnames(\x7bclassName : ' a  b '\x7d)".toList

theorem wide_property_keeps_solid_text :
    Settings.defaults.fault? = none ∧
      ∃ pass, run Settings.defaults wideProperty = .ok pass ∧
        pass.code = "classnames(\x7bclassName : 'app-app-a app-app-b'\x7d)".toList ∧
        nameCount pass.events = 4 ∧ (solid wideProperty).Sublist (solid pass.code) ∧
        (solid pass.code).length = (solid wideProperty).length + 4 * (3 + 1) := by
  have hvalid : Settings.defaults.fault? = none := by decide +kernel
  obtain ⟨pass, hpass, hkept, hgrowth⟩ := sweep_keeps_solid_text hvalid wideProperty
  have hsweep : pass = sweep Settings.defaults wideProperty :=
    Except.ok.inj (hpass.symm.trans (run_of_valid hvalid wideProperty))
  have hcount : nameCount pass.events = 4 := by
    rw [hsweep]
    decide +kernel
  refine ⟨hvalid, pass, hpass, ?_, hcount, hkept, ?_⟩
  · rw [hsweep]
    decide +kernel
  · rw [hgrowth, hcount]
    rfl

end Sweep
end ClassScope
