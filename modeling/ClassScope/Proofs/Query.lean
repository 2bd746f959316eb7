import Mathlib.Data.List.Basic
import ClassScope.Proofs.Settings.Layer

/-! Queries as they are written: a list of parameters, each with or without a value. A query is read
by looking for a name behind a question mark or an ampersand; that finds the first parameter of the
name, so a query sets the options that it names and no others. -/
namespace ClassScope

namespace Query
open Text

/-- The name of a parameter. Nothing in it parts the query. -/
structure Key where
  text : Text
  ne_nil : text ≠ []
  bare : ∀ c ∈ text, c ∉ ['?', '&', '#', '=']

/-- The value of a parameter. A plus sign in it would be read as a space. -/
structure Value where
  text : Text
  bare : ∀ c ∈ text, c ∉ ['?', '&', '#', '+']

structure Parameter where
  key : Key
  value : Option Value

def Value.print (v : Value) : Text := v.text.map fun c => if c = ' ' then '+' else c

def Parameter.tail (p : Parameter) : Text :=
  match p.value with
  | none => []
  | some v => '=' :: v.print

def Parameter.print (p : Parameter) : Text := p.key.text ++ p.tail

def Parameter.text (p : Parameter) : Text :=
  match p.value with
  | none => []
  | some v => v.text

def print (ps : List Parameter) : Text := '?' :: Text.join ['&'] (ps.map Parameter.print)

def first? (name : Text) (ps : List Parameter) : Option Text :=
  (ps.find? (·.key.text = name)).map Parameter.text

theorem first?_cons (name : Text) (p : Parameter) (ps : List Parameter) :
    first? name (p :: ps) = if p.key.text = name then some p.text else first? name ps := by
  rw [first?, List.find?_cons]
  by_cases h : p.key.text = name <;> simp [h, first?]

theorem Value.decode_print (v : Value) : decode v.print = v.text := by
  rw [decode, Value.print, List.map_map]
  conv_rhs => rw [← List.map_id v.text]
  refine List.map_congr_left fun c hc => ?_
  have hplus : c ≠ '+' := by
    rintro rfl
    exact v.bare _ hc (by decide)
  by_cases hspace : c = ' ' <;> simp [hspace, hplus]

theorem Value.mem_print {v : Value} {c : Char} (h : c ∈ v.print) : c ∉ ['?', '&', '#'] := by
  obtain ⟨d, hd, rfl⟩ := List.mem_map.mp h
  have hbare := v.bare d hd
  split
  · decide
  · intro hmem
    exact hbare (by simp only [List.mem_cons] at hmem ⊢; tauto)

theorem Parameter.mem_print {p : Parameter} {c : Char} (h : c ∈ p.print) : c ≠ '?' ∧ c ≠ '&' := by
  rcases List.mem_append.mp h with h | h
  · have hbare := p.key.bare c h
    simp only [List.mem_cons, not_or] at hbare
    exact ⟨hbare.1, hbare.2.1⟩
  · unfold Parameter.tail at h
    split at h
    · cases h
    · rcases List.mem_cons.mp h with rfl | h
      · decide
      · have hbare := Value.mem_print h
        simp only [List.mem_cons, not_or] at hbare
        exact ⟨hbare.1, hbare.2.1⟩

/-- Behind a parameter a query is at its end, or the next parameter starts. -/
def EndsParameter (t : Text) : Prop := ∀ c ∈ t.head?, c = '&'

theorem endsParameter_nil : EndsParameter [] := by simp [EndsParameter]

theorem endsParameter_cons (t : Text) : EndsParameter ('&' :: t) := by simp [EndsParameter]

theorem value?_tail (p : Parameter) {t : Text} (ht : EndsParameter t) :
    value? (p.tail ++ t) = some p.text := by
  unfold Parameter.tail Parameter.text
  split
  · cases t with
    | nil => rfl
    | cons c t =>
      obtain rfl : c = '&' := ht c rfl
      rfl
  · rename_i v _
    have hplain : ∀ c ∈ v.print, (!endsValue c) = true := by
      intro c hc
      have hbare := Value.mem_print hc
      simp only [List.mem_cons, not_or] at hbare
      simp [endsValue, hbare]
    have hend : t.takeWhile (!endsValue ·) = [] := by
      cases t with
      | nil => rfl
      | cons c t =>
        obtain rfl : c = '&' := ht c rfl
        rfl
    have hread : (v.print ++ t).takeWhile (!endsValue ·) = v.print := by
      rw [List.takeWhile_append_of_pos hplain, hend, List.append_nil]
    rw [List.cons_append, value?, if_neg (by decide), if_pos rfl, hread, v.decode_print]

theorem head?_tail_append (p : Parameter) {t : Text} (ht : EndsParameter t) :
    ∀ c ∈ (p.tail ++ t).head?, c = '=' ∨ c = '&' := by
  unfold Parameter.tail
  split
  · exact fun c hc => .inr (ht c hc)
  · simp

/-- A name is found at the start of a parameter only if it is the whole name of that parameter. -/
theorem valueAt?_print (name : Key) (p : Parameter) {t : Text} (ht : EndsParameter t) :
    valueAt? name.text (p.print ++ t) =
      if p.key.text = name.text then some p.text else none := by
  rw [valueAt?, Parameter.print, List.append_assoc]
  split
  · rename_i hname
    rw [hname, List.isPrefixOf?_eq_some_iff_append_eq.mpr rfl]
    exact value?_tail p ht
  · rename_i hname
    rw [Option.bind_eq_none_iff]
    intro rest hprefix
    have hsplit := List.isPrefixOf?_eq_some_iff_append_eq.mp hprefix
    rcases List.append_eq_append_iff.mp hsplit with ⟨m, hkey, rfl⟩ | ⟨m, hkey, htail⟩
    · -- The parameter's name goes on behind the name that is sought.
      cases m with
      | nil => exact absurd (by simpa using hkey) hname
      | cons c m =>
        have hbare := p.key.bare c (by simp [hkey])
        simp only [List.mem_cons, not_or] at hbare
        simp [value?, endsValue, hbare]
    · -- The name that is sought would go on with a mark.
      cases m with
      | nil => exact absurd (by simpa using hkey.symm) hname
      | cons c m =>
        have hmark := head?_tail_append p ht c (by simp [htail])
        have hbare := name.bare c (by simp [hkey])
        rcases hmark with rfl | rfl <;> exact absurd (by decide) hbare

theorem scan?_append {name s : Text} (h : ∀ c ∈ s, c ≠ '?' ∧ c ≠ '&') (t : Text) :
    scan? name (s ++ t) = scan? name t := by
  induction s with
  | nil => rfl
  | cons c s ih =>
    obtain ⟨hc, hrest⟩ := List.forall_mem_cons.mp h
    simp [scan?, hc, ih hrest]

theorem scan?_cons_print (name : Key) (p : Parameter) {mark : Char}
    (hmark : mark = '?' ∨ mark = '&') {t : Text} (ht : EndsParameter t) :
    scan? name.text (mark :: (p.print ++ t)) =
      if p.key.text = name.text then some p.text else scan? name.text t := by
  rw [scan?, if_pos hmark, valueAt?_print name p ht, scan?_append fun _ => Parameter.mem_print]
  split <;> rfl

theorem scan?_join_print (name : Key) (ps : List Parameter) {mark : Char}
    (hmark : mark = '?' ∨ mark = '&') :
    scan? name.text (mark :: Text.join ['&'] (ps.map Parameter.print)) =
      first? name.text ps := by
  induction ps generalizing mark with
  | nil =>
    obtain ⟨c, t, hname⟩ := List.exists_cons_of_ne_nil name.ne_nil
    simp [Text.join, scan?, valueAt?, hname, List.isPrefixOf?, first?]
  | cons p ps ih =>
    cases ps with
    | nil =>
      have hlast := scan?_cons_print name p hmark endsParameter_nil
      rw [List.append_nil] at hlast
      rw [first?_cons]
      exact hlast
    | cons q qs =>
      have hnext := ih (.inr rfl : '&' = '?' ∨ '&' = '&')
      have hhere := scan?_cons_print name p hmark
        (endsParameter_cons (Text.join ['&'] ((q :: qs).map Parameter.print)))
      rw [hnext, ← first?_cons] at hhere
      simpa [Text.join] using hhere

theorem param?_print (name : Key) (ps : List Parameter) :
    param? name.text (print ps) = first? name.text ps := by
  rw [param?, if_neg (by simpa using name.ne_nil), print]
  exact scan?_join_print name ps (.inl rfl)

example : param? "a".toList "?ab=1&b=a=2&a=x+y&a=3".toList = some "x y".toList := by decide

end Query

namespace Settings
open Query

/-- The names of the options that a query can set. -/
def scopeKey : Key := ⟨"prefix".toList, by decide, by simp⟩

def attributeKey : Key := ⟨"attributeName".toList, by decide, by simp⟩

def joinKey : Key := ⟨"joinCallName".toList, by decide, by simp⟩

def debuggingKey : Key := ⟨"enableDebugging".toList, by decide, by simp⟩

def onValues : List Text := ["", "true", "1"].map String.toList

def offValues : List Text := ["false", "0"].map String.toList

theorem flag?_eq (value : Text) :
    flag? value =
      if value ∈ onValues then some true else if value ∈ offValues then some false else none := by
  have hread : ∀ {s : String}, String.ofList value = s → value = s.toList := by
    rintro s rfl
    exact String.toList_ofList.symm
  unfold flag?
  split
  case h_6 hempty htrue hone hfalse hzero =>
    have hother : ∀ s ∈ ["", "true", "1", "false", "0"], value ≠ s.toList := by
      rintro s hs rfl
      rw [String.ofList_toList] at hempty htrue hone hfalse hzero
      simp_all
    have hon : value ∉ onValues := by
      simpa [onValues] using
        ⟨hother "" (by simp), hother "true" (by simp), hother "1" (by simp)⟩
    have hoff : value ∉ offValues := by
      simpa [offValues] using ⟨hother "false" (by simp), hother "0" (by simp)⟩
    rw [if_neg hon, if_neg hoff]
  all_goals
    rename_i h
    rw [hread h]
    decide

/-- The settings with every option replaced that a query names, by what the first parameter of its
name says. -/
def overridden (s : Settings) (ps : List Parameter) : Settings where
  scope := (first? scopeKey.text ps).getD s.scope
  debugging := ((first? debuggingKey.text ps).map fun v => decide (v ∈ onValues)).getD s.debugging
  attributeName := (first? attributeKey.text ps).getD s.attributeName
  joinName := (first? joinKey.text ps).getD s.joinName

/-- The first thing that the query says about debugging means something, if it says anything. -/
def ReadsFlag (ps : List Parameter) : Prop :=
  ∀ v ∈ first? debuggingKey.text ps, v ∈ onValues ∨ v ∈ offValues

theorem flag?_of_reads {v : Text} (h : v ∈ onValues ∨ v ∈ offValues) :
    flag? v = some (decide (v ∈ onValues)) := by
  rw [flag?_eq]
  rcases h with hon | hoff
  · simp [hon]
  · by_cases hon : v ∈ onValues <;> simp [hon, hoff]

theorem applyQuery_of_readsFlag (s : Settings) {ps : List Parameter} (h : ReadsFlag ps) :
    s.applyQuery (print ps) = (s.overridden ps).validated := by
  have hscope : param? "prefix".toList (print ps) = first? scopeKey.text ps :=
    param?_print scopeKey ps
  have hattribute : param? "attributeName".toList (print ps) = first? attributeKey.text ps :=
    param?_print attributeKey ps
  have hjoin : param? "joinCallName".toList (print ps) = first? joinKey.text ps :=
    param?_print joinKey ps
  have hdebugging : param? "enableDebugging".toList (print ps) = first? debuggingKey.text ps :=
    param?_print debuggingKey ps
  have hread : FlagIsRead (print ps) := by
    intro v hv
    rw [hdebugging] at hv
    rw [flag?_of_reads (h v hv), Option.isSome_some]
  have hflag : (first? debuggingKey.text ps).bind flag? =
      (first? debuggingKey.text ps).map fun v => decide (v ∈ onValues) := by
    cases hfirst : first? debuggingKey.text ps with
    | none => rfl
    | some v => exact flag?_of_reads (h v hfirst)
  rw [applyQuery_of_flagIsRead s hread, Layer.ofQuery, hscope, hattribute, hjoin, hdebugging, hflag]
  rfl

theorem applyQuery_of_not_readsFlag (s : Settings) {ps : List Parameter} {v : Text}
    (hfirst : first? debuggingKey.text ps = some v) (hon : v ∉ onValues) (hoff : v ∉ offValues) :
    s.applyQuery (print ps) = .error (.badValue debuggingKey.text v) := by
  have hdebugging : param? "enableDebugging".toList (print ps) = some v :=
    (param?_print debuggingKey ps).trans hfirst
  have hflag : flag? v = none := by rw [flag?_eq, if_neg hon, if_neg hoff]
  exact applyQuery_of_flag?_eq_none s hdebugging hflag

/-- Every name in a query has what the first parameter of that name says. Applied to settings, the
query gives them with the options replaced that it names, and fails only if what it says about
debugging means nothing or, failing that, if the new settings are not usable. -/
theorem query_sets_named_options (s : Settings) (ps : List Parameter) :
    (∀ name : Key, param? name.text (print ps) = first? name.text ps) ∧
    (∀ s', s.applyQuery (print ps) = .ok s' ↔
      ReadsFlag ps ∧ s' = s.overridden ps ∧ s'.fault? = none) ∧
    ∀ f, s.applyQuery (print ps) = .error f ↔
      (∃ v, first? debuggingKey.text ps = some v ∧ v ∉ onValues ∧ v ∉ offValues ∧
        f = .badValue debuggingKey.text v) ∨
      ReadsFlag ps ∧ (s.overridden ps).fault? = some f := by
  refine ⟨fun name => param?_print name ps, ?_⟩
  by_cases hflag : ReadsFlag ps
  · have hread : ∀ f v, ¬ (first? debuggingKey.text ps = some v ∧ v ∉ onValues ∧ v ∉ offValues ∧
        f = Fault.badValue debuggingKey.text v) := by
      rintro f v ⟨hfirst, hon, hoff, -⟩
      exact (hflag v hfirst).elim hon hoff
    rw [applyQuery_of_readsFlag s hflag]
    refine ⟨fun s' => ?_, fun f => ?_⟩
    · rw [validated_eq_ok_iff]
      exact ⟨fun h => ⟨hflag, h⟩, fun h => h.2⟩
    · rw [validated_eq_error_iff]
      exact ⟨fun h => .inr ⟨hflag, h⟩, fun h => (h.resolve_left fun ⟨v, hv⟩ => hread f v hv).2⟩
  · obtain ⟨v, hfirst, hon, hoff⟩ : ∃ v, first? debuggingKey.text ps = some v ∧ v ∉ onValues ∧
        v ∉ offValues := by simpa [ReadsFlag] using hflag
    rw [applyQuery_of_not_readsFlag s hfirst hon hoff]
    refine ⟨fun s' => ⟨nofun, fun h => absurd h.1 hflag⟩, fun f => ⟨?_, ?_⟩⟩
    · rintro ⟨⟩
      exact .inl ⟨v, hfirst, hon, hoff, rfl⟩
    · rintro (⟨w, hfirst', -, -, rfl⟩ | ⟨h, -⟩)
      · obtain rfl : v = w := Option.some.inj (hfirst.symm.trans hfirst')
        rfl
      · exact absurd h hflag

def twoWords : Value := ⟨"class name".toList, by simp⟩

def assigning : Value := ⟨"ui=a".toList, by simp⟩

def vague : Value := ⟨"maybe".toList, by simp⟩

/-- Parameters with a value, without one, and named twice. -/
def mixedParameters : List Parameter :=
  [⟨attributeKey, some twoWords⟩, ⟨debuggingKey, none⟩, ⟨scopeKey, some assigning⟩,
    ⟨scopeKey, some twoWords⟩, ⟨debuggingKey, some vague⟩]

theorem mixed_parameters_are_applied :
    print mixedParameters = ("?attributeName=class+name&enableDebugging&prefix=ui=a" ++
      "&prefix=class+name&enableDebugging=maybe").toList ∧
    param? "prefix".toList (print mixedParameters) = some "ui=a".toList ∧
    defaults.applyQuery (print mixedParameters) =
      .ok ⟨"ui=a".toList, true, "class name".toList, "classnames".toList⟩ ∧
    defaults.applyQuery (print mixedParameters.reverse) =
      .error (.badValue "enableDebugging".toList "maybe".toList) := by
  obtain ⟨hname, hok, -⟩ := query_sets_named_options defaults mixedParameters
  obtain ⟨-, -, herror⟩ := query_sets_named_options defaults mixedParameters.reverse
  have hfirst : first? debuggingKey.text mixedParameters = some [] := rfl
  have hreads : ReadsFlag mixedParameters := by
    intro v hv
    rw [hfirst] at hv
    cases hv
    exact .inl (by decide)
  refine ⟨by decide, hname scopeKey, (hok _).mpr ⟨hreads, by decide, by decide⟩, ?_⟩
  exact (herror _).mpr (.inl ⟨"maybe".toList, rfl, by decide, by decide, rfl⟩)

end Settings
end ClassScope
