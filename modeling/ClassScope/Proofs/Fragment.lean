import Mathlib.Data.List.Basic
import ClassScope.Proofs.Settings.Layer

/-! Fragments of queries, which a number sign parts from what stands in front. The sign ends a name
and a value, but the search for a name does not end at it. So no fragment changes what the query
says, and of what the query does not name the fragment is read as one more query. -/
namespace ClassScope

namespace Query
open Text

section Sign

variable {name query fragment v : Text}

theorem takeWhile_append_sign (value fragment : Text) :
    (value ++ '#' :: fragment).takeWhile (!endsValue ·) = value.takeWhile (!endsValue ·) := by
  induction value with
  | nil => rfl
  | cons c value ih => by_cases hc : endsValue c <;> simp [hc, ih]

theorem value?_append_sign (t fragment : Text) : value? (t ++ '#' :: fragment) = value? t := by
  cases t with
  | nil => rfl
  | cons c t => rw [List.cons_append, value?, value?, takeWhile_append_sign]

theorem valueAt?_eq_some_iff {t : Text} :
    valueAt? name t = some v ↔ ∃ rest, name ++ rest = t ∧ value? rest = some v := by
  simp only [valueAt?, Option.bind_eq_some_iff, List.isPrefixOf?_eq_some_iff_append_eq]

/-- The name goes on over the sign: it is the text, the sign and the start of the fragment. -/
def ReachesOver (name t fragment : Text) : Prop :=
  ∃ rest behind, name = t ++ '#' :: rest ∧ fragment = rest ++ behind ∧
    (value? behind).isSome = true

theorem valueAt?_append_sign_of_some {t : Text} (h : valueAt? name t = some v) (fragment : Text) :
    valueAt? name (t ++ '#' :: fragment) = some v := by
  obtain ⟨rest, rfl, hvalue⟩ := valueAt?_eq_some_iff.mp h
  exact valueAt?_eq_some_iff.mpr
    ⟨rest ++ '#' :: fragment, by simp, (value?_append_sign rest fragment).trans hvalue⟩

theorem valueAt?_append_sign_of_none {t : Text} (h : valueAt? name t = none) :
    valueAt? name (t ++ '#' :: fragment) = none ↔ ¬ ReachesOver name t fragment := by
  constructor
  · rintro hnone ⟨rest, behind, rfl, rfl, hvalue⟩
    obtain ⟨w, hw⟩ := Option.isSome_iff_exists.mp hvalue
    have hfound : valueAt? (t ++ '#' :: rest) (t ++ '#' :: (rest ++ behind)) = some w :=
      valueAt?_eq_some_iff.mpr ⟨behind, by simp, hw⟩
    simp [hnone] at hfound
  · intro hreach
    rw [Option.eq_none_iff_forall_ne_some]
    intro w hw
    obtain ⟨rest, hsplit, hvalue⟩ := valueAt?_eq_some_iff.mp hw
    rcases List.append_eq_append_iff.mp hsplit with ⟨m, rfl, rfl⟩ | ⟨m, rfl, hsign⟩
    · rw [value?_append_sign] at hvalue
      simp [valueAt?_eq_some_iff.mpr ⟨m, rfl, hvalue⟩] at h
    · cases m with
      | nil =>
        have hend : valueAt? (t ++ []) t = some [] :=
          valueAt?_eq_some_iff.mpr ⟨[], by simp, rfl⟩
        cases h.symm.trans hend
      | cons c m =>
        obtain ⟨rfl, rfl⟩ := List.cons.inj hsign
        exact hreach ⟨m, rest, rfl, rfl, by simp [hvalue]⟩

/-- A name that is found is shorter than the text, because a mark stands in front of it. -/
theorem length_lt_of_scan? (h : scan? name query = some v) : name.length < query.length := by
  induction query with
  | nil => cases h
  | cons c t ih =>
    rw [scan?] at h
    rw [List.length_cons]
    split at h
    · rcases Option.or_eq_some_iff.mp h with hhere | ⟨-, hlater⟩
      · obtain ⟨rest, rfl, -⟩ := valueAt?_eq_some_iff.mp hhere
        rw [List.length_append]
        omega
      · have := ih hlater
        omega
    · have := ih h
      omega

/-- Somewhere in the query the name starts behind a mark and goes on over the sign. -/
def Straddles (name query fragment : Text) : Prop :=
  ∃ front mark start, query = front ++ mark :: start ∧ (mark = '?' ∨ mark = '&') ∧
    ReachesOver name start fragment

theorem not_straddles_nil : ¬ Straddles name [] fragment := by
  rintro ⟨front, mark, start, h, -⟩
  simp at h

theorem straddles_cons_iff {c : Char} :
    Straddles name (c :: query) fragment ↔
      (c = '?' ∨ c = '&') ∧ ReachesOver name query fragment ∨ Straddles name query fragment := by
  constructor
  · rintro ⟨front, mark, start, hsplit, hmark, hreach⟩
    rcases List.cons_eq_append_iff.mp hsplit with ⟨-, hhere⟩ | ⟨front, -, rfl⟩
    · obtain ⟨rfl, rfl⟩ := List.cons.inj hhere
      exact .inl ⟨hmark, hreach⟩
    · exact .inr ⟨front, mark, start, rfl, hmark, hreach⟩
  · rintro (⟨hmark, hreach⟩ | ⟨front, mark, start, rfl, hmark, hreach⟩)
    · exact ⟨[], c, query, rfl, hmark, hreach⟩
    · exact ⟨c :: front, mark, start, rfl, hmark, hreach⟩

theorem scan?_append_sign_of_some (h : scan? name query = some v) (fragment : Text) :
    scan? name (query ++ '#' :: fragment) = some v := by
  induction query with
  | nil => cases h
  | cons c t ih =>
    rw [scan?] at h
    rw [List.cons_append, scan?]
    split
    · rename_i hmark
      rw [if_pos hmark] at h
      rcases Option.or_eq_some_iff.mp h with hhere | ⟨hnone, hlater⟩
      · rw [valueAt?_append_sign_of_some hhere, Option.some_or]
      · -- The name is found further on, so it is too short to reach over the sign from here.
        have hshort := length_lt_of_scan? hlater
        have hreach : ¬ ReachesOver name t fragment := by
          rintro ⟨rest, -, rfl, -⟩
          rw [List.length_append] at hshort
          omega
        rw [(valueAt?_append_sign_of_none hnone).mpr hreach, ih hlater, Option.none_or]
    · rename_i hmark
      rw [if_neg hmark] at h
      exact ih h

/-- What a query does not say, nothing says with the fragment unless the name goes on over the sign
or the fragment says it. -/
theorem scan?_append_sign_of_none (h : scan? name query = none) :
    scan? name (query ++ '#' :: fragment) = none ↔
      ¬ Straddles name query fragment ∧ scan? name fragment = none := by
  induction query with
  | nil => simp [scan?, not_straddles_nil]
  | cons c t ih =>
    rw [scan?] at h
    rw [List.cons_append, scan?, straddles_cons_iff]
    by_cases hmark : c = '?' ∨ c = '&'
    · rw [if_pos hmark] at h ⊢
      obtain ⟨hhere, hlater⟩ := Option.or_eq_none_iff.mp h
      rw [Option.or_eq_none_iff, valueAt?_append_sign_of_none hhere, ih hlater, not_or, and_assoc,
        and_iff_right hmark]
    · rw [if_neg hmark] at h ⊢
      rw [ih h, or_iff_right fun hreach => hmark hreach.1]

theorem scan?_append_sign (hname : '#' ∉ name) (query fragment : Text) :
    scan? name (query ++ '#' :: fragment) = (scan? name query).or (scan? name fragment) := by
  induction query with
  | nil => simp [scan?]
  | cons c t ih =>
    have hreach : ¬ ReachesOver name t fragment := by
      rintro ⟨rest, behind, rfl, -⟩
      simp at hname
    have hhere : valueAt? name (t ++ '#' :: fragment) = valueAt? name t := by
      cases hvalue : valueAt? name t with
      | some w => exact valueAt?_append_sign_of_some hvalue fragment
      | none => exact (valueAt?_append_sign_of_none hvalue).mpr hreach
    rw [List.cons_append, scan?, scan?, hhere, ih]
    split
    · rw [Option.or_assoc]
    · rfl

theorem param?_of_ne_nil (h : name ≠ []) (t : Text) : param? name t = scan? name t := by
  rw [param?, if_neg (by simpa using h)]

theorem param?_append_sign (hname : '#' ∉ name) (query fragment : Text) :
    param? name (query ++ '#' :: fragment) = (param? name query).or (param? name fragment) := by
  by_cases hnil : name = []
  · simp [param?, hnil]
  · simp only [param?_of_ne_nil hnil, scan?_append_sign hname]

/-- A fragment makes no difference to a name exactly if the query says something for the name, or
the name neither reaches over the sign nor stands in the fragment. -/
theorem param?_append_sign_eq_iff :
    param? name (query ++ '#' :: fragment) = param? name query ↔
      (param? name query).isSome = true ∨
        ¬ Straddles name query fragment ∧ param? name fragment = none := by
  by_cases hnil : name = []
  · subst hnil
    simp [param?, Straddles, ReachesOver]
  · simp only [param?_of_ne_nil hnil]
    cases hquery : scan? name query with
    | some v => simp [scan?_append_sign_of_some hquery]
    | none => simp [scan?_append_sign_of_none hquery]

end Sign

end Query

namespace Settings
open Query

def optionNames : List Text :=
  ["prefix", "enableDebugging", "attributeName", "joinCallName"].map String.toList

theorem sign_not_mem_optionNames : ∀ name ∈ optionNames, '#' ∉ name := by decide

theorem applyQuery_congr {query other : Text}
    (h : ∀ name ∈ optionNames, param? name query = param? name other) (s : Settings) :
    s.applyQuery query = s.applyQuery other := by
  have hscope := h "prefix".toList (by decide)
  have hdebugging := h "enableDebugging".toList (by decide)
  have hattribute := h "attributeName".toList (by decide)
  have hjoin := h "joinCallName".toList (by decide)
  rw [applyQuery, applyQuery, hscope, hattribute, hjoin, hdebugging]

/-- Of what the query does not name, the fragment speaks in its place. -/
theorem ofQuery_append_sign {query : Text} (h : FlagIsRead query) (fragment : Text) :
    Layer.ofQuery (query ++ '#' :: fragment) =
      (Layer.ofQuery query).onto (Layer.ofQuery fragment) := by
  have hparam : ∀ name ∈ optionNames, param? name (query ++ '#' :: fragment) =
      (param? name query).or (param? name fragment) :=
    fun name hname => param?_append_sign (sign_not_mem_optionNames name hname) query fragment
  have hscope := hparam "prefix".toList (by decide)
  have hdebugging := hparam "enableDebugging".toList (by decide)
  have hattribute := hparam "attributeName".toList (by decide)
  have hjoin := hparam "joinCallName".toList (by decide)
  have hflag : (param? "enableDebugging".toList (query ++ '#' :: fragment)).bind flag? =
      ((param? "enableDebugging".toList query).bind flag?).or
        ((param? "enableDebugging".toList fragment).bind flag?) := by
    rw [hdebugging]
    cases hfirst : param? "enableDebugging".toList query with
    | none => rfl
    | some v =>
      obtain ⟨on, hon⟩ := Option.isSome_iff_exists.mp (h v hfirst)
      simp only [Option.some_or, Option.bind_some, hon]
  rw [Layer.ofQuery, hscope, hflag, hattribute, hjoin]
  rfl

/-- A fragment that could be a query of its own is a layer of settings under the query. -/
theorem applyQuery_append_sign {s s' : Settings} {fragment : Text}
    (h : s.applyQuery fragment = .ok s') (query : Text) :
    s.applyQuery (query ++ '#' :: fragment) = s'.applyQuery query := by
  obtain ⟨hfragment, rfl, -⟩ := applyQuery_eq_ok_iff.mp h
  have hparam : param? "enableDebugging".toList (query ++ '#' :: fragment) =
      (param? "enableDebugging".toList query).or (param? "enableDebugging".toList fragment) :=
    param?_append_sign (by decide) query fragment
  by_cases hquery : FlagIsRead query
  · have hread : FlagIsRead (query ++ '#' :: fragment) := by
      intro v hv
      rw [hparam] at hv
      rcases Option.or_eq_some_iff.mp hv with hfirst | ⟨-, hsecond⟩
      · exact hquery v hfirst
      · exact hfragment v hsecond
    rw [applyQuery_of_flagIsRead s hread, applyQuery_of_flagIsRead _ hquery,
      ofQuery_append_sign hquery, Layer.cover_onto]
  · obtain ⟨v, hv, hflag⟩ := exists_of_not_flagIsRead hquery
    rw [hv, Option.some_or] at hparam
    rw [applyQuery_of_flag?_eq_none s hparam hflag, applyQuery_of_flag?_eq_none _ hv hflag]

/-- A fragment is read as one more query. What the query in front of it says stays; beyond that a
name is found in the fragment, or it holds the sign and reaches over it. Settings can only differ by
an option that the fragment names and the query does not, and a fragment that is a query by itself
is a layer under the query. -/
theorem fragment_is_read_on (query fragment : Text) :
    (∀ name, param? name (query ++ '#' :: fragment) = param? name query ↔
      (param? name query).isSome = true ∨
        ¬ Straddles name query fragment ∧ param? name fragment = none) ∧
    (∀ name, '#' ∉ name → param? name (query ++ '#' :: fragment) =
      (param? name query).or (param? name fragment)) ∧
    (∀ s : Settings, s.applyQuery (query ++ '#' :: fragment) = s.applyQuery query ∨
      ∃ name ∈ optionNames, param? name query = none ∧ (param? name fragment).isSome = true) ∧
    ∀ s s' : Settings, s.applyQuery fragment = .ok s' →
      s.applyQuery (query ++ '#' :: fragment) = s'.applyQuery query := by
  refine ⟨fun name => param?_append_sign_eq_iff,
    fun name hname => param?_append_sign hname query fragment, fun s => ?_,
    fun s s' h => applyQuery_append_sign h query⟩
  by_cases hnamed : ∃ name ∈ optionNames, param? name query = none ∧
      (param? name fragment).isSome = true
  · exact .inr hnamed
  · refine .inl (applyQuery_congr (fun name hname => ?_) s)
    rw [param?_append_sign (sign_not_mem_optionNames name hname)]
    cases hquery : param? name query with
    | some v => rfl
    | none =>
      rw [Option.none_or, ← Option.not_isSome_iff_eq_none]
      exact fun hfragment => hnamed ⟨name, hname, hquery, hfragment⟩

theorem fragment_sets_scope :
    param? "prefix".toList "?a=1#?prefix=ui".toList = some "ui".toList ∧
      param? "prefix".toList "?a=1".toList = none ∧
      defaults.applyQuery "?a=1#?prefix=ui".toList ≠ defaults.applyQuery "?a=1".toList := by
  obtain ⟨-, hor, -, hlayer⟩ := fragment_is_read_on "?a=1".toList "?prefix=ui".toList
  have hquery : param? "prefix".toList "?a=1".toList = none := by decide
  have hfragment : param? "prefix".toList "?prefix=ui".toList = some "ui".toList := by decide
  have happlied : defaults.applyQuery "?prefix=ui".toList =
      .ok { defaults with scope := "ui".toList } := by rfl
  have hwhole := hlayer defaults _ happlied
  refine ⟨?_, hquery, ?_⟩
  · exact (hor "prefix".toList (by decide)).trans (by rw [hquery, hfragment, Option.none_or])
  · intro hsame
    have hset : Except.ok { defaults with scope := "ui".toList } =
        defaults.applyQuery "?a=1".toList := hwhole.symm.trans hsame
    cases hset

end Settings
end ClassScope
