import ClassScope.Proofs.Enclosure
import ClassScope.Proofs.Sweep.Closing
import ClassScope.Proofs.Sweep.Strips

/-! The lines that a sweep reports. The second pass counts lines in what the first one wrote, and
the first one joins names with spaces, so that line feeds between them are lost: an attribute behind
them is reported that many lines too early. -/
namespace ClassScope

namespace Text

theorem lineFeeds_append (s t : Text) : lineFeeds (s ++ t) = lineFeeds s + lineFeeds t :=
  List.count_append ..

theorem lineFeeds_eq_zero_iff {t : Text} : lineFeeds t = 0 ↔ '\n' ∉ t := List.count_eq_zero

end Text

namespace ClassList
open Text

theorem lineFeeds_qualify {scope : Text} (hscope : ∀ c ∈ scope, isBlank c = false) (t : Text) :
    lineFeeds (qualify scope t) = 0 := by
  rw [lineFeeds_eq_zero_iff]
  intro hmem
  rcases mem_join_space hmem with ⟨w, hw, hc⟩ | hspace
  · have hsolid := (qualified_names_solid hscope t w hw).2 _ hc
    cases hsolid
  · cases hspace

theorem getLast?_qualifyName (scope : Text) {w : Text} (hw : w ≠ []) :
    (qualifyName scope w).getLast? = w.getLast? := by
  rw [qualifyName, List.getLast?_append_cons]
  exact List.getLast?_append_of_ne_nil ['-'] hw

theorem getLast?_flatten_map_qualifyName (scope : Text) {ws : List Text} (hws : ∀ w ∈ ws, w ≠ []) :
    (ws.map (qualifyName scope)).flatten.getLast? = ws.flatten.getLast? := by
  induction ws with
  | nil => rfl
  | cons w ws ih =>
    obtain ⟨hw, hrest⟩ := List.forall_mem_cons.mp hws
    simp only [List.map_cons, List.flatten_cons, List.getLast?_append, ih hrest,
      getLast?_qualifyName scope hw]

theorem getLast?_solid_qualify {scope : Text} (hscope : ∀ c ∈ scope, isBlank c = false) (t : Text) :
    (solid (qualify scope t)).getLast? = (solid t).getLast? := by
  rw [← flatten_words, ← flatten_words, words_qualify hscope,
    getLast?_flatten_map_qualifyName scope fun _ => ne_nil_of_mem_words]

end ClassList

namespace Sweep
open Text Strip

section Sites

variable {α : Type}

/-- Where the matches in a row of pieces stand: what is in front of each, and its text. -/
def sitesFrom (front : Text) : List (Piece α) → List (Text × Text)
  | [] => []
  | .plain c :: ps => sitesFrom (front ++ [c]) ps
  | .found _ text :: ps => (front, text) :: sitesFrom (front ++ text) ps

def sites (find : Finder α) (t : Text) : List (Text × Text) := sitesFrom [] (pieces find t)

theorem sitesFrom_missed (front s : Text) (ps : List (Piece α)) :
    sitesFrom front (s.map .plain ++ ps) = sitesFrom (front ++ s) ps := by
  induction s generalizing front with
  | nil => simp
  | cons c s ih => simpa [sitesFrom] using ih (front ++ [c])

/-- Where a match is told in one event, for the line it starts on, the lines are those of the
places. -/
theorem lines_replaceAll {replace : Nat → α → Pass}
    (h : ∀ line v, (replace line v).events.map (·.line) = [line]) (front : Text)
    (ps : List (Piece α)) :
    (replaceAll replace (front.lineFeeds + 1) ps).events.map (·.line) =
      (sitesFrom front ps).map fun site => site.1.lineFeeds + 1 := by
  induction ps generalizing front with
  | nil => rfl
  | cons p ps ih =>
    cases p with
    | plain c =>
      have hline : (if c = '\n' then front.lineFeeds + 1 + 1 else front.lineFeeds + 1) =
          (front ++ [c]).lineFeeds + 1 := by
        rw [lineFeeds_append]
        split <;> simp_all [lineFeeds]
      simp only [replaceAll, sitesFrom, hline, ih]
    | found v text =>
      have hline : front.lineFeeds + 1 + text.lineFeeds = (front ++ text).lineFeeds + 1 := by
        rw [lineFeeds_append]
        omega
      simp only [replaceAll, sitesFrom, List.map_append, List.map_cons, h, hline, ih]
      rfl

end Sites

/-! Lines in front of a pass and behind it. -/

section Lost

variable {scope : Text} {p : List Strip}

def lostLines (p : List Strip) : Nat := lineFeeds ((events p).flatMap (·.before))

theorem lostLines_eq_zero_iff : lostLines p = 0 ↔ ∀ e ∈ events p, '\n' ∉ e.before := by
  simp [lostLines, lineFeeds_eq_zero_iff]

theorem lineFeeds_source (hscope : ∀ c ∈ scope, isBlank c = false)
    (hp : ∀ e ∈ events p, Qualifies scope e) :
    (source p).lineFeeds = (target p).lineFeeds + lostLines p := by
  induction p with
  | nil => rfl
  | cons s p ih =>
    cases s with
    | kept c =>
      have hrest := ih hp
      have hsource := lineFeeds_append [c] (source p)
      have htarget := lineFeeds_append [c] (target p)
      simp only [List.cons_append, List.nil_append] at hsource htarget
      have hlost : lostLines (kept c :: p) = lostLines p := rfl
      simp only [source_kept, target_kept, hsource, htarget, hrest, hlost, Nat.add_assoc]
    | changed e =>
      obtain ⟨he, hq⟩ := List.forall_mem_cons.mp hp
      have hafter : e.after = ClassList.qualify scope e.before := he
      have hlost : lostLines (changed e :: p) = e.before.lineFeeds + lostLines p := by
        simp [lostLines, lineFeeds_append]
      rw [source_changed, target_changed, lineFeeds_append, lineFeeds_append, hlost, ih hq, hafter,
        ClassList.lineFeeds_qualify hscope]
      omega

end Lost

/-! Where the attribute is matched, in front of the first pass and behind it. -/

/-- The attribute is matched at the same stretches of the row in both texts. A stretch is given with
all of the row that is in front of it. -/
structure Aligned (name : Text) (p : List Strip) (rs : List (List Strip × List Strip)) : Prop where
  infixes : ∀ r ∈ rs, r.1 ++ r.2 <+: p
  source_eq : sites (assigned name) (source p) = rs.map fun r => (source r.1, source r.2)
  target_eq : sites (assigned name) (target p) = rs.map fun r => (target r.1, target r.2)

/-- No quote in the text, and no value could follow it. -/
structure Mute (t : Text) : Prop where
  no_quote : ∀ c ∈ t, isQuote c = false
  no_value : awaitsValue t = false

instance (t : Text) : Decidable (Mute t) :=
  decidable_of_iff (t.any isQuote = false ∧ awaitsValue t = false)
    ⟨fun h => ⟨by simpa using h.1, h.2⟩, fun h => ⟨by simpa using h.no_quote, h.no_value⟩⟩

theorem awaitsValue_eq (t : Text) :
    awaitsValue t = (solid t).getLast?.any fun c => c == ':' || c == '=' := by
  have hlast : (solid t).getLast? = (t.reverse.dropWhile isBlank).head? := by
    rw [← List.head?_reverse, solid, ← List.filter_reverse, List.head?_filter,
      List.find?_eq_head?_dropWhile_not]
    simp
  rw [awaitsValue, hlast]

theorem Mute.qualify {settings : Settings} (hvalid : settings.fault? = none) {t : Text}
    (h : Mute t) : Mute (ClassList.qualify settings.scope t) where
  no_quote := by
    intro c hc
    rw [not_isQuote_iff]
    rcases ClassList.mem_qualify hc with hc | hc | rfl | rfl
    · refine ⟨?_, ?_⟩ <;> rintro rfl
      · exact Settings.not_mem_scope_of_special hvalid (by decide) hc
      · exact Settings.not_mem_scope_of_special hvalid (by decide) hc
    · exact not_isQuote_iff.mp (h.no_quote c hc)
    · decide
    · decide
  no_value := by
    rw [awaitsValue_eq, ClassList.getLast?_solid_qualify (Settings.scope_solid hvalid),
      ← awaitsValue_eq]
    exact h.no_value

def IsMute (e : Event) : Prop := Mute e.before ∧ Mute e.after

/-- A row in which every changed string is mute and stands in quotes. -/
inductive Hemmed : List Strip → Prop
  | nil : Hemmed []
  | kept {p : List Strip} (c : Char) (h : Hemmed p) : Hemmed (kept c :: p)
  | string {p : List Strip} {q : Char} {e : Event} (hq : isQuote q = true) (he : IsMute e)
      (h : Hemmed p) : Hemmed (kept q :: changed e :: kept q :: p)

/-- What is left of a hemmed row behind some strip of it. -/
inductive Rest : List Strip → Prop
  | whole {p : List Strip} (h : Hemmed p) : Rest p
  | inside {p : List Strip} {q : Char} {e : Event} (hq : isQuote q = true) (he : IsMute e)
      (h : Hemmed p) : Rest (changed e :: kept q :: p)

section Rows

variable {p a b : List Strip}

theorem Hemmed.append (ha : Hemmed a) (hb : Hemmed b) : Hemmed (a ++ b) := by
  induction ha with
  | nil => exact hb
  | kept c _ ih => exact .kept c ih
  | string hq he _ ih => exact .string hq he ih

theorem hemmed_plain (t : Text) : Hemmed (plain t) := by
  induction t with
  | nil => exact .nil
  | cons c t ih => exact .kept c ih

theorem Rest.tail {s : Strip} (h : Rest (s :: p)) : Rest p := by
  cases h with
  | whole h =>
    cases h with
    | kept c h => exact .whole h
    | string hq he h => exact .inside hq he h
  | inside hq he h => exact .whole (.kept _ h)

theorem Rest.of_append (h : Rest (a ++ b)) : Rest b := by
  induction a with
  | nil => exact h
  | cons s a ih => exact ih h.tail

theorem Rest.isMute (h : Rest p) : ∀ e, changed e ∈ p → IsMute e := by
  have hhemmed : ∀ {p}, Hemmed p → ∀ e, changed e ∈ p → IsMute e := by
    intro p h
    induction h with
    | nil => nofun
    | kept c _ ih => simpa using ih
    | string _ he _ ih => simpa using ⟨he, ih⟩
  cases h with
  | whole h => exact hhemmed h
  | inside _ he h => simpa using ⟨he, hhemmed h⟩

/-- Up to the first quote the rest of a hemmed row has nothing but characters. -/
theorem exists_opening {side : Strip → Text} (hside : ∀ c, side (kept c) = [c]) (h : Hemmed p)
    {w t : Text} {q : Char} (ht : p.flatMap side = w ++ q :: t)
    (hw : ∀ c ∈ w, isQuote c = false) :
    ∃ p', p = plain w ++ kept q :: p' ∧ p'.flatMap side = t := by
  induction w generalizing p with
  | nil =>
    cases h with
    | nil => cases ht
    | @kept p c h =>
      rw [List.flatMap_cons, hside] at ht
      obtain ⟨rfl, hrest⟩ := List.cons.inj ht
      exact ⟨p, rfl, hrest⟩
    | @string p q' e hq he h =>
      rw [List.flatMap_cons, hside] at ht
      obtain ⟨rfl, hrest⟩ := List.cons.inj ht
      exact ⟨_, rfl, hrest⟩
  | cons c w ih =>
    obtain ⟨hc, hfree⟩ := List.forall_mem_cons.mp hw
    cases h with
    | nil => cases ht
    | @kept p d h =>
      rw [List.flatMap_cons, hside] at ht
      obtain ⟨rfl, hrest⟩ := List.cons.inj ht
      obtain ⟨p', rfl, hp'⟩ := ih h hrest hfree
      exact ⟨p', rfl, hp'⟩
    | @string p q' e hq he h =>
      rw [List.flatMap_cons, hside] at ht
      obtain ⟨rfl, -⟩ := List.cons.inj ht
      rw [hq] at hc
      cases hc

/-- A quote is found between the changed strings of a row, if they hold none. -/
theorem exists_closing {side : Strip → Text} (hside : ∀ c, side (kept c) = [c])
    (hmute : ∀ e, changed e ∈ p → ∀ c ∈ side (changed e), isQuote c = false)
    {inner t : Text} {q : Char} (ht : p.flatMap side = inner ++ q :: t) (hq : isQuote q = true)
    (hinner : q ∉ inner) :
    ∃ m b, p = m ++ kept q :: b ∧ kept q ∉ m := by
  induction p generalizing inner with
  | nil => simp at ht
  | cons s p ih =>
    have hmute' : ∀ e, changed e ∈ p → ∀ c ∈ side (changed e), isQuote c = false :=
      fun e he => hmute e (List.mem_cons_of_mem s he)
    cases s with
    | kept c =>
      rw [List.flatMap_cons, hside] at ht
      cases inner with
      | nil =>
        obtain ⟨rfl, -⟩ := List.cons.inj ht
        exact ⟨[], p, rfl, List.not_mem_nil⟩
      | cons d inner =>
        obtain ⟨rfl, hrest⟩ := List.cons.inj ht
        obtain ⟨hne, hnone⟩ := not_or.mp (mt List.mem_cons.mpr hinner)
        obtain ⟨m, b, rfl, hm⟩ := ih hmute' hrest hnone
        exact ⟨kept c :: m, b, rfl, by simpa [hm] using hne⟩
    | changed e =>
      rw [List.flatMap_cons] at ht
      rcases List.append_eq_append_iff.mp ht with ⟨n, rfl, hn⟩ | ⟨n, hn, hn'⟩
      · obtain ⟨m, b, rfl, hm⟩ := ih hmute' hn fun h => hinner (List.mem_append_right _ h)
        exact ⟨changed e :: m, b, rfl, by simpa using hm⟩
      · cases n with
        | nil =>
          have hnext : p.flatMap side = [] ++ q :: t := hn'.symm
          obtain ⟨m, b, rfl, hm⟩ := ih hmute' hnext List.not_mem_nil
          exact ⟨changed e :: m, b, rfl, by simpa using hm⟩
        | cons d n =>
          -- The quote would stand in the changed string.
          obtain ⟨rfl, -⟩ := List.cons.inj hn'
          have hno := hmute e List.mem_cons_self q (by rw [hn]; simp)
          rw [hq] at hno
          cases hno

/-- A stretch of a row that reads as the attribute with a value. -/
def IsValue (name : Text) (before : Option Char) (m : List Strip) : Prop :=
  StartsName name before ∧ ∃ separator q value, IsSeparator separator ∧ isQuote q = true ∧
    m = plain (name ++ separator) ++ kept q :: value ++ [kept q] ∧ kept q ∉ value

theorem flatMap_plain {side : Strip → Text} (hside : ∀ c, side (kept c) = [c]) (t : Text) :
    (plain t).flatMap side = t := by
  induction t with
  | nil => rfl
  | cons c t ih =>
    have hcons : plain (c :: t) = kept c :: plain t := rfl
    rw [hcons, List.flatMap_cons, hside, ih]
    rfl

/-- Where a stretch comes next that reads as the attribute with a value, the attribute is matched
there, whichever text is read. -/
theorem IsValue.assigned_eq {name : Text} {before : Option Char} {m : List Strip}
    (h : IsValue name before m) (side : Strip → Text) (hside : ∀ c, side (kept c) = [c])
    (hmute : ∀ e, changed e ∈ m → ∀ c ∈ side (changed e), isQuote c = false) (t : Text) :
    ∃ v, assigned name before (m.flatMap side ++ t) = some (v, m.flatMap side, t) := by
  obtain ⟨hstart, separator, q, value, hseparator, hq, rfl, hnone⟩ := h
  have hinner : q ∉ value.flatMap side := by
    intro hmem
    obtain ⟨s, hs, hc⟩ := List.mem_flatMap.mp hmem
    cases s with
    | kept c =>
      rw [hside] at hc
      exact hnone (List.mem_singleton.mp hc ▸ hs)
    | changed e =>
      have hno := hmute e (by simp [hs]) q hc
      rw [hq] at hno
      cases hno
  refine ⟨⟨separator, q, value.flatMap side⟩, assigned_eq_some_iff.mpr
    ⟨hstart, rfl, ?_, hseparator, isQuote_iff.mp hq, hinner⟩⟩
  simp [flatMap_plain hside, hside]

theorem exists_isValue {name : Text} (hname : ∀ c ∈ name, isQuote c = false)
    {before : Option Char} (hp : Hemmed p) {side : Strip → Text} (hside : ∀ c, side (kept c) = [c])
    (hmute : ∀ e, changed e ∈ p → ∀ c ∈ side (changed e), isQuote c = false)
    (h : assigned name before (p.flatMap side) ≠ none) :
    ∃ m b, p = m ++ b ∧ IsValue name before m := by
  obtain ⟨⟨v, text, rest⟩, hsome⟩ := Option.ne_none_iff_exists'.mp h
  obtain ⟨hstart, htext, rfl, hseparator, hq, hinner⟩ := assigned_eq_some_iff.mp hsome
  have hfree : ∀ c ∈ name ++ v.separator, isQuote c = false := by
    intro c hc
    rcases List.mem_append.mp hc with hc | hc
    · exact hname c hc
    · exact not_isQuote_of_mem_separator hseparator c hc
  have hopening : p.flatMap side =
      (name ++ v.separator) ++ v.quote :: (v.inner ++ v.quote :: rest) := by simpa using htext
  obtain ⟨p', rfl, hp'⟩ := exists_opening hside hp hopening hfree
  have hmute' : ∀ e, changed e ∈ p' → ∀ c ∈ side (changed e), isQuote c = false :=
    fun e he => hmute e (by simp [he])
  obtain ⟨value, b, rfl, hnone⟩ :=
    exists_closing hside hmute' hp' (isQuote_iff.mpr hq) hinner
  exact ⟨_, b, by simp, hstart, v.separator, v.quote, value, hseparator, isQuote_iff.mpr hq, rfl,
    hnone⟩

end Rows

/-- Both texts of a row that stands behind `front` are cut at the same stretches of it. -/
def CutAlike (name : Text) (before : Option Char) (front p : List Strip) : Prop :=
  ∃ (ps ps' : List (Piece Assigned)) (rs : List (List Strip × List Strip)),
    Cuts (assigned name) before (source p) ps ∧ Cuts (assigned name) before (target p) ps' ∧
    (∀ r ∈ rs, r.1 ++ r.2 <+: front ++ p) ∧
    (sitesFrom (source front) ps = rs.map fun r => (source r.1, source r.2)) ∧
    sitesFrom (target front) ps' = rs.map fun r => (target r.1, target r.2)

namespace CutAlike

variable {name : Text} {before : Option Char} {front p : List Strip}

theorem nil : CutAlike name before front [] :=
  ⟨[], [], [], .nil before, .nil before, nofun, rfl, rfl⟩

theorem kept {c : Char} (hsource : assigned name before (c :: source p) = none)
    (htarget : assigned name before (c :: target p) = none)
    (h : CutAlike name (some c) (front ++ [.kept c]) p) :
    CutAlike name before front (.kept c :: p) := by
  obtain ⟨ps, ps', rs, hps, hps', hrs, hsites, hsites'⟩ := h
  refine ⟨.plain c :: ps, .plain c :: ps', rs, .plain hsource hps, .plain htarget hps', ?_, ?_, ?_⟩
  · simpa using hrs
  · simpa [sitesFrom] using hsites
  · simpa [sitesFrom] using hsites'

theorem string (hname : ∀ c ∈ name, isQuote c = false) {q : Char} (hq : isQuote q = true)
    {e : Event} (he : IsMute e)
    (h : CutAlike name (some q) (front ++ [.changed e, .kept q]) p) :
    CutAlike name before front (.changed e :: .kept q :: p) := by
  obtain ⟨ps, ps', rs, hps, hps', hrs, hsites, hsites'⟩ := h
  have hmissed : ∀ {t u : Text} {ps : List (Piece Assigned)}, Mute t →
      Cuts (assigned name) (some q) u ps →
      Cuts (assigned name) before (t ++ q :: u) ((t ++ [q]).map .plain ++ ps) := by
    intro t u ps ht hcuts
    have hcut : Cuts (assigned name) before (t ++ [q] ++ u) ((t ++ [q]).map .plain ++ ps) :=
      .missed (by simpa using hcuts) (misses_assigned hname ht.no_quote hq ht.no_value u)
    simpa using hcut
  refine ⟨(e.before ++ [q]).map Piece.plain ++ ps, (e.after ++ [q]).map Piece.plain ++ ps', rs,
    hmissed he.1 hps, hmissed he.2 hps', ?_, ?_, ?_⟩
  · simpa using hrs
  · rw [sitesFrom_missed]
    simpa using hsites
  · rw [sitesFrom_missed]
    simpa using hsites'

theorem found {m : List Strip} (hm : IsValue name before m) (hmute : ∀ e, changed e ∈ m → IsMute e)
    (h : ∀ q, CutAlike name (some q) (front ++ m) p) : CutAlike name before front (m ++ p) := by
  obtain ⟨value, hsource⟩ := hm.assigned_eq Strip.old (fun _ => rfl)
    (fun e he => (hmute e he).1.no_quote) (source p)
  obtain ⟨value', htarget⟩ := hm.assigned_eq Strip.new (fun _ => rfl)
    (fun e he => (hmute e he).2.no_quote) (target p)
  obtain ⟨-, separator, q, inner, -, -, hsplit, -⟩ := hm
  obtain ⟨ps, ps', rs, hps, hps', hrs, hsites, hsites'⟩ := h q
  have hlast : (source m).getLast? = some q := by
    rw [hsplit, source_append]
    exact List.getLast?_concat
  have hlast' : (target m).getLast? = some q := by
    rw [hsplit, target_append]
    exact List.getLast?_concat
  refine ⟨.found value (source m) :: ps, .found value' (target m) :: ps', (front, m) :: rs,
    ?_, ?_, ?_, ?_, ?_⟩
  · rw [source_append]
    exact .found hsource (by rw [hlast]; exact hps)
  · rw [target_append]
    exact .found htarget (by rw [hlast']; exact hps')
  · rw [← List.append_assoc]
    exact List.forall_mem_cons.mpr ⟨List.prefix_append _ _, hrs⟩
  · rw [source_append] at hsites
    simp [sitesFrom, hsites]
  · rw [target_append] at hsites'
    simp [sitesFrom, hsites']

end CutAlike

/-- A row of mute strings in quotes is cut alike. Either text is read from one strip to the next; a
match takes all strips of its stretch at once. -/
theorem Rest.cutAlike {name : Text} (hname : ∀ c ∈ name, isQuote c = false) {p : List Strip}
    (h : Rest p) (before : Option Char) (front : List Strip) : CutAlike name before front p := by
  induction hn : p.length using Nat.strong_induction_on generalizing p before front with
  | h n ih =>
    subst hn
    by_cases hvalue : ∃ m b, p = m ++ b ∧ IsValue name before m
    · obtain ⟨m, b, rfl, hm⟩ := hvalue
      have hpos : 0 < m.length := by
        obtain ⟨-, separator, q, inner, -, -, rfl, -⟩ := hm
        rw [List.length_append]
        exact Nat.succ_pos _
      have hshort : b.length < (m ++ b).length := by
        rw [List.length_append]
        omega
      exact .found hm (fun e he => h.isMute e (List.mem_append_left b he))
        fun q => ih _ hshort h.of_append _ _ rfl
    · cases h with
      | @inside p q e hq he hp =>
        have hshort : p.length < (changed e :: kept q :: p).length := by
          simp only [List.length_cons]
          omega
        exact .string hname hq he (ih _ hshort (.whole hp) _ _ rfl)
      | whole hp =>
        have hmute := (Rest.whole hp).isMute
        have hsource : assigned name before (source p) = none := by
          by_contra hsome
          exact hvalue (exists_isValue hname hp (fun _ => rfl)
            (fun e he => (hmute e he).1.no_quote) hsome)
        have htarget : assigned name before (target p) = none := by
          by_contra hsome
          exact hvalue (exists_isValue hname hp (fun _ => rfl)
            (fun e he => (hmute e he).2.no_quote) hsome)
        cases hp with
        | nil => exact .nil
        | kept c hp =>
          exact .kept hsource htarget (ih _ (by simp) (.whole hp) _ _ rfl)
        | string hq he hp =>
          exact .kept hsource htarget (ih _ (by simp) (.inside hq he hp) _ _ rfl)

theorem Hemmed.exists_aligned {name : Text} (hname : ∀ c ∈ name, isQuote c = false)
    {p : List Strip} (h : Hemmed p) : ∃ rs, Aligned name p rs := by
  obtain ⟨ps, ps', rs, hps, hps', hrs, hsites, hsites'⟩ := (Rest.whole h).cutAlike hname none []
  have hsource := (pieces_eq_iff (assigned_sound name)).mpr hps
  have htarget := (pieces_eq_iff (assigned_sound name)).mpr hps'
  exact ⟨rs, hrs, by rw [sites, hsource, ← hsites]; rfl, by rw [sites, htarget, ← hsites']; rfl⟩

/-! The strings of the first pass. -/

section Passes

variable {α : Type} {scope name t : Text}

theorem hemmed_stripsOf {find : Finder α} {strips : Nat → α → List Strip}
    (hfind : ∀ before t value text rest, find before t = some (value, text, rest) → ∀ line,
      (∀ e ∈ events (strips line value), IsMute e) → Hemmed (strips line value))
    {before : Option Char} {ps : List (Piece α)} (hcuts : Cuts find before t ps) (line : Nat)
    (hmute : ∀ e ∈ events (stripsOf strips line ps), IsMute e) :
    Hemmed (stripsOf strips line ps) := by
  induction hcuts generalizing line with
  | nil => exact .nil
  | plain _ _ ih => exact .kept _ (ih _ hmute)
  | found hsome _ ih =>
    rw [stripsOf, events_append] at hmute
    obtain ⟨hhere, hrest⟩ := List.forall_mem_append.mp hmute
    exact (hfind _ _ _ _ _ hsome _ hhere).append (ih _ hrest)

theorem hemmed_callStrips (line : Nat) (arguments : Text)
    (hmute : ∀ e ∈ events (callStrips scope name line arguments), IsMute e) :
    Hemmed (callStrips scope name line arguments) := by
  have hstring : ∀ before t string text rest, quoted before t = some (string, text, rest) →
      ∀ _ : Nat, (∀ e ∈ events (stringStrips scope line string), IsMute e) →
        Hemmed (stringStrips scope line string) := by
    intro before t string text rest hsome _ hmute
    have hquote := (whole_of_quoted hsome).1
    exact .string hquote (hmute _ List.mem_cons_self) .nil
  have hcuts := (pieces_eq_iff quoted_sound).mp (rfl : pieces quoted arguments = _)
  have hinside := hemmed_stripsOf hstring hcuts line
    fun e he => hmute e (by simpa [callStrips] using he)
  exact ((hemmed_plain _).append hinside).append (hemmed_plain _)

theorem hemmed_joinStrips (hmute : ∀ e ∈ events (joinStrips scope name t), IsMute e) :
    Hemmed (joinStrips scope name t) := by
  have hcuts := (pieces_eq_iff (joinCall_sound name)).mp (rfl : pieces (joinCall name) t = _)
  exact hemmed_stripsOf (fun _ _ arguments _ _ _ line => hemmed_callStrips line arguments) hcuts 1
    hmute

end Passes

def attributeLines (scope name t : Text) : List Nat :=
  (attributePass scope name t).events.map (·.line)

theorem attributeLines_eq (scope name t : Text) :
    attributeLines scope name t =
      (sites (assigned name) t).map fun site => site.1.lineFeeds + 1 :=
  lines_replaceAll (fun _ _ => rfl) [] _

/-- A sweep reports the strings in calls and then the attributes, for the lines that these have in
what the first pass wrote. A stretch of the source has a line feed more than what is written for it
for every one in a string. So, where the attribute is matched at the same places before and after,
each is reported that many lines too early, and none is exactly if no string in front of one has a
line feed. It is matched at the same places if no string has a quote or ends like the text in front
of a value. -/
theorem attribute_lines_kept_iff {settings : Settings} (hvalid : settings.fault? = none)
    (hscope : settings.scope ≠ []) (t : Text) :
    let first := joinPass settings.scope settings.joinName t
    let lines := attributeLines settings.scope settings.attributeName
    (sweep settings t).events =
      first.events ++ (attributePass settings.scope settings.attributeName first.code).events ∧
    ∃ p, source p = t ∧ Shows p first ∧
      (∀ a b, p = a ++ b → (source a).lineFeeds = (target a).lineFeeds + lostLines a) ∧
      (∀ rs, Aligned settings.attributeName p rs →
        (lines first.code = rs.map fun r => (target r.1).lineFeeds + 1) ∧
        (lines t = rs.map fun r => (target r.1).lineFeeds + lostLines r.1 + 1) ∧
        (lines first.code = lines t ↔ ∀ r ∈ rs, ∀ e ∈ events r.1, '\n' ∉ e.before)) ∧
      ((∀ c ∈ settings.attributeName, isQuote c = false) → (∀ e ∈ first.events, Mute e.before) →
        ∃ rs, Aligned settings.attributeName p rs) := by
  intro first lines
  let p := joinStrips settings.scope settings.joinName t
  have hsolid := Settings.scope_solid hvalid
  have hp : ∀ e ∈ events p, Qualifies settings.scope e := qualifies_joinStrips _ _ _
  have hsource : source p = t := source_joinStrips _ _ _
  have hshows : Shows p first := shows_joinStrips _ _ _
  have hlost : ∀ a b, p = a ++ b → (source a).lineFeeds = (target a).lineFeeds + lostLines a := by
    intro a b hab
    exact lineFeeds_source hsolid fun e he => hp e (by simp [hab, he])
  refine ⟨?_, p, hsource, hshows, hlost, fun rs hrs => ?_, fun hname hmute => ?_⟩
  · simp [sweep, hscope, first]
  · have hafter : lines first.code = rs.map fun r => (target r.1).lineFeeds + 1 := by
      rw [← hshows.target_eq]
      simp only [lines, attributeLines_eq, hrs.target_eq, List.map_map, Function.comp_def]
    have hbefore : lines t = rs.map fun r => (target r.1).lineFeeds + lostLines r.1 + 1 := by
      rw [← hsource]
      simp only [lines, attributeLines_eq, hrs.source_eq, List.map_map, Function.comp_def]
      refine List.map_congr_left fun r hr => ?_
      obtain ⟨b, hb⟩ := hrs.infixes r hr
      rw [hlost r.1 (r.2 ++ b) (by simpa using hb.symm)]
    refine ⟨hafter, hbefore, ?_⟩
    rw [hafter, hbefore, List.map_inj_left]
    refine forall₂_congr fun r _ => ?_
    rw [← lostLines_eq_zero_iff]
    omega
  · rw [← hshows.events_eq] at hmute
    have hboth : ∀ e ∈ events p, IsMute e := fun e he =>
      ⟨hmute e he, (hp e he).symm ▸ (hmute e he).qualify hvalid⟩
    exact (hemmed_joinStrips hboth).exists_aligned hname

def brokenString : Text := "classnames(\"a\nb\"); <i className=\"c\" />".toList

theorem attribute_behind_broken_string :
    Settings.defaults.fault? = none ∧ Settings.defaults.scope ≠ [] ∧
      (sweep Settings.defaults brokenString).events.map (·.line) = [1, 1] ∧
      attributeLines Settings.defaults.scope Settings.defaults.attributeName brokenString = [2] ∧
      ∃ p rs, source p = brokenString ∧ Aligned Settings.defaults.attributeName p rs ∧
        ∃ r ∈ rs, ∃ e ∈ events r.1, '\n' ∈ e.before := by
  have hvalid : Settings.defaults.fault? = none := by decide +kernel
  have hscope : Settings.defaults.scope ≠ [] := by decide
  obtain ⟨-, p, hsource, -, -, hlines, haligned⟩ :=
    attribute_lines_kept_iff hvalid hscope brokenString
  obtain ⟨rs, hrs⟩ := haligned (by simp [Settings.defaults, isQuote]) (by decide +kernel)
  refine ⟨hvalid, hscope, by decide +kernel, by decide +kernel, p, rs, hsource, hrs, ?_⟩
  by_contra hnone
  push Not at hnone
  have hsame := (hlines rs hrs).2.2.mpr hnone
  exact absurd hsame (by decide +kernel)

end Sweep
end ClassScope
