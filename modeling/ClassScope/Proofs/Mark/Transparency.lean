import ClassScope.Proofs.Coverage
import ClassScope.Proofs.Mark.Found

/-! When a byte order mark in front of a source makes no difference but for itself: exactly if every
class value is seen through it, so that nothing else is left alone and each literal that changes is
found where it is. -/
namespace ClassScope

namespace Node
open Rewrite

/-- With the mark in front the value leaves the same alone, and what it rewrites is the same, three
bytes further on. -/
def SeenThrough (s : Source) (settings : Settings) (v : Node) : Prop :=
  v.valueSkips s.marked settings = v.valueSkips s settings ∧
  (v.valueRewrites s.marked settings).filter (·.Counts) =
    ((v.valueRewrites s settings).filter (·.Counts)).map (Rewrite.moved 3)

instance (s : Source) (settings : Settings) (v : Node) : Decidable (v.SeenThrough s settings) :=
  inferInstanceAs (Decidable (_ ∧ _))

/-- Rewrites that were found, each with the one it was found for. If of those that count none is
beyond its place, and at each place some is found, then all are found at their places. -/
theorem found_at_place {ps : List (Rewrite × Rewrite)} {bound : Nat}
    (hfound : ∀ p ∈ ps, Found p.1 p.2) (hbound : ∀ p ∈ ps, p.2.literal.start ≤ bound)
    (hdist : ps.Pairwise fun p q => p.2.Counts → q.2.Counts → p.2.literal.start ≠ q.2.literal.start)
    (hplace : ∀ p ∈ ps, p.2.Counts →
      ∃ q ∈ ps, q.2.Counts ∧ q.1.literal.start = p.2.literal.start + 3)
    {p : Rewrite × Rewrite} (hp : p ∈ ps) (hc : p.2.Counts) :
    p.1.literal.start = p.2.literal.start + 3 := by
  -- From the last place to the first: what is found at a place belongs there or further on, and
  -- everything further on is found where it belongs.
  obtain ⟨n, hn⟩ : ∃ n, bound - p.2.literal.start = n := ⟨_, rfl⟩
  induction n using Nat.strongRecOn generalizing p with
  | ind n ih =>
    obtain ⟨q, hq, hqc, hstart⟩ := hplace p hp hc
    have hle := (hfound q hq).start_le
    by_cases heq : q = p
    · rw [← heq] at hstart ⊢
      exact hstart
    · have : Std.Symm fun p q : Rewrite × Rewrite =>
          p.2.Counts → q.2.Counts → p.2.literal.start ≠ q.2.literal.start :=
        ⟨fun _ _ h hq hp => (h hp hq).symm⟩
      have hne := hdist.forall hq hp heq hqc hc
      have hqbound := hbound q hq
      have hqplace := ih (bound - q.2.literal.start) (by omega) hq hqc rfl
      omega

theorem filter_counts_eq_moved {rs qs : List Rewrite} (h : List.Forall₂ Found rs qs)
    (hplace : ∀ p ∈ rs.zip qs, p.2.Counts → p.1.literal.start = p.2.literal.start + 3) :
    rs.filter (·.Counts) = (qs.filter (·.Counts)).map (Rewrite.moved 3) := by
  induction h with
  | nil => rfl
  | @cons r q rs qs hrq hrest ih =>
    rw [List.zip_cons_cons] at hplace
    obtain ⟨hhead, htail⟩ := List.forall_mem_cons.mp hplace
    by_cases hc : q.Counts
    · have hrc : r.Counts := hrq.counts.mpr hc
      rw [List.filter_cons_of_pos (by simpa using hrc), List.filter_cons_of_pos (by simpa using hc),
        List.map_cons, ih htail, hrq.moved (hhead hc)]
    · have hrc : ¬ r.Counts := fun h => hc (hrq.counts.mp h)
      rw [List.filter_cons_of_neg (by simpa using hrc), List.filter_cons_of_neg (by simpa using hc),
        ih htail]

theorem footprint_of_quotes {s : Source} {span : Span} {quote : Char} {text : Text}
    (h : s.slice? span = some (quote :: text ++ [quote])) :
    span.lo = span.lo - 1 + 1 ∧ span.lo - 1 + 3 ≤ span.hi := by
  obtain ⟨hlo, hle, hs⟩ := Source.slice?_eq_some_iff.mp h
  obtain ⟨-, -, -, -, hstop⟩ := Text.slice?_eq_some_iff.mp hs
  have hbyte := Char.utf8Size_pos quote
  rw [Text.size_append, Text.size_cons, Text.size_cons, Text.size_nil] at hstop
  omega

theorem segment_of_filter_counts_eq_moved {rs qs : List Rewrite} (h : List.Forall₂ Found rs qs)
    (heq : rs.filter (·.Counts) = (qs.filter (·.Counts)).map (Rewrite.moved 3)) :
    ∀ q ∈ qs, q.Counts → q.literal.style = .segment := by
  induction h with
  | nil => exact nofun
  | @cons r q rs qs hrq hrest ih =>
    rw [List.forall_mem_cons]
    by_cases hc : q.Counts
    · have hrc : r.Counts := hrq.counts.mpr hc
      rw [List.filter_cons_of_pos (by simpa using hrc), List.filter_cons_of_pos (by simpa using hc),
        List.map_cons] at heq
      obtain ⟨rfl, htail⟩ := List.cons.inj heq
      exact ⟨fun _ => hrq.segment rfl, ih htail⟩
    · have hrc : ¬ r.Counts := fun h => hc (hrq.counts.mp h)
      rw [List.filter_cons_of_neg (by simpa using hrc), List.filter_cons_of_neg (by simpa using hc)]
        at heq
      exact ⟨fun hq => absurd hq hc, ih heq⟩

/-- A literal in class position that counts takes up at least two bytes, with what ends it. -/
theorem InClassPosition.exists_footprint {s : Source} {settings : Settings} {nodes : List Node}
    {r : Rewrite} (hr : InClassPosition s settings nodes r) (hc : r.Counts)
    (h : (root nodes).Faithful s) :
    ∃ f ∈ (root nodes).subtrees.flatMap footprints,
      f.lo = r.literal.start + 1 ∧ r.literal.start + 3 ≤ f.hi := by
  cases hr with
  | @quoted span quote text hattr hraw =>
    have hvalue := value_mem_subtrees_root hattr
    refine ⟨span, List.mem_flatMap.mpr ⟨_, hvalue, List.mem_singleton_self _⟩, ?_⟩
    exact footprint_of_quotes hraw
  | @string slot span e quote raw text hattr hm hraw =>
    have hvalue := mem_subtrees_trans hm.mem_subtrees (expr_mem_subtrees_root hattr)
    refine ⟨span, List.mem_flatMap.mpr ⟨_, hvalue, List.mem_singleton_self _⟩, ?_⟩
    exact footprint_of_quotes hraw
  | @segment slot span e segments parts i g hattr hm hp hg =>
    have hvalue := mem_subtrees_trans hm.mem_subtrees (expr_mem_subtrees_root hattr)
    have hg' := List.mem_of_getElem? hg
    refine ⟨⟨g.span.lo, g.span.hi + 1⟩, List.mem_flatMap.mpr
      ⟨_, hvalue, List.mem_map.mpr ⟨g, hg', rfl⟩⟩, ?_⟩
    obtain ⟨hlo, hle, hs⟩ := Source.slice?_eq_some_iff.mp ((h.sub hvalue).placed.reads.2 g hg')
    obtain ⟨-, -, -, -, hstop⟩ := Text.slice?_eq_some_iff.mp hs
    have hpos := Text.size_pos hc.1
    dsimp only at hpos ⊢
    omega

theorem noneLost_classifyValue {s : Source} {name : Option Text} {v : Node} (joinName : Text)
    (h : (Node.attr name v).Faithful s) : NoneLost (s.classifyValue joinName v).skips := by
  by_cases hslot : ∃ span inner, v = .slot span inner
  · obtain ⟨span, inner, rfl⟩ := hslot
    have hinner : inner.Faithful s :=
      (h.part (List.mem_singleton_self _)).part (List.mem_singleton_self _)
    exact noneLost_classify hinner
  · rw [Source.classifyValue]
    · split
      · exact fun k hk => absurd hk List.not_mem_nil
      · intro k hk
        obtain rfl := List.mem_singleton.mp hk
        rfl
    · exact fun span inner hv => hslot ⟨span, inner, hv⟩

/-- Lists that differ only where one has a single entry and the other none: if they are as long as
each other in all, they do not differ. -/
theorem eq_of_length_flatMap_eq {α β : Type} {f g : α → List β} {vs : List α}
    (h : ∀ v ∈ vs, f v = g v ∨ g v = [] ∧ ∃ k, f v = [k])
    (hlen : (vs.flatMap f).length = (vs.flatMap g).length) : ∀ v ∈ vs, f v = g v := by
  have hle : ∀ vs : List α, (∀ v ∈ vs, f v = g v ∨ g v = [] ∧ ∃ k, f v = [k]) →
      (vs.flatMap g).length ≤ (vs.flatMap f).length := by
    intro vs h
    induction vs with
    | nil => exact Nat.le_refl _
    | cons v vs ih =>
      obtain ⟨hv, hvs⟩ := List.forall_mem_cons.mp h
      have hrest := ih hvs
      rw [List.flatMap_cons, List.flatMap_cons, List.length_append, List.length_append]
      rcases hv with hv | ⟨hg, k, hf⟩
      · rw [hv]
        omega
      · rw [hg, hf, List.length_nil]
        omega
  induction vs with
  | nil => exact nofun
  | cons v vs ih =>
    obtain ⟨hv, hvs⟩ := List.forall_mem_cons.mp h
    have hrest := hle vs hvs
    rw [List.flatMap_cons, List.flatMap_cons, List.length_append, List.length_append] at hlen
    rcases hv with hv | ⟨hg, k, hf⟩
    · rw [hv] at hlen
      exact List.forall_mem_cons.mpr ⟨hv, ih hvs (by omega)⟩
    · rw [hg, hf, List.length_nil, List.length_singleton] at hlen
      omega

variable {s : Source} {settings : Settings} {nodes : List Node}

/-- An element that is taken for a text in quotes has an edit where no literal is. -/
theorem not_element_taken (h : (root nodes).Faithful s) (hspaced : (root nodes).WellSpaced s)
    (hedits : (Transform.ledger s.marked settings nodes).edits =
      (Transform.ledger s settings nodes).edits.map (Edit.moved 3))
    {name : Option Text} {shape : Shape} {span : Span} {parts : List Node}
    (hattr : .attr name (.other shape span parts) ∈ (root nodes).subtrees) {r : Rewrite}
    (hr : r ∈ (root nodes).allRewrites s.marked settings) (hc : r.Counts)
    (hstart : r.literal.start = span.lo - 1) : False := by
  have htaken : (Transform.ledger s.marked settings nodes).isTaken r.literal.start = true := by
    rw [Transform.ledger_eq]
    exact Ledger.isTaken_enter_of_counts hr hc
  obtain ⟨e, he, hestart⟩ := Ledger.isTaken_iff.mp htaken
  rw [hedits] at he
  obtain ⟨e', he', rfl⟩ := List.mem_map.mp he
  obtain ⟨q, hq, hqc, rfl⟩ := (Transform.mem_edits_ledger h).mp he'
  obtain ⟨f, hf, hlo, hhi⟩ := ((mem_allRewrites h).mp hq).exists_footprint hqc h
  obtain ⟨-, hclear⟩ := hspaced _ hattr
  have hmoved : q.literal.start + 3 = r.literal.start := hestart
  have hfront := hclear f hf
  omega

/-- If the edits are the same but three bytes further on, and the same is left alone, then what each
value asks for is found, in the same order, and what it leaves alone is the same. -/
theorem found_of_ledger (hplain : s.text.head? ≠ some '\uFEFF')
    (hscope : ∀ c ∈ settings.scope, Text.isBlank c = false) (h : (root nodes).Faithful s)
    (hspaced : (root nodes).WellSpaced s)
    (hedits : (Transform.ledger s.marked settings nodes).edits =
      (Transform.ledger s settings nodes).edits.map (Edit.moved 3))
    (hskips : (root nodes).allSkips s.marked settings = (root nodes).allSkips s settings) :
    ∀ v ∈ (root nodes).valuesOf settings.attributeName,
      List.Forall₂ Found (v.valueRewrites s.marked settings) (v.valueRewrites s settings) ∧
      v.valueSkips s.marked settings = v.valueSkips s settings := by
  have hattr : ∀ v ∈ (root nodes).valuesOf settings.attributeName,
      .attr (some settings.attributeName) v ∈ (root nodes).subtrees := fun v => mem_valuesOf.mp
  have hlost : ∀ v ∈ (root nodes).valuesOf settings.attributeName,
      NoneLost (v.valueSkips s.marked settings) := by
    intro v hv k hk
    have hmem : k ∈ (root nodes).allSkips s settings :=
      hskips ▸ List.mem_flatMap.mpr ⟨v, hv, hk⟩
    obtain ⟨u, hu, hku⟩ := List.mem_flatMap.mp hmem
    exact noneLost_classifyValue settings.joinName (h.sub (hattr u hu)) k hku
  have hcases : ∀ v ∈ (root nodes).valuesOf settings.attributeName,
      (List.Forall₂ Found (v.valueRewrites s.marked settings) (v.valueRewrites s settings) ∧
        v.valueSkips s.marked settings = v.valueSkips s settings) ∨
      (v.valueSkips s settings = [] ∧ ∃ k, v.valueSkips s.marked settings = [k]) := by
    intro v hv
    rcases value_marked hplain hscope (h.sub (hattr v hv))
      (fun m hm => hspaced m (mem_subtrees_trans hm (hattr v hv))) (hlost v hv) with
      hsame | hgone | ⟨shape, span, parts, rfl, r, hr, hc, hstart⟩
    · exact Or.inl hsame
    · exact Or.inr hgone
    · exact (not_element_taken h hspaced hedits (hattr _ hv)
        (List.mem_flatMap.mpr ⟨_, hv, hr⟩) hc hstart).elim
  have hskip : ∀ v ∈ (root nodes).valuesOf settings.attributeName,
      v.valueSkips s.marked settings = v.valueSkips s settings := by
    refine eq_of_length_flatMap_eq (fun v hv => ?_) (congrArg List.length hskips)
    exact (hcases v hv).imp And.right id
  intro v hv
  rcases hcases v hv with hsame | ⟨hnone, k, hsome⟩
  · exact hsame
  · rw [hskip v hv, hnone] at hsome
    cases hsome

theorem seenThrough_of_ledger (hplain : s.text.head? ≠ some '\uFEFF')
    (hscope : ∀ c ∈ settings.scope, Text.isBlank c = false) (h : (root nodes).Faithful s)
    (hspaced : (root nodes).WellSpaced s)
    (hedits : (Transform.ledger s.marked settings nodes).edits =
      (Transform.ledger s settings nodes).edits.map (Edit.moved 3))
    (hskips : (root nodes).allSkips s.marked settings = (root nodes).allSkips s settings) :
    ∀ v ∈ (root nodes).valuesOf settings.attributeName, v.SeenThrough s settings := by
  have hvalues := found_of_ledger hplain hscope h hspaced hedits hskips
  let ps : List (Rewrite × Rewrite) := ((root nodes).valuesOf settings.attributeName).flatMap
    fun v => (v.valueRewrites s.marked settings).zip (v.valueRewrites s settings)
  have hfst : ps.map Prod.fst = (root nodes).allRewrites s.marked settings := by
    rw [List.map_flatMap]
    refine List.flatMap_congr fun v hv => ?_
    exact List.map_fst_zip (Nat.le_of_eq (hvalues v hv).1.length_eq)
  have hsnd : ps.map Prod.snd = (root nodes).allRewrites s settings := by
    rw [List.map_flatMap]
    refine List.flatMap_congr fun v hv => ?_
    exact List.map_snd_zip (Nat.le_of_eq (hvalues v hv).1.length_eq.symm)
  have hfound : ∀ p ∈ ps, Found p.1 p.2 := by
    intro p hp
    obtain ⟨v, hv, hp⟩ := List.mem_flatMap.mp hp
    exact (List.forall₂_iff_zip.mp (hvalues v hv).1).2 hp
  have hsource : ∀ p ∈ ps, p.2 ∈ (root nodes).allRewrites s settings :=
    fun p hp => hsnd ▸ List.mem_map_of_mem hp
  have hbound : ∀ p ∈ ps, p.2.literal.start ≤ Text.size s.text := by
    intro p hp
    obtain ⟨old, hold, -⟩ := ((mem_allRewrites h).mp (hsource p hp)).exists_slice? h
    have hle := Text.slice?_le hold
    omega
  have hdist : ps.Pairwise fun p q =>
      p.2.Counts → q.2.Counts → p.2.literal.start ≠ q.2.literal.start := by
    have hall := Transform.allRewrites_distinct settings h
    rw [← hsnd] at hall
    exact List.pairwise_map.mp hall
  have hplace : ∀ p ∈ ps, p.2.Counts →
      ∃ q ∈ ps, q.2.Counts ∧ q.1.literal.start = p.2.literal.start + 3 := by
    intro p hp hc
    have hedit : p.2.edit ∈ (Transform.ledger s settings nodes).edits :=
      (Transform.mem_edits_ledger h).mpr ⟨p.2, hsource p hp, hc, rfl⟩
    have hmoved : p.2.edit.moved 3 ∈ (Transform.ledger s.marked settings nodes).edits :=
      hedits ▸ List.mem_map_of_mem hedit
    rw [Transform.ledger_eq, Ledger.edits_leave] at hmoved
    rcases Ledger.mem_edits_enter hmoved with hnone | ⟨r, hr, hrc, hre⟩
    · cases hnone
    · rw [← hfst] at hr
      obtain ⟨q, hq, rfl⟩ := List.mem_map.mp hr
      exact ⟨q, hq, (hfound q hq).counts.mp hrc, (congrArg Edit.start hre).symm⟩
  intro v hv
  refine ⟨(hvalues v hv).2, filter_counts_eq_moved (hvalues v hv).1 fun p hp hc => ?_⟩
  exact found_at_place hfound hbound hdist hplace (List.mem_flatMap.mpr ⟨v, hv, hp⟩) hc

/-- Through the mark only segments are seen. -/
theorem SeenThrough.segment (hplain : s.text.head? ≠ some '\uFEFF')
    (hscope : ∀ c ∈ settings.scope, Text.isBlank c = false) (h : (root nodes).Faithful s)
    (hspaced : (root nodes).WellSpaced s) {v : Node}
    (hv : v ∈ (root nodes).valuesOf settings.attributeName) (hseen : v.SeenThrough s settings)
    {q : Rewrite} (hq : q ∈ v.valueRewrites s settings) (hc : q.Counts) :
    q.literal.style = .segment := by
  have hattr := mem_valuesOf.mp hv
  have hlost : NoneLost (v.valueSkips s.marked settings) := by
    rw [hseen.1]
    exact noneLost_classifyValue settings.joinName (h.sub hattr)
  rcases value_marked hplain hscope (h.sub hattr)
    (fun m hm => hspaced m (mem_subtrees_trans hm hattr)) hlost with
    ⟨hfound, -⟩ | ⟨hnone, k, hsome⟩ | ⟨shape, span, parts, rfl, -⟩
  · exact segment_of_filter_counts_eq_moved hfound hseen.2 q hq hc
  · rw [hseen.1, hnone] at hsome
    cases hsome
  · -- An element has nothing to rewrite.
    rcases valueRewrites_cases settings (h.sub hattr).placed.reads with
      ⟨_, helement, -⟩ | ⟨_, _, helement, -⟩ | ⟨_, _, _, -, hnone⟩
    · cases helement
    · cases helement
    · rw [hnone] at hq
      cases hq

end Node

namespace Transform
open Node

def Outcome.marked (o : Outcome) : Outcome :=
  { o with code := '\uFEFF' :: o.code, edits := o.edits.map (Edit.moved 3) }

variable {s : Source} {settings : Settings} {nodes : List Node}

theorem ledger_marked_of_seenThrough
    (h : ∀ v ∈ (root nodes).valuesOf settings.attributeName, v.SeenThrough s settings) :
    ledger s.marked settings nodes = (ledger s settings nodes).moved 3 := by
  have hskips : (root nodes).allSkips s.marked settings = (root nodes).allSkips s settings :=
    List.flatMap_congr fun v hv => (h v hv).1
  have hrewrites : ((root nodes).allRewrites s.marked settings).filter (·.Counts) =
      (((root nodes).allRewrites s settings).filter (·.Counts)).map (Rewrite.moved 3) := by
    rw [allRewrites, allRewrites, List.filter_flatMap, List.filter_flatMap, List.map_flatMap]
    exact List.flatMap_congr fun v hv => (h v hv).2
  rw [ledger_eq, ledger_eq, hskips, ← Ledger.enter_filter_counts, hrewrites]
  calc (Ledger.empty.enter
          ((((root nodes).allRewrites s settings).filter (·.Counts)).map (Rewrite.moved 3))).leave _
      = ((Ledger.empty.moved 3).enter
          ((((root nodes).allRewrites s settings).filter (·.Counts)).map
            (Rewrite.moved 3))).leave _ := rfl
    _ = _ := by
      rw [Ledger.enter_moved, Ledger.enter_filter_counts]
      rfl

/-- For a tree: the mark makes no difference exactly if every class value is seen through it. -/
theorem ofNodes?_marked_iff (hplain : s.text.head? ≠ some '\uFEFF')
    (hvalid : settings.fault? = none) (hscope : settings.scope ≠ [])
    (h : (root nodes).Faithful s) (hspaced : (root nodes).WellSpaced s) :
    ofNodes? s.marked settings nodes = (ofNodes? s settings nodes).map Outcome.marked ↔
      ∀ v ∈ (root nodes).valuesOf settings.attributeName, v.SeenThrough s settings := by
  rw [ofNodes?_eq _ nodes hscope, ofNodes?_eq _ nodes hscope]
  constructor
  · intro heq
    obtain ⟨code, hcode, -⟩ := exists_splice?_ledger settings h
    rw [hcode, Option.map_some, Option.map_some] at heq
    obtain ⟨code', -, houtcome⟩ := Option.map_eq_some_iff.mp heq
    have hedits : (ledger s.marked settings nodes).edits =
        (ledger s settings nodes).edits.map (Edit.moved 3) := congrArg Outcome.edits houtcome
    have hskips : (ledger s.marked settings nodes).skipped =
        (ledger s settings nodes).skipped := congrArg Outcome.skipped houtcome
    refine seenThrough_of_ledger hplain (Settings.scope_solid hvalid) h hspaced hedits ?_
    rw [ledger_eq, ledger_eq] at hskips
    simpa [Ledger.skipped_leave, Ledger.skipped_enter] using hskips
  · intro hseen
    have hcode : Edit.splice? s.marked.text (ledger s.marked settings nodes).edits =
        (Edit.splice? s.text (ledger s settings nodes).edits).map ('\uFEFF' :: ·) := by
      have hmoved := Edit.splice?_moved ['\uFEFF'] s.text (ledger s settings nodes).edits
      rw [Source.size_mark] at hmoved
      rw [ledger_marked_of_seenThrough hseen]
      exact hmoved
    rw [hcode, ledger_marked_of_seenThrough hseen, Option.map_map, Option.map_map]
    rfl

theorem read_marked (hplain : s.text.head? ≠ some '\uFEFF') (dialect : Dialect) :
    read s.marked dialect = read s dialect := by
  rw [read, read, Source.body_marked, Source.body_of_head?_ne hplain]

theorem run_of_fault {source : Source} {dialect : Dialect} {fault : Settings.Fault}
    (h : settings.fault? = some fault) :
    run source settings dialect = .error (.settings fault) := by
  simp [run, Settings.validated, h, Except.mapError]
  rfl

theorem run_of_valid {source : Source} {dialect : Dialect} (h : settings.fault? = none) :
    run source settings dialect =
      (read source dialect).bind fun nodes =>
        match ofNodes? source settings nodes with
        | some outcome => .ok outcome
        | none => .error .crossing := by
  simp [run, Settings.validated, h, Except.mapError]
  rfl

theorem run_eq_ok_iff {source : Source} {dialect : Dialect} {o : Outcome} :
    run source settings dialect = .ok o ↔ settings.fault? = none ∧
      ∃ nodes, read source dialect = .ok nodes ∧ ofNodes? source settings nodes = some o := by
  cases hfault : settings.fault? with
  | some fault => simp [run_of_fault hfault]
  | none =>
    rw [run_of_valid hfault]
    cases read source dialect with
    | error fault => simp [Except.bind]
    | ok nodes => cases ho : ofNodes? source settings nodes <;> simp [Except.bind, ho]

theorem read_of_parse_ok {dialect : Dialect} (hplain : s.text.head? ≠ some '\uFEFF')
    (h : Markup.parse dialect s.text = .ok nodes) : read s dialect = .ok nodes := by
  rw [read, Source.body_of_head?_ne hplain, h]

theorem run_eq_ok {dialect : Dialect} {o : Outcome} (hplain : s.text.head? ≠ some '\uFEFF')
    (hvalid : settings.fault? = none) (hparse : Markup.parse dialect s.text = .ok nodes)
    (ho : ofNodes? s settings nodes = some o) : run s settings dialect = .ok o := by
  rw [run_of_valid hvalid, read_of_parse_ok hplain hparse]
  simp only [Except.bind, ho]

theorem exists_read_eq_error {dialect : Dialect} {f : Markup.Fault}
    (hplain : s.text.head? ≠ some '\uFEFF') (h : Markup.parse dialect s.text = .error f) :
    ∃ fault, read s dialect = .error fault := by
  rw [read, Source.body_of_head?_ne hplain, h]
  exact ⟨_, rfl⟩

theorem run_marked_iff (settings : Settings) {dialect : Dialect}
    (hplain : s.text.head? ≠ some '\uFEFF')
    (hgrammar : ∀ nodes, Markup.parse dialect s.text = .ok nodes →
      (root nodes).Faithful s ∧ (root nodes).WellSpaced s) :
    run s.marked settings dialect = (run s settings dialect).map Outcome.marked ↔
      settings.fault? ≠ none ∨ settings.scope = [] ∨
      ∀ nodes, Markup.parse dialect s.text = .ok nodes →
        ∀ v ∈ valuesOfAll settings.attributeName nodes, v.SeenThrough s settings := by
  cases hfault : settings.fault? with
  | some fault =>
    rw [run_of_fault hfault, run_of_fault hfault]
    exact iff_of_true rfl (Or.inl (by simp))
  | none =>
    rw [run_of_valid hfault, run_of_valid hfault, read_marked hplain]
    cases hparse : Markup.parse dialect s.text with
    | error f =>
      obtain ⟨fault, hread⟩ := exists_read_eq_error hplain hparse
      rw [hread]
      exact iff_of_true rfl (Or.inr (Or.inr nofun))
    | ok nodes =>
      obtain ⟨h, hspaced⟩ := hgrammar nodes hparse
      rw [read_of_parse_ok hplain hparse]
      by_cases hscope : settings.scope = []
      · have hempty : settings.scope.isEmpty = true := by simp [hscope]
        refine iff_of_true ?_ (Or.inr (Or.inl hscope))
        simp only [Except.bind, ofNodes?, hempty]
        rfl
      · have hiff := ofNodes?_marked_iff hplain hfault hscope h hspaced
        have hvalues : (root nodes).valuesOf settings.attributeName =
            valuesOfAll settings.attributeName nodes := rfl
        rw [hvalues] at hiff
        simp only [Except.bind]
        constructor
        · intro heq
          refine Or.inr (Or.inr ?_)
          rintro _ ⟨⟩
          refine hiff.mp ?_
          cases hm : ofNodes? s.marked settings nodes <;> cases hs : ofNodes? s settings nodes <;>
            rw [hm, hs] at heq
          · rfl
          · cases heq
          · cases heq
          · exact congrArg some (Except.ok.inj heq)
        · rintro (hnone | hscope' | hseen)
          · exact absurd rfl hnone
          · exact absurd hscope' hscope
          · rw [hiff.mpr (hseen nodes rfl)]
            cases ofNodes? s settings nodes <;> rfl

/-- A byte order mark makes no difference but for itself, and three bytes, exactly if the settings
are refused, nothing is to be qualified, or every class value is seen through the mark; and then
nothing but segments of templates changes. -/
theorem mark_is_transparent_iff (hplain : s.text.head? ≠ some '\uFEFF') {dialect : Dialect}
    (hgrammar : ∀ nodes, Markup.parse dialect s.text = .ok nodes →
      (root nodes).Faithful s ∧ (root nodes).WellSpaced s) :
    (run s.marked settings dialect = (run s settings dialect).map Outcome.marked ↔
      settings.fault? ≠ none ∨ settings.scope = [] ∨
      ∀ nodes, Markup.parse dialect s.text = .ok nodes →
        ∀ v ∈ valuesOfAll settings.attributeName nodes, v.SeenThrough s settings) ∧
    (run s.marked settings dialect = (run s settings dialect).map Outcome.marked →
      settings.fault? = none → settings.scope ≠ [] →
      ∀ nodes, Markup.parse dialect s.text = .ok nodes →
        ∀ r, InClassPosition s settings nodes r → r.Counts → r.literal.style = .segment) := by
  have hiff := run_marked_iff settings hplain hgrammar
  refine ⟨hiff, fun hsame hvalid hscope nodes hparse r hr hc => ?_⟩
  obtain ⟨h, hspaced⟩ := hgrammar nodes hparse
  rcases hiff.mp hsame with hfault | hempty | hseen
  · exact absurd hvalid hfault
  · exact absurd hempty hscope
  · obtain ⟨v, hv, hrv⟩ := List.mem_flatMap.mp ((mem_allRewrites h).mpr hr)
    exact (hseen nodes hparse v hv).segment hplain (Settings.scope_solid hvalid) h hspaced hv hrv hc

def quotedValue : Source := ⟨"<div className=\"a\" />;".toList⟩

theorem quoted_value_not_seen_through :
    quotedValue.text.head? ≠ some '\uFEFF' ∧
    (∀ nodes, Markup.parse .tsx quotedValue.text = .ok nodes →
      (root nodes).Faithful quotedValue ∧ (root nodes).WellSpaced quotedValue) ∧
    run quotedValue.marked Settings.defaults .tsx ≠
      (run quotedValue Settings.defaults .tsx).map Outcome.marked := by
  have hplain : quotedValue.text.head? ≠ some '\uFEFF' := by decide +kernel
  have hread : (Markup.parse .tsx quotedValue.text).toOption.any (fun nodes =>
      decide (((root nodes).Faithful quotedValue ∧ (root nodes).WellSpaced quotedValue) ∧
        ¬ ∀ v ∈ valuesOfAll Settings.defaults.attributeName nodes,
          v.SeenThrough quotedValue Settings.defaults)) = true := by decide +kernel
  cases hparse : Markup.parse .tsx quotedValue.text with
  | error f =>
    rw [hparse] at hread
    cases hread
  | ok nodes =>
    rw [hparse] at hread
    obtain ⟨hgrammar, hseen⟩ := of_decide_eq_true hread
    have hgrammar' : ∀ ns, Markup.parse .tsx quotedValue.text = .ok ns →
        (root ns).Faithful quotedValue ∧ (root ns).WellSpaced quotedValue := by
      intro ns hns
      obtain rfl : nodes = ns := Except.ok.inj (hparse.symm.trans hns)
      exact hgrammar
    refine ⟨hplain, by rwa [← hparse], fun heq => ?_⟩
    rcases (mark_is_transparent_iff hplain hgrammar').1.mp heq with hfault | hscope | hall
    · exact hfault (by decide +kernel)
    · exact absurd hscope (by decide +kernel)
    · exact hseen (hall nodes hparse)

end Transform
end ClassScope
