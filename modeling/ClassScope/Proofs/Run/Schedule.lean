import ClassScope.Invocation.Reader
import ClassScope.Proofs.Run.Crew

/-! Runs with workers. Whatever the order of the turns, the results are the same, and so is what is
put out, unless the log stands where a folder is needed; and the log has all events, unless a result
is put out over it. -/
namespace ClassScope.Run
open FileTree

variable {i : Invocation} {settings : Settings} {tree tree' : FileTree} {files : List SourceFile}
  {place : Place} {loose : Prop} {destination : Destination}

/-- The end of a run: the results are put out and reported. -/
def conclude (i : Invocation) (tree : FileTree) (done : List (SourceFile × Processed)) :
    State × Except Fault (List FileReport) :=
  match emitAll i.destination (done.length == 1) ⟨tree, []⟩ done with
  | (s, none) => (s, .ok (done.map (·.2.report)))
  | (s, some fault) => (s, .error fault)

theorem length_processAll {done : List (SourceFile × Processed)}
    (h : (processAll i settings tree files).2 = some done) : done.length = files.length := by
  induction files generalizing tree done with
  | nil =>
    cases h
    rfl
  | cons file files ih =>
    obtain ⟨p, rest, -, hrest, rfl⟩ := processAll_cons_eq_some.mp h
    rw [List.length_cons, List.length_cons, ih hrest]

theorem run_eq_conclude {done : List (SourceFile × Processed)}
    (h : prepare i tree = .ok (settings, files))
    (hall : (processAll i settings tree files).2 = some done) :
    run i tree = conclude i (processAll i settings tree files).1 done := by
  have hlength := length_processAll hall
  rcases hprocess : processAll i settings tree files with ⟨next, outcome⟩
  rw [hprocess] at hall
  cases hall
  rcases hemit : emitAll i.destination (files.length == 1) ⟨next, []⟩ done with ⟨s, fault⟩
  cases fault <;> simp [run, h, hprocess, conclude, hlength, hemit]

theorem conclude_ne_crossing (i : Invocation) (tree : FileTree)
    (done : List (SourceFile × Processed)) : (conclude i tree done).2 ≠ .error .crossing := by
  unfold conclude
  rcases hemit : emitAll i.destination (done.length == 1) ⟨tree, []⟩ done with ⟨s, fault⟩
  cases emission_emitAll hemit with
  | all => nofun
  | stopped => nofun

/-! Two runs side by side. -/

/-- Two states show the same on the screen and have the same trees but for one file; the two faults
are the same too. -/
structure EndAlike (place : Place) (loose : Prop) (r r' : State × Option Fault) : Prop where
  fault_eq : r'.2 = r.2
  printed_eq : r'.1.printed = r.1.printed
  tree : AlikeBut place loose r.1.tree r'.1.tree

variable {s s' : State}

theorem store_alike {s s' : State} (hprinted : s'.printed = s.printed)
    (h : AlikeBut place loose s.tree s'.tree) (path : Path) (code : Text) :
    EndAlike place loose (store s path code) (store s' path code) := by
  unfold store
  rcases h.write? path code with ⟨hnone, hnone'⟩ | ⟨next, next', hsome, hsome', hnext⟩
  · rw [hnone, hnone']
    exact ⟨rfl, hprinted, h⟩
  · rw [hsome, hsome']
    exact ⟨rfl, hprinted, hnext⟩

/-- The way to the folder of an output goes through a place. -/
def Crosses (place : Place) (tree : FileTree) (out : Path) : Prop :=
  ∃ parent, out.parent? = some parent ∧ place ∈ tree.way parent

theorem emit_alike (alone : Bool) (hprinted : s'.printed = s.printed)
    (h : AlikeBut place loose s.tree s'.tree) (file : SourceFile) (code : Text)
    (hway : loose → ∀ folder, destination = .folder folder →
      ¬ Crosses place s.tree (folder.join file.relative)) :
    EndAlike place loose (emit destination alone s file code)
      (emit destination alone s' file code) := by
  cases destination with
  | stdout => exact ⟨rfl, by simp only [emit, hprinted], h⟩
  | inPlace => exact store_alike hprinted h file.path code
  | folder folder =>
    simp only [emit]
    cases hparent : (folder.join file.relative).parent? with
    | none => exact store_alike hprinted h _ code
    | some parent =>
      obtain ⟨hflag, hmade⟩ := h.makeFolders fun hloose hmem =>
        hway hloose folder rfl ⟨parent, hparent, hmem⟩
      dsimp only
      rcases hleft : s.tree.makeFolders parent with ⟨next, made⟩
      rcases hright : s'.tree.makeFolders parent with ⟨next', made'⟩
      rw [hleft, hright] at hflag hmade
      obtain rfl : made' = made := hflag
      cases made' with
      | false => exact ⟨rfl, hprinted, hmade⟩
      | true =>
        have hstates : ({ s' with tree := next' } : State).printed =
            ({ s with tree := next } : State).printed := hprinted
        exact store_alike hstates hmade _ code

theorem here_emit {alone : Bool} {fault : Option Fault} {file : SourceFile} {code : Text}
    (h : emit destination alone s file code = (s', fault)) : s'.tree.here = s.tree.here := by
  rcases emit_cases h with ⟨-, _, _, hevolves, -⟩ | ⟨_, _, _, _, _, _, _, hevolves, -⟩
  · exact hevolves.here_eq
  · exact hevolves.here_eq

theorem emitAll_alike (alone : Bool) (hprinted : s'.printed = s.printed)
    (h : AlikeBut place loose s.tree s'.tree) {done : List (SourceFile × Processed)}
    (hway : loose → ∀ folder, destination = .folder folder →
      ∀ out ∈ outputs destination done, ¬ Crosses place s.tree out.1) :
    EndAlike place loose (emitAll destination alone s done)
      (emitAll destination alone s' done) := by
  induction done generalizing s s' with
  | nil => exact ⟨rfl, hprinted, h⟩
  | cons item done ih =>
    obtain ⟨file, p⟩ := item
    have hrest : loose → ∀ folder, destination = .folder folder →
        ∀ out ∈ outputs destination done, ¬ Crosses place s.tree out.1 := by
      intro hloose folder hfolder out hout
      refine hway hloose folder hfolder out ?_
      rw [outputs, List.filterMap_cons]
      split
      · exact hout
      · exact List.mem_cons_of_mem _ hout
    simp only [emitAll]
    cases hcode : p.code with
    | none => exact ih hprinted h hrest
    | some code =>
      dsimp only
      split_ifs with hsame
      · exact ih hprinted h hrest
      · have hfirst : loose → ∀ folder, destination = .folder folder →
            ¬ Crosses place s.tree (folder.join file.relative) := by
          rintro hloose folder rfl
          refine hway hloose folder rfl (folder.join file.relative, code) ?_
          have hout : output? (.folder folder) (file, p) =
              some (folder.join file.relative, code) :=
            output?_eq_some_iff.mpr ⟨rfl, hcode, hsame⟩
          exact List.mem_filterMap.mpr ⟨(file, p), List.mem_cons_self, hout⟩
        have hstep := emit_alike alone hprinted h file code hfirst
        rcases hleft : emit destination alone s file code with ⟨t, fault⟩
        rcases hright : emit destination alone s' file code with ⟨t', fault'⟩
        rw [hleft, hright] at hstep
        obtain rfl : fault' = fault := hstep.fault_eq
        cases fault' with
        | some fault => exact ⟨rfl, hstep.printed_eq, hstep.tree⟩
        | none =>
          refine ih hstep.printed_eq hstep.tree ?_
          rintro hloose folder hfolder out hout ⟨parent, hparent, hmem⟩
          rw [way_congr (here_emit hleft)] at hmem
          exact hrest hloose folder hfolder out hout ⟨parent, hparent, hmem⟩

/-- Two runs that differ in one file before they put out their results end in the same way. -/
theorem conclude_alike (h : AlikeBut place loose tree tree') (done : List (SourceFile × Processed))
    (hway : loose → ∀ folder, i.destination = .folder folder →
      ∀ out ∈ outputs i.destination done, ¬ Crosses place tree out.1) :
    (conclude i tree' done).2 = (conclude i tree done).2 ∧
      (conclude i tree' done).1.printed = (conclude i tree done).1.printed ∧
      AlikeBut place loose (conclude i tree done).1.tree (conclude i tree' done).1.tree := by
  have hstates : (State.mk tree' []).printed = (State.mk tree []).printed := rfl
  have hend := emitAll_alike (done.length == 1) hstates h hway
  unfold conclude
  rcases hleft : emitAll i.destination (done.length == 1) ⟨tree, []⟩ done with ⟨t, fault⟩
  rcases hright : emitAll i.destination (done.length == 1) ⟨tree', []⟩ done with ⟨t', fault'⟩
  rw [hleft, hright] at hend
  obtain rfl : fault' = fault := hend.fault_eq
  cases fault' with
  | none => exact ⟨rfl, hend.printed_eq, hend.tree⟩
  | some fault => exact ⟨rfl, hend.printed_eq, hend.tree⟩

theorem contentAt_conclude {done : List (SourceFile × Processed)}
    (h : ∀ out ∈ outputs i.destination done, tree.goal out.1 ≠ place) :
    (conclude i tree done).1.tree.contentAt place = tree.contentAt place := by
  have hemitted : ∀ outs next, (∀ out ∈ outs, out ∈ outputs i.destination done) →
      Emitted i.destination outs tree next → next.contentAt place = tree.contentAt place := by
    rintro outs next houts ⟨made, writes, hevolves, -, hstored⟩
    refine contentAt_of_unwritten hevolves (latest?_eq_none_iff.mpr fun w hw heq => ?_)
    obtain ⟨out, hout, hplace, -⟩ := hstored.exists_output hw
    refine h out (houts out hout) ?_
    rw [← goal_congr hevolves.here_eq, goal_of_locate? hplace, heq]
  have htree : (conclude i tree done).1 =
      (emitAll i.destination (done.length == 1) ⟨tree, []⟩ done).1 := by
    unfold conclude
    split <;> simp [*]
  rw [htree]
  rcases hemit : emitAll i.destination (done.length == 1) ⟨tree, []⟩ done with ⟨t, fault⟩
  cases emission_emitAll hemit with
  | all hall => exact hemitted _ _ (fun out hout => hout) hall
  | @stopped before after item out path hdone _ _ hstopped =>
    refine hemitted _ _ (fun out hout => ?_) hstopped
    rw [hdone, outputs, List.filterMap_append]
    exact List.mem_append_left _ hout

/-! Workers. -/

theorem alikeBut_addAll {log : Path} (h : tree.target? log = some place) {events more : List Event}
    (hloose : loose ∨ (events = [] ↔ more = []) ∨ tree.entryAt? place ≠ none) :
    AlikeBut place loose (Journal.addAll log tree events) (Journal.addAll log tree more) := by
  have hplace : ∀ {w : Place × Content}, tree.target? log = some w.1 → w.1 = place :=
    fun hw => Option.some.inj (hw.symm.trans h)
  obtain ⟨writes, hwrites, hlog⟩ := evolves_addAll log tree events
  obtain ⟨writes', hwrites', hlog'⟩ := evolves_addAll log tree more
  refine .of_evolves hwrites hwrites' (fun w hw => hplace (hlog w hw))
    (fun w hw => hplace (hlog' w hw)) (hloose.imp_right fun hkind => ?_)
  rw [Journal.entryAt?_addAll h, Journal.entryAt?_addAll h]
  rcases hkind with hiff | hsome
  · by_cases hnil : events = []
    · rw [if_pos hnil, if_pos (hiff.mp hnil)]
    · rw [if_neg hnil, if_neg (mt hiff.mpr hnil)]
      rfl
  · obtain ⟨entry, hentry⟩ := Option.ne_none_iff_exists'.mp hsome
    rw [hentry]
    split_ifs <;> rfl

/-- A new file at the place would stand where an output needs a folder. -/
def Obstructs (i : Invocation) (tree : FileTree) (done : List (SourceFile × Processed))
    (place : Place) : Prop :=
  tree.entryAt? place = none ∧ ∃ folder, i.destination = .folder folder ∧
    ∃ out ∈ outputs i.destination done, Crosses place tree out.1

/-- A result goes to the place, in the folder for results. -/
def WritesOver (i : Invocation) (tree : FileTree) (done : List (SourceFile × Processed))
    (place : Place) : Prop :=
  ∃ folder, i.destination = .folder folder ∧
    ∃ out ∈ outputs i.destination done, tree.goal out.1 = place

variable {done : List (SourceFile × Processed)}

theorem results_start :
    (Crew.start tree files).results i settings = findings i settings tree files := by
  simp [Crew.results, Crew.start, findings, Worker.result]

theorem pending_start : (Crew.start tree files).pending i settings =
    (findings i settings tree files).map fun item => item.2.elim [] (recorded settings) := by
  simp [Crew.pending, Crew.start, findings, Worker.pending]

/-- The file at the place has grown by the records of these events. -/
def Logged (place : Place) (events : List Event) (tree tree' : FileTree) : Prop :=
  tree'.contentAt place = (tree.contentAt place).append (events.flatMap Journal.record)

/-- What was logged makes no difference to the end of a run, if it is something or nothing in both
cases or the log obstructs nothing. -/
theorem conclude_addAll (hlog : tree.target? i.debugLog = some place) {logged events : List Event}
    (hkind : (events = [] ↔ logged = []) ∨ ¬ Obstructs i tree done place) :
    let final := conclude i (Journal.addAll i.debugLog tree logged) done
    let other := conclude i (Journal.addAll i.debugLog tree events) done
    final.2 = other.2 ∧ final.1.printed = other.1.printed ∧
      ∀ q ≠ place, final.1.tree.entryAt? q = other.1.tree.entryAt? q := by
  have halike : AlikeBut place (¬(events = [] ↔ logged = []) ∧ tree.entryAt? place = none)
      (Journal.addAll i.debugLog tree events) (Journal.addAll i.debugLog tree logged) := by
    refine alikeBut_addAll hlog ?_
    by_cases hiff : events = [] ↔ logged = []
    · exact .inr (.inl hiff)
    · by_cases hnone : tree.entryAt? place = none
      · exact .inl ⟨hiff, hnone⟩
      · exact .inr (.inr hnone)
  obtain ⟨writes, hwrites, -⟩ := evolves_addAll i.debugLog tree events
  obtain ⟨hresult, hprinted, htree⟩ := conclude_alike halike done (by
    rintro ⟨hiff, hnone⟩ folder hfolder out hout ⟨parent, hparent, hmem⟩
    rw [way_congr hwrites.here_eq] at hmem
    exact (hkind.resolve_left hiff) ⟨hnone, folder, hfolder, out, hout, parent, hparent, hmem⟩)
  exact ⟨hresult, hprinted, htree.elsewhere⟩

theorem addAll_of_not_isLog (hlog : ∀ place, ¬ IsLog i settings tree place) {events : List Event}
    (hevents : settings.debugging = false → events = []) :
    Journal.addAll i.debugLog tree events = tree := by
  cases hdebugging : settings.debugging with
  | false =>
    rw [hevents hdebugging]
    rfl
  | true =>
    refine Journal.addAll_of_target?_none ?_ events
    rw [Option.eq_none_iff_forall_ne_some]
    exact fun place hplace => hlog place ⟨hdebugging, hplace⟩

/-- Only in a folder for results can a result go to the place of the log: in place each goes to its
own file. -/
theorem goal_ne_of_mem_outputs (hislog : IsLog i settings tree place)
    (hfiles : ∀ file ∈ files, ∃ q, tree.locate? file.path = some q ∧ ¬ IsLog i settings tree q)
    (hfound : finished done = findings i settings tree files)
    (hover : ¬ WritesOver i tree done place) :
    ∀ out ∈ outputs i.destination done, tree.goal out.1 ≠ place := by
  intro out hout hgoal
  obtain ⟨item, hitem, hsome⟩ := List.mem_filterMap.mp hout
  obtain ⟨hfile, -⟩ := mem_of_finished hfound hitem
  have hpath := (output?_eq_some_iff.mp hsome).1
  cases hdestination : i.destination with
  | stdout =>
    rw [hdestination] at hpath
    cases hpath
  | inPlace =>
    rw [hdestination] at hpath
    obtain ⟨q, hq, hnot⟩ := hfiles item.1 hfile
    rw [← Option.some.inj hpath, goal_of_locate? hq] at hgoal
    exact hnot (hgoal ▸ hislog)
  | folder folder => exact hover ⟨folder, hdestination, out, hout, hgoal⟩

/-- Work from the start to the end: each file gets its result, and the events that reach the log are
among those of the files merged. -/
theorem start_merges {schedule : List Turn}
    (hfiles : ∀ file ∈ files, ∃ q, tree.locate? file.path = some q ∧ ¬ IsLog i settings tree q)
    (hdone : ((Crew.start tree files).work i settings schedule).Done done) :
    finished done = findings i settings tree files ∧ ∃ events logged,
      Merged (done.map fun item => recorded settings item.2) events ∧ logged.Sublist events ∧
      ((∀ t ∈ schedule, t.opens = true) → logged = events) ∧
      ((Crew.start tree files).work i settings schedule).tree =
        Journal.addAll i.debugLog tree logged := by
  obtain ⟨hfound, events, logged, hmerged, hrest⟩ :=
    Crew.work_merges (Crew.steady_start hfiles) hdone
  rw [results_start] at hfound
  rw [pending_start, ← hfound, finished, List.map_map] at hmerged
  exact ⟨hfound, events, logged, hmerged, hrest⟩

theorem logged_of_merged (hislog : IsLog i settings tree place)
    (hfiles : ∀ file ∈ files, ∃ q, tree.locate? file.path = some q ∧ ¬ IsLog i settings tree q)
    (hfound : finished done = findings i settings tree files) (events : List Event) :
    let logged := Journal.addAll i.debugLog tree events
    Logged place events tree logged ∧
      (¬ WritesOver i tree done place →
        Logged place events tree (conclude i logged done).1.tree) := by
  intro logged
  have hlogged : Logged place events tree logged := Journal.contentAt_addAll hislog.2 events
  refine ⟨hlogged, fun hover => ?_⟩
  obtain ⟨writes, hwrites, -⟩ := evolves_addAll i.debugLog tree events
  have hgoals : ∀ out ∈ outputs i.destination done, logged.goal out.1 ≠ place := by
    intro out hout
    rw [goal_congr hwrites.here_eq]
    exact goal_ne_of_mem_outputs hislog hfiles hfound hover out hout
  rw [Logged, contentAt_conclude hgoals]
  exact hlogged

/-- Events merged or file by file, and even if some are lost: the end is the same. -/
theorem conclude_merged {events logged : List Event}
    (hmerged : Merged (done.map fun item => recorded settings item.2) events)
    (hsub : logged.Sublist events)
    (hsafe : logged = events ∨
      ∀ place, IsLog i settings tree place → ¬ Obstructs i tree done place) :
    let final := conclude i (Journal.addAll i.debugLog tree logged) done
    let other := conclude i (Journal.addAll i.debugLog tree
      (done.map fun item => recorded settings item.2).flatten) done
    final.2 = other.2 ∧ final.1.printed = other.1.printed ∧
      ∀ q, ¬ IsLog i settings tree q → final.1.tree.entryAt? q = other.1.tree.entryAt? q := by
  by_cases hislog : ∃ place, IsLog i settings tree place
  · obtain ⟨place, hislog⟩ := hislog
    have hkind : ((done.map fun item => recorded settings item.2).flatten = [] ↔ logged = []) ∨
        ¬ Obstructs i tree done place := by
      rcases hsafe with hsame | hclear
      · rw [hsame]
        exact .inl hmerged.eq_nil_iff.symm
      · exact .inr (hclear place hislog)
    obtain ⟨hresult, hprinted, htrees⟩ := conclude_addAll hislog.2 hkind
    refine ⟨hresult, hprinted, fun q hq => htrees q ?_⟩
    rintro rfl
    exact hq hislog
  · have hnone : ∀ place, ¬ IsLog i settings tree place := not_exists.mp hislog
    have hquiet : settings.debugging = false →
        (done.map fun item => recorded settings item.2).flatten = [] := by
      intro hoff
      simp [recorded, hoff]
    have hlost : settings.debugging = false → logged = [] := by
      intro hoff
      rw [hmerged.eq_nil_iff.mpr (hquiet hoff)] at hsub
      exact List.sublist_nil.mp hsub
    rw [addAll_of_not_isLog hnone hquiet, addAll_of_not_isLog hnone hlost]
    exact ⟨rfl, rfl, fun _ _ => rfl⟩

/-- One worker for each file, all sharing the log, whatever the order of their turns. If edits cross,
the workers never come to an end. Otherwise a run without workers is one of the ways in which they
can work. In any other the results are the same, file by file. If the log can be opened, it gets the
events of all files merged, and keeps them unless a result is put out over it. Apart from the log
the run ends as one without workers does, also if the log could not be opened, unless it obstructs
an output. -/
theorem workers_share_the_log (h : tree.Sound) (hprepare : prepare i tree = .ok (settings, files))
    (hlog : ∀ file ∈ files, ∀ place, tree.locate? file.path = some place →
      ¬ IsLog i settings tree place) :
    ((run i tree).2 ≠ .error .crossing → ∃ (schedule : List Turn)
      (done : List (SourceFile × Processed)), (∀ t ∈ schedule, t.opens = true) ∧
        let crew := (Crew.start tree files).work i settings schedule
        (processAll i settings tree files).2 = some done ∧ crew.Done done ∧
          conclude i crew.tree done = run i tree) ∧
    ∀ (schedule : List Turn) (done : List (SourceFile × Processed)),
      let crew := (Crew.start tree files).work i settings schedule
      let final := conclude i crew.tree done
      crew.Done done →
        (run i tree).2 ≠ .error .crossing ∧
        (finished done = findings i settings tree files ∧
          ∀ item ∈ done, item.2.report.status = .failed → item.2.report.events = []) ∧
        ((∀ t ∈ schedule, t.opens = true) → ∀ place, IsLog i settings tree place →
          ∃ events, Merged (done.map (·.2.report.events)) events ∧
            events.Perm (done.map (·.2.report.events)).flatten ∧
            (∀ item ∈ done, item.2.report.events.Sublist events) ∧
            Logged place events tree crew.tree ∧
            (¬ WritesOver i tree done place → Logged place events tree final.1.tree)) ∧
        ((∀ t ∈ schedule, t.opens = true) ∨
            (∀ place, IsLog i settings tree place → ¬ Obstructs i tree done place) →
          final.2 = (run i tree).2 ∧ final.1.printed = (run i tree).1.printed ∧
            ∀ place, ¬ IsLog i settings tree place →
              final.1.tree.entryAt? place = (run i tree).1.tree.entryAt? place) := by
  have hfiles : ∀ file ∈ files, ∃ place, tree.locate? file.path = some place ∧
      ¬ IsLog i settings tree place := by
    intro file hfile
    obtain ⟨-, place, _, hplace, -⟩ := found_of_prepare h hprepare hfile
    exact ⟨place, hplace, hlog file hfile place hplace⟩
  constructor
  · intro hends
    cases hall : (processAll i settings tree files).2 with
    | none =>
      rw [run_of_crossing hprepare hall] at hends
      exact absurd rfl hends
    | some done =>
      obtain ⟨schedule, hopens, hdone, htree⟩ := Crew.exists_schedule hall
      exact ⟨schedule, done, hopens, rfl, hdone, by rw [htree, run_eq_conclude hprepare hall]⟩
  intro schedule done crew final hdone
  obtain ⟨hfound, events, logged, hmerged, hsub, hopen, htree⟩ := start_merges hfiles hdone
  have htree : crew.tree = Journal.addAll i.debugLog tree logged := htree
  have hall : (processAll i settings tree files).2 = some done := (processAll_snd hfiles).mpr hfound
  have hrun := run_eq_conclude hprepare hall
  refine ⟨by rw [hrun]; exact conclude_ne_crossing i _ done, ⟨hfound, ?_⟩, ?_, ?_⟩
  · intro item hitem hfailed
    exact events_of_failed (mem_of_finished hfound hitem).2 hfailed
  · intro hopens place hislog
    have hrecorded : (done.map fun item => recorded settings item.2) =
        done.map (·.2.report.events) := by
      simp only [recorded, hislog.1, if_true]
    rw [hrecorded] at hmerged
    rw [hopen hopens] at htree
    refine ⟨events, hmerged, hmerged.perm,
      fun item hitem => hmerged.sublist _ (List.mem_map_of_mem hitem), ?_⟩
    have hlogged := logged_of_merged hislog hfiles hfound events
    rw [← htree] at hlogged
    exact hlogged
  · intro hsafe
    have hsame := conclude_merged hmerged hsub (hsafe.imp_left hopen)
    rw [← htree, ← processAll_tree hall, ← hrun] at hsame
    exact hsame

def shared : Invocation :=
  Invocation.Draft.invocation
    { paths := ["a.jsx", "b.jsx", "c.jsx"].map String.toList
      switches := [.write, .debugging]
      values := [(.debugLog, "log".toList)] }

def sharedTree : FileTree where
  here := []
  entries :=
    [(["a.jsx".toList], .file (.text "<i className=\x7bx?\"a\":\"b\"\x7d />;".toList)),
      (["b.jsx".toList], .file (.text "<i className=\"c\" />;".toList)),
      (["c.jsx".toList], .file (.text "<i".toList)), (["log".toList], .file (.text "-".toList))]

def sharedFiles : List SourceFile :=
  ["a.jsx", "b.jsx", "c.jsx"].map fun name => ⟨name.toList, name.toList⟩

def sharedSettings : Settings := { Settings.defaults with debugging := true }

def sharedSchedule : List Turn := [1, 0, 2, 0, 1, 0].map (⟨·, true⟩)

def sharedCrew : Crew :=
  (Crew.start sharedTree sharedFiles).work shared sharedSettings sharedSchedule

theorem shared_log_has_merged_events :
    sharedTree.Sound ∧ prepare shared sharedTree = .ok (sharedSettings, sharedFiles) ∧
      IsLog shared sharedSettings sharedTree ["log".toList] ∧
      ∃ done, sharedCrew.Done done ∧
        let final := conclude shared sharedCrew.tree done
        final.2 = (run shared sharedTree).2 ∧
        final.1.tree.entryAt? ["a.jsx".toList] =
          (run shared sharedTree).1.tree.entryAt? ["a.jsx".toList] ∧
        final.1.tree.contentAt ["log".toList] = .text (("-" ++
          "Original: \"a\" => Updated: \"app-a\"\n\n" ++
          "Original: \"c\" => Updated: \"app-c\"\n\n" ++
          "Original: \"b\" => Updated: \"app-b\"\n\n").toList) ∧
        ∃ events, Merged (done.map (·.2.report.events)) events ∧
          Logged ["log".toList] events sharedTree final.1.tree := by
  have hsound : sharedTree.Sound := by decide +kernel
  have hprepare : prepare shared sharedTree = .ok (sharedSettings, sharedFiles) := by
    decide +kernel
  have htarget : sharedTree.target? shared.debugLog = some ["log".toList] := by decide +kernel
  have hplaces : ∀ file ∈ sharedFiles, sharedTree.locate? file.path ≠ some ["log".toList] := by
    decide +kernel
  have hislog : ∀ place, IsLog shared sharedSettings sharedTree place ↔ place = ["log".toList] :=
    fun place => ⟨fun h => Option.some.inj (h.2.symm.trans htarget), fun h => ⟨rfl, h ▸ htarget⟩⟩
  have hlog : ∀ file ∈ sharedFiles, ∀ place, sharedTree.locate? file.path = some place →
      ¬ IsLog shared sharedSettings sharedTree place :=
    fun file hfile place hplace h => hplaces file hfile ((hislog place).mp h ▸ hplace)
  have hdone : sharedCrew.Done sharedCrew.found := Crew.done_found (by decide +kernel)
  have hopens : ∀ t ∈ sharedSchedule, t.opens = true := by decide +kernel
  have hcrew : (Crew.start sharedTree sharedFiles).work shared sharedSettings sharedSchedule =
      sharedCrew := rfl
  have hall := (workers_share_the_log hsound hprepare hlog).2 sharedSchedule sharedCrew.found
  rw [hcrew] at hall
  obtain ⟨-, -, hlogs, hsame⟩ := hall hdone
  obtain ⟨events, hmerged, -, -, hlogged, hkept⟩ := hlogs hopens _ ((hislog _).mpr rfl)
  obtain ⟨hresult, -, htree⟩ := hsame (.inl hopens)
  have hcontent : sharedCrew.tree.contentAt ["log".toList] = .text (("-" ++
      "Original: \"a\" => Updated: \"app-a\"\n\n" ++
      "Original: \"c\" => Updated: \"app-c\"\n\n" ++
      "Original: \"b\" => Updated: \"app-b\"\n\n").toList) := by decide +kernel
  have hother : ¬ IsLog shared sharedSettings sharedTree ["a.jsx".toList] := by
    rw [hislog]
    decide +kernel
  have hfinal := hkept fun ⟨_, hfolder, _⟩ => nomatch hfolder
  exact ⟨hsound, hprepare, (hislog _).mpr rfl, _, hdone, hresult, htree _ hother,
    (Eq.trans hfinal (Eq.symm hlogged)).trans hcontent, events, hmerged, hfinal⟩

def loggedOver : Invocation :=
  Invocation.Draft.invocation
    { paths := ["a.jsx".toList], switches := [.debugging]
      values := [(.debugLog, "out/a.jsx".toList), (.outFolder, "out".toList)] }

def loggedAcross : Invocation :=
  Invocation.Draft.invocation
    { paths := ["a.jsx".toList], switches := [.debugging]
      values := [(.debugLog, "out".toList), (.outFolder, "out".toList)] }

def soleFile : SourceFile := ⟨"a.jsx".toList, "a.jsx".toList⟩

def soleEntry : Place × Entry := (["a.jsx".toList], .file (.text "<i className=\"a\" />;".toList))

def readyTree : FileTree := ⟨[], [soleEntry, (["out".toList], .folder)]⟩

def bareTree : FileTree := ⟨[], [soleEntry]⟩

def readyCrew : Crew :=
  (Crew.start readyTree [soleFile]).work loggedOver sharedSettings [⟨0, true⟩, ⟨0, true⟩]

def bareCrew : Crew :=
  (Crew.start bareTree [soleFile]).work loggedAcross sharedSettings [⟨0, false⟩, ⟨0, false⟩]

/-- A result that goes to the place of the log leaves no record there. A log where a folder is
needed lets the run fail, which goes well if the log cannot be opened. -/
theorem output_goes_over_log :
    prepare loggedOver readyTree = .ok (sharedSettings, [soleFile]) ∧
      IsLog loggedOver sharedSettings readyTree ["out".toList, "a.jsx".toList] ∧
      readyTree.locate? soleFile.path ≠ some ["out".toList, "a.jsx".toList] ∧
      (∃ done, readyCrew.Done done ∧ ∀ events, ¬ Logged ["out".toList, "a.jsx".toList] events
        readyTree (conclude loggedOver readyCrew.tree done).1.tree) ∧
      prepare loggedAcross bareTree = .ok (sharedSettings, [soleFile]) ∧
      (run loggedAcross bareTree).2 = .error (.write "out".toList) ∧
      ∃ done, bareCrew.Done done ∧ (conclude loggedAcross bareCrew.tree done).2.isOk = true := by
  have hready : readyCrew.Done readyCrew.found := Crew.done_found (by decide +kernel)
  have hbare : bareCrew.Done bareCrew.found := Crew.done_found (by decide +kernel)
  have hcode : (conclude loggedOver readyCrew.tree readyCrew.found).1.tree.contentAt
      ["out".toList, "a.jsx".toList] = .text "<i className=\"app-a\" />;".toList := by
    decide +kernel
  have hfresh : readyTree.contentAt ["out".toList, "a.jsx".toList] = .text [] := by decide +kernel
  refine ⟨by decide +kernel, ⟨rfl, by decide +kernel⟩, by decide +kernel, ⟨_, hready, ?_⟩,
    by decide +kernel, by decide +kernel, _, hbare, by decide +kernel⟩
  intro events hlogged
  rw [Logged, hcode, hfresh] at hlogged
  cases events with
  | nil => cases hlogged
  | cons e events => cases hlogged

end ClassScope.Run
