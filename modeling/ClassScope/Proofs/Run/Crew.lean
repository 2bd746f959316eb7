import ClassScope.Proofs.Run.Effect
import ClassScope.Proofs.Way

/-! Workers that share a log. Each file has a worker, which reads and qualifies it in one turn and
then records its events, one in a turn; the workers take their turns in any order. What each finds
does not depend on the order, and the log gets the events merged. -/
namespace ClassScope

/-- Lists merged into one: time and again the first element of one of them is taken, until nothing
is left. -/
inductive Merged {α : Type} : List (List α) → List α → Prop
  | done {ls : List (List α)} (h : ∀ l ∈ ls, l = []) : Merged ls []
  | take {ls : List (List α)} {k : Nat} {x : α} {rest xs : List α}
      (hk : ls[k]? = some (x :: rest)) (h : Merged (ls.set k rest) xs) : Merged ls (x :: xs)

namespace Merged

variable {α : Type} {ls : List (List α)} {xs : List α}

theorem exists_split {k : Nat} {l : List α} (h : ls[k]? = some l) (l' : List α) :
    ∃ front back, ls = front ++ l :: back ∧ ls.set k l' = front ++ l' :: back := by
  obtain ⟨hlt, rfl⟩ := List.getElem?_eq_some_iff.mp h
  obtain ⟨front, back, hsplit, -, hset⟩ := @List.exists_of_set _ _ l' _ hlt
  exact ⟨front, back, hsplit, hset⟩

theorem perm (h : Merged ls xs) : xs.Perm ls.flatten := by
  induction h with
  | done h => rw [List.flatten_eq_nil_iff.mpr h]
  | @take ls k x rest xs hk _ ih =>
    obtain ⟨front, back, hls, hset⟩ := exists_split hk rest
    rw [hset] at ih
    rw [hls]
    simp only [List.flatten_append, List.flatten_cons, List.cons_append] at ih ⊢
    exact (ih.cons x).trans List.perm_middle.symm

theorem eq_nil_iff (h : Merged ls xs) : xs = [] ↔ ls.flatten = [] := by
  rw [← List.length_eq_zero_iff, h.perm.length_eq, List.length_eq_zero_iff]

theorem sublist (h : Merged ls xs) : ∀ l ∈ ls, l.Sublist xs := by
  induction h with
  | done h =>
    intro l hl
    rw [h l hl]
  | @take ls k x rest xs hk _ ih =>
    obtain ⟨front, back, hls, hset⟩ := exists_split hk rest
    rw [hset] at ih
    rw [hls]
    intro l hl
    rcases List.mem_append.mp hl with hfront | hback
    · exact (ih l (List.mem_append_left _ hfront)).cons x
    · rcases List.mem_cons.mp hback with rfl | hback
      · exact (ih rest (by simp)).cons_cons x
      · exact (ih l (by simp [hback])).cons x

end Merged

namespace FileTree

def extend (tree : FileTree) (place : Place) (t : Text) : FileTree :=
  tree.put place (.file ((tree.contentAt place).append t))

theorem append?_eq (tree : FileTree) (path : Path) (t : Text) :
    tree.append? path t = (tree.target? path).map (tree.extend · t) := by
  unfold append?
  congr 1
  funext place
  cases hentry : tree.entryAt? place with
  | none => simp [extend, contentAt, hentry, Content.append]
  | some entry => cases entry <;> simp [extend, contentAt, hentry, Content.append]

end FileTree

theorem Content.append_append (c : Content) (s t : Text) :
    (c.append s).append t = c.append (s ++ t) := by
  cases c <;> simp [append]

namespace Journal
open FileTree

variable {log : Path} {tree : FileTree} {place : Place}

theorem add_of_target? (h : tree.target? log = some place) (e : Event) :
    add log tree e = tree.extend place (record e) := by
  rw [add, append?_eq, h]
  rfl

theorem add_of_target?_none (h : tree.target? log = none) (e : Event) : add log tree e = tree := by
  rw [add, append?_eq, h]
  rfl

theorem target?_add (log : Path) (tree : FileTree) (e : Event) (path : Path) :
    (add log tree e).target? path = tree.target? path := by
  obtain ⟨writes, hwrites, -⟩ := Run.evolves_addAll log tree [e]
  exact hwrites.target?_eq path

theorem addAll_append (log : Path) (tree : FileTree) (events more : List Event) :
    addAll log tree (events ++ more) = addAll log (addAll log tree events) more := by
  rw [addAll, addAll, addAll, List.foldl_append]

theorem addAll_of_target?_none (h : tree.target? log = none) (events : List Event) :
    addAll log tree events = tree := by
  induction events with
  | nil => rfl
  | cons e events ih => rw [addAll, List.foldl_cons, add_of_target?_none h, ← addAll, ih]

theorem entryAt?_addAll (h : tree.target? log = some place) (events : List Event) :
    (addAll log tree events).entryAt? place =
      if events = [] then tree.entryAt? place
      else some (.file ((tree.contentAt place).append (events.flatMap record))) := by
  induction events generalizing tree with
  | nil => rfl
  | cons e events ih =>
    have hnext : (add log tree e).entryAt? place =
        some (.file ((tree.contentAt place).append (record e))) := by
      rw [add_of_target? h, extend, entryAt?_put (target?_ne_folder h).1, if_pos rfl]
    have htarget : (add log tree e).target? log = some place := by rw [target?_add, h]
    rw [addAll, List.foldl_cons, ← addAll, ih htarget, if_neg (List.cons_ne_nil e events)]
    split_ifs with hnil
    · simp [hnext, hnil]
    · simp [contentAt, hnext, Content.append_append]

theorem contentAt_addAll (h : tree.target? log = some place) (events : List Event) :
    (addAll log tree events).contentAt place =
      (tree.contentAt place).append (events.flatMap record) := by
  rw [contentAt, entryAt?_addAll h]
  split_ifs with hnil
  · rw [← contentAt, hnil]
    cases tree.contentAt place <;> simp [Content.append]
  · rfl

end Journal

namespace Run
open FileTree

variable {i : Invocation} {settings : Settings} {tree tree' : FileTree}

def recorded (settings : Settings) (p : Processed) : List Event :=
  if settings.debugging then p.report.events else []

theorem events_of_failed {path : Path} {p : Processed}
    (h : (process i settings tree path).2 = some p) (hfailed : p.report.status = .failed) :
    p.report.events = [] := by
  rcases process_cases h with ⟨t, product, -, -, rfl⟩ | ⟨message, rfl, -⟩
  · by_cases hsame : product.code = t <;> simp [processed, hsame] at hfailed
  · rfl

theorem process_fst (i : Invocation) (settings : Settings) (tree : FileTree) (path : Path) :
    (process i settings tree path).1 = Journal.addAll i.debugLog tree
      ((process i settings tree path).2.elim [] (recorded settings)) := by
  have hnone : Journal.addAll i.debugLog tree (if settings.debugging then [] else []) = tree := by
    cases settings.debugging <;> rfl
  unfold process recorded
  split
  · split
    · dsimp only [processed, Option.elim]
      cases settings.debugging <;> rfl
    · rename_i fault _
      cases fault.message? with
      | none => rfl
      | some message => exact hnone.symm
  · exact hnone.symm
  · exact hnone.symm

theorem processAll_tree {files : List SourceFile} {done : List (SourceFile × Processed)}
    (h : (processAll i settings tree files).2 = some done) :
    (processAll i settings tree files).1 = Journal.addAll i.debugLog tree
      (done.map fun item => recorded settings item.2).flatten := by
  induction files generalizing tree done with
  | nil =>
    cases h
    rfl
  | cons file files ih =>
    obtain ⟨p, rest, hp, hrest, rfl⟩ := processAll_cons_eq_some.mp h
    have hfirst := process_fst i settings tree file.path
    rw [hp, Option.elim_some] at hfirst
    rw [processAll_of_some hp, List.map_cons, List.flatten_cons, Journal.addAll_append, ← hfirst]
    exact ih hrest

inductive Progress where
  | waiting
  | recording (events : List Event) (result : Processed)

structure Worker where
  file : SourceFile
  progress : Progress

namespace Worker

/-- What the worker has made of its file, or would make of it now. -/
def result (i : Invocation) (settings : Settings) (tree : FileTree) (w : Worker) :
    Option Processed :=
  match w.progress with
  | .waiting => (process i settings tree w.file.path).2
  | .recording _ result => some result

def pending (i : Invocation) (settings : Settings) (tree : FileTree) (w : Worker) : List Event :=
  match w.progress with
  | .waiting => (process i settings tree w.file.path).2.elim [] (recorded settings)
  | .recording events _ => events

def found? (w : Worker) : Option (SourceFile × Processed) :=
  match w.progress with
  | .waiting => none
  | .recording _ result => some (w.file, result)

def isDone (w : Worker) : Bool :=
  match w.progress with
  | .recording [] _ => true
  | _ => false

end Worker

/-- Workers, and what they share: the tree, and the place of the log once it is open. -/
structure Crew where
  tree : FileTree
  log : Option Place
  workers : List Worker

/-- Whose turn it is, and whether the log can be opened in it. -/
structure Turn where
  worker : Nat
  opens : Bool

namespace Crew

def start (tree : FileTree) (files : List SourceFile) : Crew :=
  ⟨tree, none, files.map (⟨·, .waiting⟩)⟩

/-- Adds a record to the log, which is opened first if it is not open yet. If it cannot be opened,
the record is lost. -/
def record (i : Invocation) (opens : Bool) (e : Event) (crew : Crew) : Crew :=
  match crew.log.or (if opens then crew.tree.target? i.debugLog else none) with
  | some place =>
    { crew with tree := crew.tree.extend place (Journal.record e), log := some place }
  | none => crew

/-- One turn of one worker; nothing happens if there is none or it has nothing left to do. A worker
whose file has edits that cross never gets on with it. -/
def turn (i : Invocation) (settings : Settings) (crew : Crew) (t : Turn) : Crew :=
  match crew.workers[t.worker]? with
  | some ⟨file, .waiting⟩ =>
    match (process i settings crew.tree file.path).2 with
    | some result =>
      { crew with
        workers := crew.workers.set t.worker ⟨file, .recording (recorded settings result) result⟩ }
    | none => crew
  | some ⟨file, .recording (e :: events) result⟩ =>
    { crew.record i t.opens e with
      workers := crew.workers.set t.worker ⟨file, .recording events result⟩ }
  | _ => crew

def work (i : Invocation) (settings : Settings) (crew : Crew) (schedule : List Turn) : Crew :=
  schedule.foldl (turn i settings) crew

/-- All workers are done, with these results. -/
def Done (crew : Crew) (done : List (SourceFile × Processed)) : Prop :=
  crew.workers = done.map fun item => ⟨item.1, .recording [] item.2⟩

/-- If the log is open, it is where its path leads. -/
def Anchored (i : Invocation) (crew : Crew) : Prop :=
  ∀ place, crew.log = some place → crew.tree.target? i.debugLog = some place

/-- The log is open where it should be, no worker's file is the log, and without debugging nothing
is recorded. -/
structure Steady (i : Invocation) (settings : Settings) (crew : Crew) : Prop where
  anchored : crew.Anchored i
  apart : ∀ w ∈ crew.workers, ∃ place, crew.tree.locate? w.file.path = some place ∧
    ¬ IsLog i settings crew.tree place
  silent : settings.debugging = false → ∀ w ∈ crew.workers, ∀ events result,
    w.progress = .recording events result → events = []

variable {crew : Crew} {t : Turn} {schedule : List Turn} {done : List (SourceFile × Processed)}

/-- What each worker has found, or would find now. -/
def results (i : Invocation) (settings : Settings) (crew : Crew) :
    List (SourceFile × Option Processed) :=
  crew.workers.map fun w => (w.file, w.result i settings crew.tree)

def pending (i : Invocation) (settings : Settings) (crew : Crew) : List (List Event) :=
  crew.workers.map (·.pending i settings crew.tree)

/-- Recording an event is what a run without workers does, or nothing. -/
theorem record_cases (h : crew.Anchored i) (opens : Bool) (e : Event) :
    (crew.record i opens e).workers = crew.workers ∧ (crew.record i opens e).Anchored i ∧
    ((crew.record i opens e).tree = Journal.add i.debugLog crew.tree e ∨
      opens = false ∧ (crew.record i opens e).tree = crew.tree) := by
  have hhandle : ∀ place, crew.log.or (if opens then crew.tree.target? i.debugLog else none) =
      some place → crew.tree.target? i.debugLog = some place := by
    intro place hplace
    rcases Option.or_eq_some_iff.mp hplace with hlog | ⟨-, hopen⟩
    · exact h place hlog
    · cases opens with
      | false => cases hopen
      | true => exact hopen
  unfold record
  split
  · rename_i place hplace
    have htarget := hhandle place hplace
    have hadd := Journal.add_of_target? htarget e
    refine ⟨rfl, ?_, .inl hadd.symm⟩
    rintro _ ⟨⟩
    rw [← hadd, Journal.target?_add, htarget]
  · rename_i hnone
    refine ⟨rfl, h, ?_⟩
    cases opens with
    | false => exact .inr ⟨rfl, rfl⟩
    | true => exact .inl (Journal.add_of_target?_none (Option.or_eq_none_iff.mp hnone).2 e).symm

/-- Whatever goes to the log, the crew stays steady and finds what it would have found. -/
theorem Steady.logged (h : crew.Steady i settings) {crew' : Crew}
    (hworkers : crew'.workers = crew.workers) (hanchored : crew'.Anchored i)
    {writes : List (Place × Content)} (hwrites : Evolves crew.tree crew'.tree [] writes)
    (hlog : ∀ w ∈ writes, IsLog i settings crew.tree w.1) :
    crew'.Steady i settings ∧ crew'.results i settings = crew.results i settings ∧
      crew'.pending i settings = crew.pending i settings := by
  have hfound : ∀ w ∈ crew.workers, (process i settings crew'.tree w.file.path).2 =
      (process i settings crew.tree w.file.path).2 := by
    intro w hw
    obtain ⟨place, hplace, hnot⟩ := h.apart w hw
    exact process_snd_of_logged hwrites hlog hplace hnot
  refine ⟨⟨hanchored, ?_, ?_⟩, ?_, ?_⟩
  · rw [hworkers]
    intro w hw
    obtain ⟨place, hplace, hnot⟩ := h.apart w hw
    exact ⟨place, hwrites.locate?_eq hplace, fun hislog => hnot ((isLog_iff hwrites).mp hislog)⟩
  · rw [hworkers]
    exact h.silent
  · rw [results, hworkers]
    exact List.map_congr_left fun w hw => by simp only [Worker.result, hfound w hw]
  · rw [pending, hworkers]
    exact List.map_congr_left fun w hw => by simp only [Worker.pending, hfound w hw]

theorem Steady.record (h : crew.Steady i settings) (hdebugging : settings.debugging = true)
    (opens : Bool) (e : Event) :
    (crew.record i opens e).Steady i settings ∧
      (crew.record i opens e).results i settings = crew.results i settings ∧
      (crew.record i opens e).pending i settings = crew.pending i settings := by
  obtain ⟨hworkers, hanchored, htree⟩ := record_cases h.anchored opens e
  obtain ⟨writes, hwrites, hlog⟩ : ∃ writes,
      Evolves crew.tree (crew.record i opens e).tree [] writes ∧
        ∀ w ∈ writes, IsLog i settings crew.tree w.1 := by
    rcases htree with hadd | ⟨-, hsame⟩
    · obtain ⟨writes, hwrites, hlog⟩ := evolves_addAll i.debugLog crew.tree [e]
      rw [hadd]
      exact ⟨writes, hwrites, fun w hw => ⟨hdebugging, hlog w hw⟩⟩
    · rw [hsame]
      exact ⟨[], .refl _, nofun⟩
  exact h.logged hworkers hanchored hwrites hlog

theorem Steady.set (h : crew.Steady i settings) {k : Nat} {w w' : Worker}
    (hk : crew.workers[k]? = some w) (hfile : w'.file = w.file)
    (hsilent : settings.debugging = false → ∀ events result,
      w'.progress = .recording events result → events = []) :
    ({ crew with workers := crew.workers.set k w' } : Crew).Steady i settings where
  anchored := h.anchored
  apart other hother := by
    rcases List.mem_or_eq_of_mem_set hother with hmem | rfl
    · exact h.apart other hmem
    · rw [hfile]
      exact h.apart w (List.mem_of_getElem? hk)
  silent hdebugging other hother := by
    rcases List.mem_or_eq_of_mem_set hother with hmem | rfl
    · exact h.silent hdebugging other hmem
    · exact hsilent hdebugging

theorem set_eq_self_of_getElem? {α : Type} {l : List α} {k : Nat} {x : α} (h : l[k]? = some x) :
    l.set k x = l := by
  obtain ⟨hlt, rfl⟩ := List.getElem?_eq_some_iff.mp h
  exact List.set_getElem_self hlt

/-- What can happen in a turn. Either nothing happens to the tree and to what is to be recorded, or
the first event of one worker is recorded, which may be in vain if the log cannot be opened. -/
inductive Moves (i : Invocation) (settings : Settings) (opens : Bool) (crew crew' : Crew) : Prop
  | quietly (htree : crew'.tree = crew.tree)
      (hpending : crew'.pending i settings = crew.pending i settings)
  | recording {k : Nat} {e : Event} {rest : List Event}
      (hk : (crew.pending i settings)[k]? = some (e :: rest))
      (hpending : crew'.pending i settings = (crew.pending i settings).set k rest)
      (htree : crew'.tree = Journal.add i.debugLog crew.tree e ∨
        opens = false ∧ crew'.tree = crew.tree)

theorem moves_turn (h : crew.Steady i settings) (t : Turn) :
    (crew.turn i settings t).Steady i settings ∧
    (crew.turn i settings t).results i settings = crew.results i settings ∧
    Moves i settings t.opens crew (crew.turn i settings t) := by
  unfold turn
  split
  · rename_i file hk
    split
    · rename_i result hprocess
      have hresult : (crew.results i settings)[t.worker]? = some (file, some result) := by
        rw [results, List.getElem?_map, hk, ← hprocess]
        rfl
      have hevents : (crew.pending i settings)[t.worker]? = some (recorded settings result) := by
        rw [pending, List.getElem?_map, hk, Option.map_some, Worker.pending, hprocess]
        rfl
      refine ⟨h.set hk rfl ?_, ?_, .quietly rfl ?_⟩
      · rintro hdebugging _ _ ⟨⟩
        simp [recorded, hdebugging]
      · rw [results, List.map_set]
        exact set_eq_self_of_getElem? hresult
      · rw [pending, List.map_set]
        exact set_eq_self_of_getElem? hevents
    · exact ⟨h, rfl, .quietly rfl rfl⟩
  · rename_i file e events result hk
    have hdebugging : settings.debugging = true := by
      by_contra hoff
      have hnone := h.silent ((Bool.not_eq_true _).mp hoff) _ (List.mem_of_getElem? hk) _ _ rfl
      cases hnone
    obtain ⟨hworkers, -, htree⟩ := record_cases h.anchored t.opens e
    obtain ⟨hsteady, hresults, hpending⟩ := h.record hdebugging t.opens e
    have hk' : (crew.record i t.opens e).workers[t.worker]? =
        some ⟨file, .recording (e :: events) result⟩ := by rw [hworkers, hk]
    have hresult : ((crew.record i t.opens e).results i settings)[t.worker]? =
        some (file, some result) := by
      rw [results, List.getElem?_map, hk']
      rfl
    have hevents : (crew.pending i settings)[t.worker]? = some (e :: events) := by
      rw [pending, List.getElem?_map, hk]
      rfl
    rw [← hworkers]
    refine ⟨hsteady.set hk' rfl ?_, ?_, .recording hevents ?_ htree⟩
    · intro hoff
      rw [hdebugging] at hoff
      cases hoff
    · rw [← hresults, results, List.map_set]
      exact set_eq_self_of_getElem? hresult
    · rw [← hpending, pending, List.map_set]
      rfl
  · exact ⟨h, rfl, .quietly rfl rfl⟩

def found (crew : Crew) : List (SourceFile × Processed) := crew.workers.filterMap (·.found?)

theorem done_found (h : ∀ w ∈ crew.workers, w.isDone = true) : crew.Done crew.found := by
  have hsame : ∀ w ∈ crew.workers, (w.found?.map fun item : SourceFile × Processed =>
      (⟨item.1, .recording [] item.2⟩ : Worker)) = some w := by
    rintro ⟨file, progress⟩ hw
    have hdone := h _ hw
    unfold Worker.isDone at hdone
    split at hdone
    · rename_i result hprogress
      cases hprogress
      rfl
    · cases hdone
  rw [Done, found, List.map_filterMap, List.filterMap_congr hsame, List.filterMap_some]

theorem pending_of_done (h : crew.Done done) : ∀ l ∈ crew.pending i settings, l = [] := by
  intro l hl
  rw [pending, h, List.map_map] at hl
  obtain ⟨item, -, rfl⟩ := List.mem_map.mp hl
  rfl

theorem results_of_done (h : crew.Done done) : crew.results i settings = finished done := by
  rw [results, h, List.map_map]
  rfl

/-- Work that comes to its end has merged into the log what was to be recorded; nothing is lost if
the log can be opened at all times. -/
theorem work_merges (h : crew.Steady i settings)
    (hdone : (crew.work i settings schedule).Done done) :
    finished done = crew.results i settings ∧ ∃ events logged,
      Merged (crew.pending i settings) events ∧
      logged.Sublist events ∧ ((∀ t ∈ schedule, t.opens = true) → logged = events) ∧
      (crew.work i settings schedule).tree = Journal.addAll i.debugLog crew.tree logged := by
  induction schedule generalizing crew with
  | nil =>
    exact ⟨(results_of_done hdone).symm, [], [], .done (pending_of_done hdone), .slnil,
      fun _ => rfl, rfl⟩
  | cons t schedule ih =>
    obtain ⟨hsteady, hresults, hmoves⟩ := moves_turn h t
    obtain ⟨hdone', events, logged, hmerged, hsub, hall, htree⟩ := ih hsteady hdone
    refine ⟨hdone'.trans hresults, ?_⟩
    cases hmoves with
    | quietly hsame hpending =>
      rw [hpending] at hmerged
      rw [hsame] at htree
      exact ⟨events, logged, hmerged, hsub, fun hopens => hall (List.forall_mem_cons.mp hopens).2,
        htree⟩
    | @recording k e rest hk hpending hnext =>
      rw [hpending] at hmerged
      rcases hnext with hadd | ⟨hopens, hsame⟩
      · rw [hadd] at htree
        exact ⟨e :: events, e :: logged, .take hk hmerged, hsub.cons_cons e,
          fun hopens => by rw [hall (List.forall_mem_cons.mp hopens).2], htree⟩
      · rw [hsame] at htree
        refine ⟨e :: events, logged, .take hk hmerged, hsub.cons e, fun hall => ?_, htree⟩
        rw [(List.forall_mem_cons.mp hall).1] at hopens
        cases hopens

theorem steady_start {files : List SourceFile}
    (h : ∀ file ∈ files, ∃ place, tree.locate? file.path = some place ∧
      ¬ IsLog i settings tree place) : (start tree files).Steady i settings where
  anchored := nofun
  apart w hw := by
    obtain ⟨file, hfile, rfl⟩ := List.mem_map.mp hw
    exact h file hfile
  silent := by
    rintro - w hw events result hprogress
    obtain ⟨file, -, rfl⟩ := List.mem_map.mp hw
    cases hprogress

/-! Worker by worker: a run without workers is one of the ways in which the work can be done. -/

theorem work_append (crew : Crew) (schedule more : List Turn) :
    crew.work i settings (schedule ++ more) =
      (crew.work i settings schedule).work i settings more := by
  rw [work, work, work, List.foldl_append]

variable {front back : List Worker} {file : SourceFile}

/-- A worker that has all turns records all its events. -/
theorem work_alone (settings : Settings) (h : crew.Anchored i) {events : List Event}
    {result : Processed}
    (hworkers : crew.workers = front ++ ⟨file, .recording events result⟩ :: back) :
    let crew' := crew.work i settings (List.replicate events.length ⟨front.length, true⟩)
    crew'.tree = Journal.addAll i.debugLog crew.tree events ∧
      crew'.workers = front ++ ⟨file, .recording [] result⟩ :: back ∧ crew'.Anchored i := by
  induction events generalizing crew with
  | nil => exact ⟨rfl, hworkers, h⟩
  | cons e events ih =>
    obtain ⟨-, hanchored, htree⟩ := record_cases h true e
    have hadd : (crew.record i true e).tree = Journal.add i.debugLog crew.tree e := by
      simpa using htree
    have hturn : crew.turn i settings ⟨front.length, true⟩ =
        { crew.record i true e with
          workers := front ++ ⟨file, .recording events result⟩ :: back } := by
      simp [turn, hworkers]
    have htree' : (crew.turn i settings ⟨front.length, true⟩).tree =
        Journal.add i.debugLog crew.tree e := by rw [hturn, ← hadd]
    have hanchored' : (crew.turn i settings ⟨front.length, true⟩).Anchored i := by
      rw [hturn]
      exact hanchored
    have hrest := ih hanchored' (by rw [hturn])
    rw [htree'] at hrest
    exact hrest

theorem exists_schedule_processAll {files : List SourceFile} (h : crew.Anchored i)
    (hworkers : crew.workers = front ++ files.map (⟨·, .waiting⟩))
    (hall : (processAll i settings crew.tree files).2 = some done) :
    ∃ schedule : List Turn, (∀ t ∈ schedule, t.opens = true) ∧
      (crew.work i settings schedule).tree = (processAll i settings crew.tree files).1 ∧
      (crew.work i settings schedule).workers =
        front ++ done.map fun item => ⟨item.1, .recording [] item.2⟩ := by
  induction files generalizing crew front done with
  | nil =>
    cases hall
    exact ⟨[], nofun, rfl, hworkers⟩
  | cons file files ih =>
    obtain ⟨result, rest, hresult, hrest, rfl⟩ := processAll_cons_eq_some.mp hall
    have hfirst := process_fst i settings crew.tree file.path
    rw [hresult, Option.elim_some] at hfirst
    have hturn : crew.turn i settings ⟨front.length, true⟩ =
        { crew with workers := front ++ ⟨file, .recording (recorded settings result) result⟩ ::
            files.map (⟨·, .waiting⟩) } := by
      simp [turn, hworkers, hresult]
    have hstarted : (crew.turn i settings ⟨front.length, true⟩).workers = front ++
        ⟨file, .recording (recorded settings result) result⟩ :: files.map (⟨·, .waiting⟩) := by
      rw [hturn]
    obtain ⟨htree, hdone, hanchored⟩ := work_alone settings (by rw [hturn]; exact h) hstarted
    have hsame : (crew.turn i settings ⟨front.length, true⟩).tree = crew.tree := by rw [hturn]
    rw [hsame, ← hfirst] at htree
    have hworkers' : ((crew.turn i settings ⟨front.length, true⟩).work i settings
          (List.replicate (recorded settings result).length ⟨front.length, true⟩)).workers =
        (front ++ [⟨file, .recording [] result⟩]) ++ files.map (⟨·, .waiting⟩) := by
      rw [hdone, List.append_assoc]
      rfl
    rw [← htree] at hrest
    obtain ⟨schedule, hopens, hlast, hdone'⟩ := ih hanchored hworkers' hrest
    refine ⟨⟨front.length, true⟩ :: (List.replicate (recorded settings result).length
      ⟨front.length, true⟩ ++ schedule), ?_, ?_, ?_⟩
    · rw [List.forall_mem_cons, List.forall_mem_append]
      exact ⟨rfl, fun t ht => by rw [List.eq_of_mem_replicate ht], hopens⟩
    · rw [work, List.foldl_cons, ← work, work_append, hlast, htree, processAll_of_some hresult]
    · rw [work, List.foldl_cons, ← work, work_append, hdone', List.map_cons, List.append_assoc]
      rfl

/-- A run without workers is a way to do the work. -/
theorem exists_schedule {files : List SourceFile}
    (hall : (processAll i settings tree files).2 = some done) :
    ∃ schedule : List Turn, (∀ t ∈ schedule, t.opens = true) ∧
      let crew := (start tree files).work i settings schedule
      crew.Done done ∧ crew.tree = (processAll i settings tree files).1 := by
  have hworkers : (start tree files).workers = [] ++ files.map (⟨·, .waiting⟩) := rfl
  have hanchored : (start tree files).Anchored i := nofun
  obtain ⟨schedule, hopens, htree, hdone⟩ := exists_schedule_processAll hanchored hworkers hall
  exact ⟨schedule, hopens, hdone, htree⟩

end Crew
end Run
end ClassScope
