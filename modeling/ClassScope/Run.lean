import ClassScope.Discovery
import ClassScope.Glob
import ClassScope.Invocation.Basic
import ClassScope.Journal
import ClassScope.Report.Basic
import ClassScope.Sweep
import ClassScope.Transform

/-! A run over a file tree: the files are found, then all of them are read and qualified in
memory, then the results are put out one after the other. -/
namespace ClassScope.Run

inductive Fault where
  | settings (fault : Settings.Fault)
  | glob (text : Text)
  | missing (path : Path)
  | write (path : Path)
  | crossing
  deriving DecidableEq, Repr

/-- What is said when a run stops; nothing if it breaks off because edits cross. -/
def Fault.message? : Fault → Option Text
  | settings fault => some fault.message
  | glob text => some ("invalid glob pattern: ".toList ++ text)
  | missing path => some ("no such file or directory: ".toList ++ path)
  | write path => some ("failed to write ".toList ++ path)
  | crossing => none

def defaultGlobs : List Text :=
  ["**/node_modules/**", "**/dist/**", "**/.git/**"].map String.toList

/-- Reads globs; a path is ignored if one of them accepts it. -/
def ignoredBy (globs : List Text) : Except Fault (Path → Bool) := do
  let gs ← globs.mapM fun t =>
    match Glob.ofText? t with
    | some g => .ok g
    | none => .error (.glob t)
  return fun path => gs.any (·.accepts path)

structure Product where
  code : Text
  events : List Event
  skipped : List Remark

def remark (k : Skipped) : Remark := ⟨k.kind.label.toList, k.line⟩

def qualify (strategy : Strategy) (settings : Settings) (path : Path) (t : Text) :
    Except Transform.Fault Product :=
  match strategy with
  | .structural =>
    match Transform.run ⟨t⟩ settings (Dialect.ofFileName (some path)) with
    | .ok o => .ok ⟨o.code, o.events, o.skipped.map remark⟩
    | .error fault => .error fault
  | .sweep =>
    let pass := Sweep.sweep settings t
    .ok ⟨pass.code, pass.events, []⟩

structure Processed where
  report : FileReport
  code : Option Text

def processed (path : Path) (t : Text) (p : Product) : Processed :=
  let status := if p.code = t then FileStatus.unchanged else .changed
  ⟨⟨path, status, p.events, p.skipped, none⟩, some p.code⟩

def unread (path : Path) (reason : String) : Processed :=
  ⟨.failed path ("failed to read file: ".toList ++ reason.toList), none⟩

/-- Reads and qualifies a file. With debugging on, its events go to the log. A fault of which
something can be said is a result too; if edits cross there is none. -/
def process (i : Invocation) (settings : Settings) (tree : FileTree) (path : Path) :
    FileTree × Option Processed :=
  match tree.find? path with
  | some (.file (.text t)) =>
    match qualify i.strategy settings path t with
    | .ok p =>
      let logged := if settings.debugging then Journal.addAll i.debugLog tree p.events else tree
      (logged, some (processed path t p))
    | .error fault => (tree, fault.message?.map fun message => ⟨.failed path message, none⟩)
  | some (.file (.binary _)) => (tree, some (unread path "stream did not contain valid UTF-8"))
  | _ => (tree, some (unread path "no such file"))

/-- Processes files in order, up to the first without a result; the log of one is there when the
next is read. -/
def processAll (i : Invocation) (settings : Settings) (tree : FileTree) :
    List SourceFile → FileTree × Option (List (SourceFile × Processed))
  | [] => (tree, some [])
  | file :: files =>
    match process i settings tree file.path with
    | (tree, none) => (tree, none)
    | (tree, some p) =>
      let (tree, rest) := processAll i settings tree files
      (tree, rest.map ((file, p) :: ·))

structure State where
  tree : FileTree
  printed : Text

def store (s : State) (path : Path) (code : Text) : State × Option Fault :=
  match s.tree.write? path code with
  | some tree => ({ s with tree }, none)
  | none => (s, some (.write path))

/-- Puts out the new text of a file. On the screen it has a heading unless it is `alone`. -/
def emit (destination : Destination) (alone : Bool) (s : State) (file : SourceFile) (code : Text) :
    State × Option Fault :=
  match destination with
  | .stdout =>
    let shown :=
      if alone then code else "=== ".toList ++ file.path ++ " ===\n".toList ++ code ++ ['\n']
    ({ s with printed := s.printed ++ shown }, none)
  | .inPlace => store s file.path code
  | .folder folder =>
    let target := folder.join file.relative
    match target.parent? with
    | none => store s target code
    | some parent =>
      match s.tree.makeFolders parent with
      | (tree, true) => store { s with tree } target code
      | (tree, false) => ({ s with tree }, some (.write parent))

/-- Puts out files in order, up to the first fault. A file that did not change is not written in
place. -/
def emitAll (destination : Destination) (alone : Bool) (s : State) :
    List (SourceFile × Processed) → State × Option Fault
  | [] => (s, none)
  | (file, p) :: rest =>
    match p.code with
    | none => emitAll destination alone s rest
    | some code =>
      if p.report.status = .unchanged ∧ destination = .inPlace then
        emitAll destination alone s rest
      else
        match emit destination alone s file code with
        | (s, none) => emitAll destination alone s rest
        | (s, some fault) => (s, some fault)

def prepare (i : Invocation) (tree : FileTree) : Except Fault (Settings × List SourceFile) := do
  let settings ← (i.settings).mapError Fault.settings
  let ignored ← ignoredBy (i.ignored ++ defaultGlobs)
  let files ← (Discovery.ofRoots tree ignored i.paths).mapError fun m => Fault.missing m.path
  return (settings, files)

def run (i : Invocation) (tree : FileTree) : State × Except Fault (List FileReport) :=
  match prepare i tree with
  | .error fault => (⟨tree, []⟩, .error fault)
  | .ok (settings, files) =>
    match processAll i settings tree files with
    | (tree, none) => (⟨tree, []⟩, .error .crossing)
    | (tree, some done) =>
      match emitAll i.destination (files.length == 1) ⟨tree, []⟩ done with
      | (s, none) => (s, .ok (done.map (·.2.report)))
      | (s, some fault) => (s, .error fault)

end ClassScope.Run
