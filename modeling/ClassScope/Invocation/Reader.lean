import ClassScope.Invocation.Basic

/-! Command-line arguments. An option has its value after an equals sign or in the next argument,
where it may not look like an option; what belongs to no option is a path, and after two dashes
everything is. -/
namespace ClassScope.Invocation

inductive Usage where
  | unknownArgument
  | invalidValue
  | conflict
  | tooManyValues
  | help
  | version
  deriving DecidableEq, Repr

inductive Key where
  | scope
  | attributeName
  | joinName
  | options
  | query
  | debugLog
  | strategy
  | outFolder
  | ignored
  | format
  deriving DecidableEq, Repr

inductive Switch where
  | debugging
  | write
  | verbose
  | help
  | version
  deriving DecidableEq, Repr

def Key.named? : String → Option Key
  | "prefix" => some scope
  | "attribute-name" => some attributeName
  | "join-call-name" => some joinName
  | "options" => some options
  | "query" => some query
  | "debug-log" => some debugLog
  | "strategy" => some strategy
  | "out-dir" => some outFolder
  | "ignore" => some ignored
  | "output" => some format
  | _ => none

def Switch.named? : String → Option Switch
  | "enable-debugging" => some debugging
  | "write" => some write
  | "verbose" => some verbose
  | "help" => some help
  | "version" => some version
  | _ => none

def Switch.lettered? : Char → Option Switch
  | 'v' => some verbose
  | 'h' => some help
  | 'V' => some version
  | _ => none

def strategyOf? (value : Text) : Option Strategy :=
  match String.ofList value with
  | "structural" => some .structural
  | "regex" => some .sweep
  | _ => none

def formatOf? (value : Text) : Option ReportFormat :=
  match String.ofList value with
  | "human" => some .human
  | "json" => some .json
  | _ => none

def Key.admits : Key → Text → Bool
  | strategy, value => (strategyOf? value).isSome
  | format, value => (formatOf? value).isSome
  | _, _ => true

structure Draft where
  values : List (Key × Text) := []
  switches : List Switch := []
  paths : List Path := []
  /-- The last option, until its value is checked. It is `none` there while the value is still
  to come. -/
  pending : Option (Key × Option Text) := none

namespace Draft

/-- Gives an option its value. All but the globs are given once. -/
def assign (d : Draft) (k : Key) (value : Text) : Except Usage Draft :=
  if k ≠ .ignored ∧ d.values.any (·.1 == k) then .error .conflict
  else if k.admits value then .ok { d with values := d.values ++ [(k, value)] }
  else .error .invalidValue

/-- Checks the value of the last option. That is put off until something else is understood, so
that an unknown argument is the graver fault. -/
def settle (d : Draft) : Except Usage Draft :=
  match d.pending with
  | none => .ok d
  | some (_, none) => .error .invalidValue
  | some (k, some value) => { d with pending := none }.assign k value

def turnOn (d : Draft) (s : Switch) : Except Usage Draft := do
  let d ← d.settle
  match s with
  | .help => throw .help
  | .version => throw .version
  | s =>
    if d.switches.contains s then throw .conflict
    return { d with switches := d.switches ++ [s] }

def takeLong (d : Draft) (body : Text) : Except Usage Draft := do
  let name := String.ofList (body.takeWhile (· ≠ '='))
  let value := (body.dropWhile (· ≠ '=')).tail?
  match Key.named? name, Switch.named? name, value with
  | some k, _, some v => (← d.settle).assign k v
  | some k, _, none => return { (← d.settle) with pending := some (k, none) }
  | none, some _, some _ => throw .tooManyValues
  | none, some s, none => d.turnOn s
  | none, none, _ => throw .unknownArgument

def takeLetters (d : Draft) (letters : Text) : Except Usage Draft :=
  letters.foldlM (fun d c =>
    match Switch.lettered? c with
    | some s => d.turnOn s
    | none => .error .unknownArgument) d

def takeWord (d : Draft) (word : Text) : Except Usage Draft := do
  match d.pending with
  | some (k, none) => return { d with pending := some (k, some word) }
  | _ =>
    let d ← d.settle
    return { d with paths := d.paths ++ [word] }

def take (d : Draft) : Text → Except Usage Draft
  | '-' :: '-' :: body => d.takeLong body
  | '-' :: c :: letters => d.takeLetters (c :: letters)
  | word => d.takeWord word

def takeAll (d : Draft) : List Text → Except Usage Draft
  | [] => d.settle
  | arg :: rest =>
    if arg = ['-', '-'] then do
      let d ← d.settle
      return { d with paths := d.paths ++ rest }
    else do
      let d ← d.take arg
      takeAll d rest

def valuesOf (d : Draft) (k : Key) : List Text :=
  d.values.filterMap fun (other, value) => if other = k then some value else none

def value? (d : Draft) (k : Key) : Option Text := (d.valuesOf k).head?

def invocation (d : Draft) : Invocation where
  paths := if d.paths.isEmpty then [['.']] else d.paths
  scope := d.value? .scope
  attributeName := d.value? .attributeName
  joinName := d.value? .joinName
  options := d.value? .options
  query := d.value? .query
  debugging := d.switches.contains .debugging
  debugLog := (d.value? .debugLog).getD "classnames.log".toList
  strategy := ((d.value? .strategy).bind strategyOf?).getD .structural
  write := d.switches.contains .write
  outFolder := d.value? .outFolder
  ignored := d.valuesOf .ignored
  format := ((d.value? .format).bind formatOf?).getD .human
  verbose := d.switches.contains .verbose

end Draft

/-- Reads the arguments of a command line. Sources are not written both in place and elsewhere. -/
def ofArguments (args : List Text) : Except Usage Invocation := do
  let d ← Draft.takeAll {} args
  let i := d.invocation
  if i.write && i.outFolder.isSome then throw .conflict
  return i

end ClassScope.Invocation
