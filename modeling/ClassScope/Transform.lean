import ClassScope.ClassValue.Classify
import ClassScope.ClassValue.Qualify
import ClassScope.Markup.Grammar.Source
import ClassScope.Settings.Basic

/-! The structural transform: a source is read in full, the values of its class attributes are
qualified, and everything else stays as it is, byte for byte. -/
namespace ClassScope

namespace Node

mutual

/-- The values of all attributes called `name`, each before those nested in it. -/
def valuesOf (name : Text) : Node → List Node
  | .identifier _ _ | .string _ _ | .quoted _ => []
  | .parens _ inner | .spread _ inner | .slot _ inner => valuesOf name inner
  | .conditional _ test consequent alternate =>
    valuesOf name test ++ valuesOf name consequent ++ valuesOf name alternate
  | .template _ _ parts | .other _ _ parts => valuesOfAll name parts
  | .call _ callee arguments => valuesOf name callee ++ valuesOfAll name arguments
  | .attr attrName value =>
    (if attrName = some name then [value] else []) ++ valuesOf name value

def valuesOfAll (name : Text) : List Node → List Node
  | [] => []
  | n :: ns => valuesOf name n ++ valuesOfAll name ns

end

end Node

namespace Transform

structure Outcome where
  code : Text
  edits : List Edit
  events : List Event
  skipped : List Skipped
  deriving Repr

def Outcome.isUnchanged (o : Outcome) : Bool := o.edits.isEmpty

inductive Fault where
  | grammar (message : Text) (line column : Nat)
  | settings (fault : Settings.Fault)
  | crossing
  deriving DecidableEq, Repr

/-- What is said of a source for which there is no outcome. Edits that cross break everything off,
and nothing is said of them. -/
def Fault.message? : Fault → Option Text
  | grammar message line column =>
    some ("parse error at ".toList ++ (toString line).toList ++ ':' :: (toString column).toList ++
      ": ".toList ++ message)
  | settings fault => some fault.message
  | crossing => none

def ledger (source : Source) (settings : Settings) (nodes : List Node) : Ledger :=
  Ledger.ofValues settings.scope
    ((Node.valuesOfAll settings.attributeName nodes).map
      (source.classifyValue settings.joinName))

/-- The outcome for a source that was read into these nodes; `none` if edits cross. -/
def ofNodes? (source : Source) (settings : Settings) (nodes : List Node) : Option Outcome := do
  if settings.scope.isEmpty then return ⟨source.text, [], [], []⟩
  let b := ledger source settings nodes
  let code ← Edit.splice? source.text b.edits
  return ⟨code, b.edits, b.events, b.skipped⟩

def read (source : Source) (dialect : Dialect) : Except Fault (List Node) :=
  match Markup.parse dialect source.body with
  | .ok nodes => .ok nodes
  | .error f =>
    .error (.grammar "unexpected token".toList (Text.line f.offset source.body)
      (Text.column f.offset source.body))

def run (source : Source) (settings : Settings) (dialect : Dialect) : Except Fault Outcome := do
  discard ((settings.validated).mapError Fault.settings)
  let nodes ← read source dialect
  match ofNodes? source settings nodes with
  | some outcome => return outcome
  | none => throw .crossing

/-- What a run tells its listener: nothing, unless debugging is on. -/
def Outcome.recorded (o : Outcome) (settings : Settings) : List Event :=
  if settings.debugging then o.events else []

end Transform
end ClassScope
