import ClassScope.Path
import ClassScope.Settings.Options

/-! What a user asks for: the files to work on, the settings in layers, and where the result
goes. -/
namespace ClassScope

inductive Strategy where
  | structural
  | sweep
  deriving DecidableEq, Repr

inductive ReportFormat where
  | human
  | json
  deriving DecidableEq, Repr

inductive Destination where
  | stdout
  | inPlace
  | folder (path : Path)
  deriving DecidableEq, Repr

structure Invocation where
  paths : List Path
  scope : Option Text
  attributeName : Option Text
  joinName : Option Text
  options : Option Text
  query : Option Text
  debugging : Bool
  debugLog : Path
  strategy : Strategy
  write : Bool
  outFolder : Option Path
  ignored : List Text
  format : ReportFormat
  verbose : Bool
  deriving DecidableEq, Repr

namespace Invocation

def destination (i : Invocation) : Destination :=
  match i.outFolder with
  | some path => .folder path
  | none => if i.write then .inPlace else .stdout

def documented (i : Invocation) : Except Settings.Fault Settings :=
  match i.options with
  | some document => Settings.ofOptions document
  | none => .ok Settings.defaults

def queried (i : Invocation) (s : Settings) : Except Settings.Fault Settings :=
  match i.query with
  | some query => s.applyQuery query
  | none => .ok s

def flagged (i : Invocation) (s : Settings) : Settings where
  scope := i.scope.getD s.scope
  debugging := i.debugging || s.debugging
  attributeName := i.attributeName.getD s.attributeName
  joinName := i.joinName.getD s.joinName

/-- The settings of a run: defaults, options document, query and single options, a later layer
over an earlier one. Each layer has to be sound by itself. -/
def settings (i : Invocation) : Except Settings.Fault Settings := do
  let s ← i.documented
  let s ← i.queried s
  (i.flagged s).validated

end Invocation
end ClassScope
