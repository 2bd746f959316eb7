import ClassScope.Query
import ClassScope.Text.Blank
import ClassScope.Text.Quoted

/-! Settings of a transform, when they are usable, and how a resource query overrides them. -/
namespace ClassScope

structure Settings where
  scope : Text
  debugging : Bool
  attributeName : Text
  joinName : Text
  deriving DecidableEq, Repr

namespace Settings

inductive Fault where
  | unreadable (detail : Text)
  | badScope (scope : Text)
  | emptyName (option : Text)
  | badValue (parameter value : Text)
  deriving DecidableEq, Repr

def Fault.message : Fault → Text
  | unreadable detail => "invalid loader options: ".toList ++ detail
  | badScope scope => "invalid prefix ".toList ++ Text.quoted scope ++
      ": prefixes must not contain whitespace, quotes, `\\`, `$` or braces".toList
  | emptyName option => '\x60' :: option ++ "` must not be empty".toList
  | badValue parameter value => "invalid value ".toList ++ Text.quoted value ++
      " for query parameter `".toList ++ parameter ++ ['\x60']

def defaults : Settings where
  scope := "app".toList
  debugging := false
  attributeName := "className".toList
  joinName := "classnames".toList

/-- Characters with a meaning inside a literal or at its end. -/
def special : List Char := ['"', '\'', '\x60', '\\', '$', '\x7b', '\x7d']

def scopeChar (c : Char) : Bool := !(Text.isBlank c || special.contains c)

def fault? (s : Settings) : Option Fault :=
  if !s.scope.all scopeChar then some (.badScope s.scope)
  else if s.attributeName.isEmpty then some (.emptyName "attributeName".toList)
  else if s.joinName.isEmpty then some (.emptyName "joinCallName".toList)
  else none

def validated (s : Settings) : Except Fault Settings :=
  match s.fault? with
  | some f => .error f
  | none => .ok s

/-- The meaning of a flag's value; an empty value switches the flag on. -/
def flag? (value : Text) : Option Bool :=
  match String.ofList value with
  | "" | "true" | "1" => some true
  | "false" | "0" => some false
  | _ => none

def applyQuery (s : Settings) (query : Text) : Except Fault Settings :=
  let named : Settings :=
    { s with
      scope := (Query.param? "prefix".toList query).getD s.scope
      attributeName := (Query.param? "attributeName".toList query).getD s.attributeName
      joinName := (Query.param? "joinCallName".toList query).getD s.joinName }
  match Query.param? "enableDebugging".toList query with
  | none => named.validated
  | some value =>
    match flag? value with
    | some on => { named with debugging := on }.validated
    | none => .error (.badValue "enableDebugging".toList value)

end Settings
end ClassScope
