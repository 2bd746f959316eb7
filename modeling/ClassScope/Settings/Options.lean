import ClassScope.Json.Scalar
import ClassScope.Settings.Basic

/-! Options documents. Settings are written in JSON, either as an object whose keys are option
names, each at most once, or as an array of values in the order of the slots. What is left out
keeps its default. -/
namespace ClassScope.Settings
open Json

inductive Slot where
  | scope
  | debugging
  | attributeName
  | joinName
  deriving DecidableEq, Repr

namespace Slot

def all : List Slot := [scope, debugging, attributeName, joinName]

def key : Slot → String
  | scope => "prefix"
  | debugging => "enableDebugging"
  | attributeName => "attributeName"
  | joinName => "joinCallName"

def read? (slot : Slot) (s : Settings) (t : Text) : Option (Settings × Text) :=
  match slot with
  | scope => (string? t).map fun (v, r) => ({ s with scope := v }, r)
  | debugging => (bool? t).map fun (v, r) => ({ s with debugging := v }, r)
  | attributeName => (string? t).map fun (v, r) => ({ s with attributeName := v }, r)
  | joinName => (string? t).map fun (v, r) => ({ s with joinName := v }, r)

end Slot

/-- Reads `key : value` for one of the free slots; gives the slot too. -/
def member? (free : List Slot) (s : Settings) (t : Text) : Option (Slot × Settings × Text) := do
  let (key, t) ← string? t
  let slot ← free.find? (fun slot => slot.key.toList == key)
  match skipBlanks t with
  | ':' :: t =>
    let (s, t) ← slot.read? s (skipBlanks t)
    some (slot, s, t)
  | _ => none

/-- The rest of an object, from a key on. Each member takes a slot, so there are at most as many
members as slots. -/
def members? : Nat → List Slot → Settings → Text → Option (Settings × Text)
  | 0, _, _, _ => none
  | n + 1, free, s, t => do
    let (slot, s, t) ← member? free s t
    match skipBlanks t with
    | ',' :: t => members? n (free.erase slot) s (skipBlanks t)
    | '\x7d' :: t => some (s, t)
    | _ => none

def elements? : List Slot → Settings → Text → Option (Settings × Text)
  | [], _, _ => none
  | slot :: free, s, t => do
    let (s, t) ← slot.read? s t
    match skipBlanks t with
    | ',' :: t => elements? free s (skipBlanks t)
    | ']' :: t => some (s, t)
    | _ => none

def document? : Text → Option (Settings × Text)
  | '\x7b' :: t =>
    match skipBlanks t with
    | '\x7d' :: t => some (defaults, t)
    | t => members? Slot.all.length Slot.all defaults t
  | '[' :: t =>
    match skipBlanks t with
    | ']' :: t => some (defaults, t)
    | t => elements? Slot.all defaults t
  | _ => none

/-- The settings of an options document with nothing but blanks around it. -/
def ofOptions? (t : Text) : Option Settings :=
  match document? (skipBlanks t) with
  | some (s, rest) => if (skipBlanks rest).isEmpty then some s else none
  | none => none

def ofOptions (t : Text) : Except Fault Settings :=
  match ofOptions? t with
  | some s => s.validated
  | none => .error (.unreadable "not an options document".toList)

end ClassScope.Settings
