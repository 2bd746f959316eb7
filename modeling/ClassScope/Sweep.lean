import ClassScope.ClassList
import ClassScope.Event
import ClassScope.Settings.Basic
import ClassScope.Text.Line
import ClassScope.Text.Word

/-! The sweep: class names are qualified wherever the text looks right, without reading the
source by its grammar. A first pass takes every quoted string between the brackets of a call of
the joining function; a second pass, over what the first one wrote, takes quoted strings after the
attribute's name and an equals sign or a colon. -/
namespace ClassScope.Sweep
open Text

inductive Piece (α : Type) where
  | plain (c : Char)
  | found (value : α) (text : Text)

/-- Looks for a match at the start of a text, given the character in front. Gives its value, its
text and what follows. -/
abbrev Finder (α : Type) := Option Char → Text → Option (α × Text × Text)

/-- Cuts a text at the leftmost matches. Each piece takes a character at least, so that the length
of the text is fuel enough. -/
def cut {α : Type} (find : Finder α) : Nat → Option Char → Text → List (Piece α)
  | _, _, [] => []
  | 0, _, t => t.map .plain
  | fuel + 1, before, c :: t =>
    match find before (c :: t) with
    | some (value, text, rest) => .found value text :: cut find fuel (text.getLast?.or before) rest
    | none => .plain c :: cut find fuel (some c) t

def pieces {α : Type} (find : Finder α) (t : Text) : List (Piece α) := cut find t.length none t

/-- The body of a quoted string in which a backslash takes the next character with it: it, and
what follows the closing quote. -/
def quotedBody? (quote : Char) : Text → Option (Text × Text)
  | [] => none
  | '\\' :: c :: t =>
    if c = '\n' then none
    else (quotedBody? quote t).map fun (s, r) => ('\\' :: c :: s, r)
  | c :: t =>
    if c = quote then some ([], t)
    else if c = '\\' then none
    else (quotedBody? quote t).map fun (s, r) => (c :: s, r)

def quoted : Finder (Char × Text)
  | _, [] => none
  | _, q :: t =>
    if q = '"' ∨ q = '\'' then
      (quotedBody? q t).map fun (s, r) => ((q, s), q :: s ++ [q], r)
    else none

def nameAt? (name : Text) (before : Option Char) (t : Text) : Option Text :=
  match name with
  | c :: _ => if isWordStart before c then name.isPrefixOf? t else none
  | [] => none

/-- A call of `name` with something between its brackets, up to the first closing one. -/
def joinCall (name : Text) : Finder Text := fun before t =>
  match nameAt? name before t with
  | some ('(' :: rest) =>
    let arguments := rest.takeWhile (· ≠ ')')
    match rest.dropWhile (· ≠ ')') with
    | _ :: after =>
      if arguments.isEmpty then none
      else some (arguments, name ++ '(' :: arguments ++ [')'], after)
    | [] => none
  | _ => none

structure Assigned where
  /-- The mark between name and value, with the blanks around it. -/
  separator : Text
  quote : Char
  inner : Text

def plainQuoted? : Text → Option (Char × Text × Text)
  | q :: t =>
    if q = '"' ∨ q = '\'' then
      match t.dropWhile (· ≠ q) with
      | _ :: after => some (q, t.takeWhile (· ≠ q), after)
      | [] => none
    else none
  | [] => none

/-- `name` with an equals sign or a colon and a quoted value. -/
def assigned (name : Text) : Finder Assigned := fun before t =>
  match nameAt? name before t with
  | none => none
  | some rest =>
    let lead := rest.takeWhile isBlank
    match rest.dropWhile isBlank with
    | mark :: rest =>
      if mark = ':' ∨ mark = '=' then
        let trail := rest.takeWhile isBlank
        match plainQuoted? (rest.dropWhile isBlank) with
        | some (q, inner, after) =>
          let separator := lead ++ mark :: trail
          some (⟨separator, q, inner⟩, name ++ separator ++ q :: inner ++ [q], after)
        | none => none
      else none
    | [] => none

structure Pass where
  code : Text
  events : List Event

/-- Replaces the matches in a list of pieces. `line` is the line of the first piece; lines end with
a line feed. -/
def replaceAll {α : Type} (replace : Nat → α → Pass) : Nat → List (Piece α) → Pass
  | _, [] => ⟨[], []⟩
  | line, .plain c :: rest =>
    let more := replaceAll replace (if c = '\n' then line + 1 else line) rest
    ⟨c :: more.code, more.events⟩
  | line, .found value text :: rest =>
    let here := replace line value
    let more := replaceAll replace (line + text.lineFeeds) rest
    ⟨here.code ++ more.code, here.events ++ more.events⟩

def qualified (scope : Text) (line : Nat) (inner : Text) : Text × Event :=
  let updated := ClassList.qualify scope inner
  (updated, ⟨inner, updated, line⟩)

def requote (scope : Text) (line : Nat) (string : Char × Text) : Pass :=
  let (updated, event) := qualified scope line string.2
  ⟨string.1 :: updated ++ [string.1], [event]⟩

/-- A call with the names in its strings qualified; all are reported for the call's line. -/
def qualifyCall (scope name : Text) (line : Nat) (arguments : Text) : Pass :=
  let inside := replaceAll (fun _ => requote scope line) line (pieces quoted arguments)
  ⟨name ++ '(' :: inside.code ++ [')'], inside.events⟩

def qualifyAssigned (scope name : Text) (line : Nat) (a : Assigned) : Pass :=
  let value := requote scope line (a.quote, a.inner)
  ⟨name ++ a.separator ++ value.code, value.events⟩

def joinPass (scope name t : Text) : Pass :=
  replaceAll (qualifyCall scope name) 1 (pieces (joinCall name) t)

def attributePass (scope name t : Text) : Pass :=
  replaceAll (qualifyAssigned scope name) 1 (pieces (assigned name) t)

/-- Both passes; an empty scope leaves the text alone. -/
def sweep (settings : Settings) (t : Text) : Pass :=
  if settings.scope.isEmpty then ⟨t, []⟩
  else
    let first := joinPass settings.scope settings.joinName t
    let second := attributePass settings.scope settings.attributeName first.code
    ⟨second.code, first.events ++ second.events⟩

def run (settings : Settings) (t : Text) : Except Settings.Fault Pass :=
  (settings.validated).map fun s => sweep s t

def Pass.recorded (p : Pass) (settings : Settings) : List Event :=
  if settings.debugging then p.events else []

end ClassScope.Sweep
