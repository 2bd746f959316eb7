import ClassScope.Markup.Dialect
import ClassScope.Markup.Lexeme.Token
import ClassScope.Markup.Node

/-! Readers of grammar rules. A reader runs in a context that says what the place in the source
allows, moves along the tokens and either gives a phrase or stops at a fault. Faults that do not
keep the rest from being read are noted and reading goes on; a source with a noted fault is
refused all the same.

The rules call each other in circles. Each circle goes through a `Goal`: a rule gets all others
as one function from goals, and `Grammar.Source` ties the knot with a bound on the depth. -/
namespace ClassScope.Markup

structure Fault where
  offset : Nat
  deriving DecidableEq, Repr

structure Context where
  dialect : Dialect
  /-- More steps than any loop over the source takes. -/
  bound : Nat
  allowIn : Bool := true
  allowAwait : Bool := true
  allowYield : Bool := false
  allowReturn : Bool := false
  allowBreak : Bool := false
  allowContinue : Bool := false
  labels : List String := []
  topLevel : Bool := false
  ambient : Bool := false
  allowSuper : Bool := false
  allowNewTarget : Bool := false
  /-- Byte at which a function written with an arrow may start. -/
  arrowAt : Option Nat := none
  /-- Is this the first branch of a conditional, which a colon ends? -/
  firstBranch : Bool := false
  allowConditionalType : Bool := true

structure State where
  here : Lexeme
  last : Cursor
  /-- Faults noted so far, the latest first. -/
  noted : List Fault

abbrev Reader := ReaderT Context (StateT State (Except Fault))

/-- Entry points of the grammar through which rules call each other. -/
inductive Goal where
  | expression
  | assignment
  | binary
  | exponent
  | unary
  | leftHandSide
  | newCallee
  | statement
  | substatement
  | pattern
  | element
  | type
  deriving DecidableEq, Repr

inductive Kind where
  | plain
  | name (text : String)
  | arrow
  | unary
  | logical
  | coalesce
  | chain
  | assign
  | hidden
  deriving DecidableEq, Repr

/-- An expression that was read, and what there is to say against reading it again as something
to assign to: as the whole left side, as an element of a pattern, or as a parameter. -/
structure Phrase where
  node : Node
  kind : Kind := .plain
  asTarget : Option Nat := none
  asElement : Option Nat := none
  asBinding : Option Nat := none
  simple : Bool := false
  /-- A default for a shorthand property, which only a pattern may have. -/
  pending : Option Nat := none

abbrev Rules := Goal → Reader Phrase

def Phrase.value (start : Nat) (node : Node) (kind : Kind := .plain) : Phrase :=
  { node, kind, asTarget := some start, asElement := some start, asBinding := some start }

def Phrase.none : Phrase := { node := .other .expression ⟨0, 0⟩ [] }

def Phrase.group (nodes : List Node) : Phrase := { node := .other .expression ⟨0, 0⟩ nodes }

namespace Reader

def failAt {α : Type} (n : Nat) : Reader α := throw ⟨n⟩

def unexpected {α : Type} : Reader α := do failAt (← get).here.start

def noteAt (n : Nat) : Reader Unit := modify fun s => { s with noted := ⟨n⟩ :: s.noted }

def noteIf (n : Option Nat) : Reader Unit :=
  match n with
  | some n => noteAt n
  | none => pure ()

def token : Reader Token := return (← get).here.token

def start : Reader Nat := return (← get).here.start

def ahead : Reader Lexeme := return lex (← get).here.next

def advance : Reader Unit := modify fun s =>
  { s with here := lex s.here.next, last := s.here.next }

def resumeAt (k : Cursor) : Reader Unit := modify fun s => { s with here := lex k, last := k }

def spanFrom (n : Nat) : Reader Span := return ⟨n + 1, (← get).last.offset + 1⟩

def broke : Reader Bool := return (← get).here.broke

def isMark (m : String) : Reader Bool := return (← get).here.token == .mark m

def isWord (w : String) : Reader Bool := return (← get).here.token == .word w false

def isFinish : Reader Bool := return (← get).here.token == .finish

def eatMark (m : String) : Reader Bool := do
  if ← isMark m then
    advance
    return true
  else return false

def eatWord (w : String) : Reader Bool := do
  if ← isWord w then
    advance
    return true
  else return false

def expectMark (m : String) : Reader Unit := do
  unless ← eatMark m do unexpected

def expectWord (w : String) : Reader Unit := do
  unless ← eatWord w do unexpected

def aheadIsMark (m : String) : Reader Bool := return (← ahead).token == .mark m

def aheadIsWord (w : String) : Reader Bool := return (← ahead).token == .word w false

def hasTypes : Reader Bool := return (← read).dialect.hasTypes

def hasElements : Reader Bool := return (← read).dialect.hasElements

/-- Runs a reader; if it fails, nothing has happened. -/
def attempt {α : Type} (r : Reader α) : Reader (Option α) := do
  let s ← get
  try
    let a ← r
    return some a
  catch _ =>
    set s
    return none

/-- Runs a reader; if it fails, runs another one from the same place, and if that fails too, the
fault is the first one's. -/
def orElse {α : Type} (r alternative : Reader α) : Reader α := do
  let s ← get
  try r
  catch e =>
    set s
    match ← attempt alternative with
    | some a => return a
    | none => throw e

def foresee {α : Type} (r : Reader α) : Reader (Option α) := do
  let s ← get
  let a ← attempt r
  set s
  return a

def iterateTimes {σ α : Type} (step : σ → Reader (σ ⊕ α)) : Nat → σ → Reader α
  | 0, _ => unexpected
  | n + 1, s => do
    match ← step s with
    | .inl s => iterateTimes step n s
    | .inr a => return a

/-- Repeats a step until it gives a result. Each step reads a token, so the bound is never met. -/
def iterate {σ α : Type} (step : σ → Reader (σ ⊕ α)) (s : σ) : Reader α := do
  iterateTimes step (← read).bound s

def many {α : Type} (item : Reader (Option α)) : Reader (List α) :=
  iterate (fun (got : List α) => do
    match ← item with
    | some a => return .inl (a :: got)
    | none => return .inr got.reverse) []

/-- Items with commas between and perhaps one after the last, up to a closing mark, which is read
too. -/
def commaList {α : Type} (close : String) (item : Reader α) : Reader (List α) :=
  iterate (fun (got : List α) => do
    if ← eatMark close then return .inr got.reverse
    let a ← item
    unless ← isMark close do expectMark ","
    return .inl (a :: got)) []

def commaSequence {α : Type} (item : Reader α) : Reader (List α) := do
  let first ← item
  let rest ← many do
    if ← eatMark "," then return some (← item) else return none
  return first :: rest

/-- Inside brackets of any kind what stands around them no longer matters. -/
def enclosed {α : Type} (r : Reader α) : Reader α :=
  withReader (fun c => { c with allowIn := true, arrowAt := none, firstBranch := false }) r

/-- A statement ends with a semicolon, and without one at the end of a line, of a block or of
the source. -/
def endStatement : Reader Unit := do
  if ← eatMark ";" then return
  if (← broke) || (← isMark "\x7d") || (← isFinish) then return
  unexpected

def settle (p : Phrase) : Reader Node := do
  noteIf p.pending
  return p.node

def settled (rules : Rules) (goal : Goal) : Reader Node := do settle (← rules goal)

end Reader

def reservedWords : List String :=
  ["break", "case", "catch", "class", "const", "continue", "debugger", "default", "delete", "do",
   "else", "enum", "export", "extends", "false", "finally", "for", "function", "if", "import",
   "in", "instanceof", "new", "null", "return", "super", "switch", "this", "throw", "true", "try",
   "typeof", "var", "void", "while", "with"]

def strictWords : List String :=
  ["implements", "interface", "let", "package", "private", "protected", "public", "static",
   "yield"]

namespace Reader

def anyWord : Reader String := do
  match ← token with
  | .word w _ =>
    advance
    return w
  | _ => unexpected

/-- The word here, if it can be a name. Words that only strict code refuses are noted. -/
def nameHere? : Reader (Option String) := do
  match ← token with
  | .word w _ =>
    if reservedWords.contains w then return none
    if strictWords.contains w then noteAt (← start)
    if w == "await" then noteAt (← start)
    return some w
  | _ => return none

def isName : Reader Bool := do
  match ← token with
  | .word w _ => return !reservedWords.contains w
  | _ => return false

def nameOf (t : Token) : Option String :=
  match t with
  | .word w _ => if reservedWords.contains w then none else some w
  | _ => none

def name : Reader String := do
  match ← nameHere? with
  | some w =>
    advance
    return w
  | none => unexpected

def bindingName : Reader String := do
  let n ← start
  let w ← name
  if w == "eval" || w == "arguments" then noteAt n
  return w

end Reader
end ClassScope.Markup
