import ClassScope.Markup.Grammar.Classes
import ClassScope.Markup.Grammar.Elements

/-! Expressions that stand by themselves: literals, names, templates, arrays, objects, functions,
classes, and what stands in round brackets. Arrays, objects and bracketed lists may turn out to
be patterns, so each is read with what there is to say against that. -/
namespace ClassScope.Markup.Operands
open Reader

inductive Item where
  | hole
  | one (phrase : Phrase)
  | spread (dots : Nat) (phrase : Phrase)
  | parameter (nodes : List Node)

namespace Item

def nodes : Item → List Node
  | hole => []
  | one p | spread _ p => [p.node]
  | parameter ns => ns

def argument : Item → List Node
  | hole => []
  | one p => [p.node]
  | spread n p => [.spread ⟨n + 1, n + 4⟩ p.node]
  | parameter ns => ns

def pending : Item → Option Nat
  | hole | parameter _ => none
  | one p | spread _ p => p.pending

/-- The first objection to reading items as elements of a pattern, given what objects to each
phrase. What is spread comes last, with no comma after it. -/
def objection (fault : Phrase → Option Nat) (comma : Bool) : List Item → Option Nat
  | [] => none
  | hole :: rest | parameter _ :: rest => objection fault comma rest
  | one p :: rest => (fault p).or (objection fault comma rest)
  | spread n p :: rest =>
    if !rest.isEmpty || comma || p.kind == .assign then some n else fault p

end Item

def firstSome (xs : List (Option Nat)) : Option Nat := xs.findSome? id

/-- `a, b, ...c` up to a closing mark, with whether a comma stands at the end. -/
def items (close : String) (item : Reader Item) : Reader (List Item × Bool) :=
  iterate (fun (got : List Item × Bool) => do
    if ← eatMark close then return .inr (got.1.reverse, got.2)
    let i ← item
    let more ← isMark ","
    unless ← isMark close do expectMark ","
    return .inl (i :: got.1, more)) ([], false)

def argument (rules : Rules) : Reader Item := do
  let n ← start
  if ← eatMark "..." then return .spread n (← rules .assignment)
  else return .one (← rules .assignment)

def arguments (rules : Rules) : Reader (List Node) := do
  let (is, _) ← enclosed (items ")" (argument rules))
  noteIf (firstSome (is.map Item.pending))
  return (is.map Item.argument).flatten

/-- The segments and interpolations of a template that starts at `k`, after a backtick. Unless it
is tagged, its escapes have to make sense. -/
def template (rules : Rules) (tagged : Bool) (k : Cursor) : Reader (List Segment × List Node) :=
  iterate (fun (s : Cursor × List Segment × List Node) => do
    let (k, segments, parts) := s
    match segmentRaw? k.offset k.rest with
    | none => failAt k.offset
    | some (raw, stop, next) =>
      if !tagged && (Escape.decode? none raw).isNone then failAt k.offset
      match stop with
      | .backtick =>
        let segment : Segment := ⟨⟨k.offset + 1, next.offset⟩, raw⟩
        resumeAt next
        return .inr ((segment :: segments).reverse, parts.reverse)
      | .interpolation =>
        let segment : Segment := ⟨⟨k.offset + 1, next.offset - 1⟩, raw⟩
        resumeAt next
        let e ← enclosed (settled rules .expression)
        unless ← isMark "\x7d" do unexpected
        return .inl ((← get).here.next, segment :: segments, e :: parts)) (k, [], [])

def regex : Reader Unit := do
  let here := (← get).here
  let body := if here.token == .mark "/=" then '=' :: here.next.rest else here.next.rest
  match regexEnd? (here.start + 1) body with
  | some k => resumeAt k
  | none => failAt here.start

def array (rules : Rules) : Reader Phrase := do
  let n ← start
  expectMark "["
  let (is, comma) ← enclosed <| items "]" do
    if ← isMark "," then return .hole else argument rules
  let comma := comma && !(is.getLast? matches some .hole)
  let element := Item.objection (·.asElement) comma is
  return {
    node := .other .array (← spanFrom n) (is.map Item.nodes).flatten
    asTarget := element
    asElement := element
    asBinding := Item.objection (·.asBinding) comma is
    pending := firstSome (is.map Item.pending) }

/-- Says the same against every reading. -/
def refused (n : Nat) (nodes : List Node) : Phrase :=
  { (Phrase.group nodes) with asTarget := some n, asElement := some n, asBinding := some n }

def nameObjection (n : Nat) (w : String) : Option Nat :=
  if w == "eval" || w == "arguments" then some n else none

def shorthand (rules : Rules) : Reader Phrase := do
  let n ← start
  let w ← name
  let objection := nameObjection n w
  let equals ← start
  let node : Node := .identifier (← spanFrom n) w.toList
  let p : Phrase :=
    { node, kind := .name w, asTarget := objection, asElement := objection,
      asBinding := objection }
  if ← eatMark "=" then
    let v ← Patterns.value rules
    return { p with node := .other .expression (← spanFrom n) [node, v], pending := some equals }
  return p

def methodModifiers : Reader Functions.Flavour := do
  let async ← Classes.isModifier "async" true
  if async then advance
  let accessor := !async && ((← Classes.isModifier "get" false) || (← Classes.isModifier "set" false))
  let getter ← isWord "get"
  if accessor then advance
  let generator ← if accessor then pure false else eatMark "*"
  let arity := if accessor then some (if getter then 0 else 1) else none
  return { async, generator, method := true, arity }

def property (rules : Rules) : Reader Item := do
  let n ← start
  if ← eatMark "..." then
    let p ← rules .assignment
    let plain := p.kind matches .name _
    return .spread n { p with asBinding := if plain then p.asBinding else some n }
  let typed ← hasTypes
  let f ← methodModifiers
  let special := f.async || f.generator || f.arity.isSome
  let next := (← ahead).token
  let alone := match ← token with
    | .word _ _ => next != .mark ":" && next != .mark "(" && !(typed && next == .mark "<")
    | _ => false
  if alone && !special then return .one (← shorthand rules)
  let k ← Patterns.key rules
  if !special && (← eatMark ":") then
    let p ← rules .assignment
    if k.isEmpty then return .one p
    return .one { p with node := .other .expression (← spanFrom n) (k ++ [p.node]) }
  let (ps, b) ← Functions.rest rules f
  return .one (refused n (k ++ ps ++ b.getD []))

def object (rules : Rules) : Reader Phrase := do
  let n ← start
  expectMark "\x7b"
  let (is, comma) ← enclosed (items "\x7d" (property rules))
  let element := Item.objection (·.asElement) comma is
  return {
    node := .other .object (← spanFrom n) (is.map Item.nodes).flatten
    asTarget := element
    asElement := element
    asBinding := Item.objection (·.asBinding) comma is
    pending := firstSome (is.map Item.pending) }

def arrowAllowed (n : Nat) : Reader Bool := return (← read).arrowAt == some n

/-- A function with an arrow that started at byte `n`, from its arrow on. -/
def arrowFrom (rules : Rules) (n : Nat) (async : Bool) (parameters : List Node) :
    Reader Phrase := do
  if (← broke) || !(← arrowAllowed n) then unexpected
  expectMark "=>"
  let b ← Functions.arrowBody rules async
  return .value n (.other .function (← spanFrom n) (parameters ++ b)) .arrow

def branches (rules : Rules) (n : Nat) (test : Phrase) : Reader Phrase := do
  let t ← settle test
  expectMark "?"
  let c ← withReader (fun c => { c with allowIn := true, firstBranch := true })
    (settled rules .assignment)
  expectMark ":"
  let a ← withReader (fun c => { c with firstBranch := false }) (settled rules .assignment)
  return .value n (.conditional (← spanFrom n) t c a)

def assignMarks : List String :=
  ["=", "+=", "-=", "*=", "/=", "%=", "**=", "&=", "|=", "^=", "&&=", "||=", "??="]

def angleOperator (here : Lexeme) : Option (String × Cursor) :=
  let next := here.next
  let upTo (s : String) (k : Nat) : String × Cursor := (s, ⟨next.offset + k, next.rest.drop k⟩)
  match here.token, next.rest with
  | .mark "<", '<' :: '=' :: _ => some (upTo "<<=" 2)
  | .mark "<", '<' :: _ => some (upTo "<<" 1)
  | .mark "<", '=' :: _ => some (upTo "<=" 1)
  | .mark "<", _ => some (upTo "<" 0)
  | .mark ">", '>' :: '>' :: '=' :: _ => some (upTo ">>>=" 3)
  | .mark ">", '>' :: '>' :: _ => some (upTo ">>>" 2)
  | .mark ">", '>' :: '=' :: _ => some (upTo ">>=" 2)
  | .mark ">", '>' :: _ => some (upTo ">>" 1)
  | .mark ">", '=' :: _ => some (upTo ">=" 1)
  | .mark ">", _ => some (upTo ">" 0)
  | _, _ => none

def operator : Reader (Option (String × Cursor)) := do
  let here := (← get).here
  match angleOperator here with
  | some r => return some r
  | none =>
    match here.token with
    | .mark m => return some (m, here.next)
    | .word w false => return some (w, here.next)
    | _ => return none

def assignOperator : Reader (Option (String × Cursor)) := do
  match ← operator with
  | some (m, k) =>
    if assignMarks.contains m || ["<<=", ">>=", ">>>="].contains m then return some (m, k)
    return none
  | none => return none

def assigned (rules : Rules) (n : Nat) (p : Phrase) : Reader Phrase := do
  match ← assignOperator with
  | none => return p
  | some ("=", _) =>
    noteIf p.asTarget
    advance
    let v ← settled rules .assignment
    return {
      node := .other .expression (← spanFrom n) [p.node, v]
      kind := .assign
      asTarget := some n
      asElement := p.asElement
      asBinding := p.asBinding }
  | some (_, k) =>
    if !p.simple then noteAt n
    resumeAt k
    let v ← settled rules .assignment
    return .value n (.other .expression (← spanFrom n) [p.node, v])

/-- A mark that makes a parameter optional: something follows it that no branch starts with. -/
def isOptionalMark : Reader Bool := do
  if !(← isMark "?") then return false
  let next := (← ahead).token
  return [",", ":", ")", "="].any (next == .mark ·)

/-- One of the things in round brackets. With types, a name may be followed by a question mark and
a type, which make it a parameter. -/
def bracketed (rules : Rules) : Reader Item := do
  let n ← start
  let typed ← hasTypes
  if ← eatMark "..." then
    let p ← rules .assignment
    if typed && (← isMark ":") then
      noteIf p.asBinding
      Types.annotation rules
      unless ← isMark ")" do unexpected
      return .parameter [p.node]
    return .spread n p
  let yields := (← read).allowYield && (← isWord "yield")
  if !typed || yields then return .one (← rules .assignment)
  let p ← if ← isName then do
      let p ← withReader (fun c => { c with arrowAt := some n }) (rules .binary)
      if p.kind == .arrow then pure p else assigned rules n p
    else rules .assignment
  let optional := (← isOptionalMark) && (p.kind matches .name _)
  if optional then advance
  else if (← isMark "?") && p.kind != .arrow then return .one (← branches rules n p)
  if optional || (← isMark ":") then
    noteIf p.asBinding
    Types.annotationIfAny rules
    return .parameter (p.node :: (← Patterns.defaultIfAny rules))
  return .one p

def arrowParameters (is : List Item) (comma : Bool) : Reader (List Node) := do
  noteIf (Item.objection (·.asBinding) comma is)
  return (is.map Item.nodes).flatten

/-- A function with an arrow and a type for its result, at the colon, if there is one. In the first
branch of a conditional it is one only if a colon follows it. -/
def typedArrow? (rules : Rules) (n : Nat) (async : Bool) (is : List Item) (comma : Bool) :
    Reader (Option Phrase) := do
  if !((← hasTypes) && (← isMark ":") && (← arrowAllowed n)) then return none
  let first := (← read).firstBranch
  let arrow : Reader Phrase := do
    Types.resultAnnotationIfAny rules
    if !(← isMark "=>") then unexpected
    let ps ← arrowParameters is comma
    let p ← arrowFrom rules n async ps
    if first && !(← isMark ":") then unexpected
    return p
  if first then attempt arrow
  else
    let follows ← foresee do
      Types.resultAnnotationIfAny rules
      unless (← isMark "=>") && !(← broke) do unexpected
    if follows.isSome then return some (← arrow) else return none

/-- Round brackets: an expression in them, or the parameters of a function with an arrow. -/
def parens (rules : Rules) : Reader Phrase := do
  let n ← start
  expectMark "("
  let (is, comma) ← enclosed (items ")" (bracketed rules))
  if let some p ← typedArrow? rules n false is comma then return p
  if ← isMark "=>" then
    return ← arrowFrom rules n false (← arrowParameters is comma)
  if comma || is.isEmpty then unexpected
  for i in is do
    match i with
    | .one _ => pure ()
    | .spread d _ => failAt d
    | _ => unexpected
  noteIf (if is.length == 1 then none else firstSome (is.map Item.pending))
  let span ← spanFrom n
  match is with
  | [.one p] =>
    return {
      node := .parens span p.node
      asTarget := if p.simple then none else some n
      asElement := if p.simple then none else some n
      asBinding := some n
      simple := p.simple
      pending := p.pending }
  | _ =>
    let inner : Node := .other .expression ⟨span.lo + 1, span.hi - 1⟩ (is.map Item.nodes).flatten
    return .value n (.parens span inner)

def nameOrArrow (rules : Rules) : Reader Phrase := do
  let n ← start
  let w ← name
  let node : Node := .identifier (← spanFrom n) w.toList
  if (← isMark "=>") && !(← broke) && (← arrowAllowed n) then
    noteIf (nameObjection n w)
    return ← arrowFrom rules n false [node]
  let objection := nameObjection n w
  return {
    node, kind := .name w, asTarget := objection, asElement := objection, asBinding := objection
    simple := objection.isNone }

def asyncCall (rules : Rules) (n : Nat) (callee : Node) (sameLine : Bool) : Reader Phrase := do
  expectMark "("
  let (is, comma) ← enclosed (items ")" (bracketed rules))
  if sameLine then
    if let some p ← typedArrow? rules n true is comma then return p
    if (← isMark "=>") then
      return ← arrowFrom rules n true (← arrowParameters is comma)
  noteIf (firstSome (is.map Item.pending))
  return .value n (.call (← spanFrom n) callee (is.map Item.argument).flatten)

def async (rules : Rules) : Reader Phrase := do
  let n ← start
  let next ← ahead
  if next.token == .word "function" false && !next.broke then
    advance
    advance
    let parts ← Functions.afterKeyword rules true false false
    return .value n (.other .function (← spanFrom n) parts)
  let arrowName := (nameOf next.token).isSome && !next.broke
  if arrowName && (← arrowAllowed n) && (lex next.next).token == .mark "=>" then
    advance
    let m ← start
    let w ← bindingName
    let node : Node := .identifier (← spanFrom m) w.toList
    return ← arrowFrom rules n true [node]
  if next.token == .mark "(" then
    advance
    let callee : Node := .identifier (← spanFrom n) "async".toList
    return ← asyncCall rules n callee !next.broke
  if (← hasTypes) && next.token == .mark "<" && !next.broke && (← arrowAllowed n) then
    let arrow ← attempt do
      advance
      Types.parameters rules
      expectMark "("
      let (is, comma) ← enclosed (items ")" (bracketed rules))
      if let some p ← typedArrow? rules n true is comma then return p
      arrowFrom rules n true (← arrowParameters is comma)
    if let some p := arrow then return p
  nameOrArrow rules

def importExpression (rules : Rules) : Reader Phrase := do
  let n ← start
  expectWord "import"
  if ← eatMark "." then
    expectWord "meta"
    return .value n (.other .expression (← spanFrom n) [])
  expectMark "("
  let (is, _) ← enclosed (items ")" (argument rules))
  if is.isEmpty || is.length > 2 then noteAt n
  noteIf (firstSome (is.map Item.pending))
  return .value n (.other .call (← spanFrom n) (is.map Item.argument).flatten)

def superExpression (rules : Rules) : Reader Phrase := do
  let n ← start
  expectWord "super"
  unless (← read).allowSuper || (← hasTypes) do noteAt n
  if ← eatMark "(" then
    let args ← arguments rules
    return .value n (.other .call (← spanFrom n) args)
  let parts ← if ← eatMark "." then do
      match ← token with
      | .hidden _ => advance
      | _ => discard anyWord
      pure []
    else do
      expectMark "["
      let e ← enclosed (settled rules .expression)
      expectMark "]"
      pure [e]
  return {
    node := .other .expression (← spanFrom n) parts
    asBinding := some n
    simple := true }

def classExpression (rules : Rules) : Reader Phrase := do
  let n ← start
  let ds ← Functions.decorators rules
  expectWord "class"
  let parts ← Classes.rest rules false false ds
  return .value n (.other .expression (← spanFrom n) parts)

def literal : Reader Phrase := do
  let n ← start
  advance
  return .value n (.other .literal (← spanFrom n) [])

def rule (rules : Rules) : Reader Phrase := do
  let n ← start
  match ← token with
  | .string v =>
    advance
    return .value n (.string (← spanFrom n) v)
  | .number | .word "null" false | .word "true" false | .word "false" false => literal
  | .mark "/" | .mark "/=" =>
    regex
    return .value n (.other .literal (← spanFrom n) [])
  | .mark "`" =>
    let (segments, parts) ← template rules false (← get).here.next
    return .value n (.template (← spanFrom n) segments parts)
  | .mark "[" => array rules
  | .mark "\x7b" => object rules
  | .mark "(" => parens rules
  | .mark "@" | .word "class" false => classExpression rules
  | .mark "<" => if ← hasElements then rules .element else unexpected
  | .word "this" false =>
    advance
    return .value n (.other .expression (← spanFrom n) [])
  | .word "function" false =>
    advance
    let parts ← Functions.afterKeyword rules false false false
    return .value n (.other .function (← spanFrom n) parts)
  | .word "async" false => async rules
  | .word "import" false => importExpression rules
  | .word "super" false => superExpression rules
  | _ => nameOrArrow rules

end ClassScope.Markup.Operands
