import ClassScope.Markup.Grammar.Expressions
import ClassScope.Markup.Grammar.Modules

/-! Statements and declarations. -/
namespace ClassScope.Markup.Statements
open Reader

def condition (rules : Rules) : Reader Node := do
  expectMark "("
  let e ← enclosed (settled rules .expression)
  expectMark ")"
  return e

def block (rules : Rules) : Reader (List Node) :=
  withReader (fun c => { c with topLevel := false }) (Functions.body rules)

def substatement (rules : Rules) : Reader Node := do
  return (← withReader (fun c => { c with topLevel := false }) (rules .substatement)).node

def loopBody (rules : Rules) : Reader Node :=
  withReader (fun c => { c with allowBreak := true, allowContinue := true }) (substatement rules)

/-- What a declaration declares, as far as a loop cares. -/
structure Declared where
  nodes : List Node
  hasValue : Bool
  typed : Option Nat
  /-- The first pattern without a value, which has nothing to take apart. -/
  barePattern : Option Nat
  bareName : Option Nat
  count : Nat

def declarator (rules : Rules) : Reader Declared := do
  let n ← start
  let p ← rules .pattern
  let named := p.kind matches .name _
  let typed := (← hasTypes) && ((← isMark ":") || ((← isMark "!") && (← aheadIsMark ":")))
  if typed then
    discard (eatMark "!")
    Types.annotation rules
  let typed := if typed then some n else none
  if ← eatMark "=" then
    let v ← withReader (fun c => { c with arrowAt := none, firstBranch := false })
      (settled rules .assignment)
    return ⟨[p.node, v], true, typed, none, none, 1⟩
  return ⟨[p.node], false, typed, if named then none else some n, if named then some n else none, 1⟩

def declarators (rules : Rules) : Reader Declared := do
  let ds ← commaSequence (declarator rules)
  return {
    nodes := (ds.map (·.nodes)).flatten
    hasValue := ds.any (·.hasValue)
    typed := ds.findSome? (·.typed)
    barePattern := ds.findSome? (·.barePattern)
    bareName := ds.findSome? (·.bareName)
    count := ds.length }

def variableList (rules : Rules) : Reader (List Node) := do
  let constant ← isWord "const"
  advance
  let d ← declarators rules
  endStatement
  unless (← read).ambient do
    noteIf d.barePattern
    if constant then noteIf d.bareName
  return d.nodes

/-- Does a declaration of resources start here, which are let go of at the end of the block? -/
def usingDeclares : Reader Bool := do
  if !(← hasTypes) then return false
  let next ← ahead
  let names (l : Lexeme) : Bool := (nameOf l.token).isSome && !l.broke
  if ← isWord "using" then return names next && next.token != .word "of" false
  if (← isWord "await") && (← read).allowAwait then
    return next.token == .word "using" false && !next.broke && names (lex next.next)
  return false

def resourceList (rules : Rules) : Reader (List Node) := do
  discard (eatWord "await")
  expectWord "using"
  let d ← declarators rules
  endStatement
  noteIf (d.barePattern.or d.bareName)
  return d.nodes

def letDeclares : Reader Bool := do
  match (← ahead).token with
  | .mark m => return m == "[" || m == "\x7b"
  | t => return (nameOf t).isSome

/-- `in x` or `of x` after what a loop assigns to, with the rest of the loop. -/
def loopOver (rules : Rules) (target : List Node) : Reader (List Node) := do
  let each ← isWord "of"
  advance
  let domain ← enclosed (settled rules (if each then .assignment else .expression))
  expectMark ")"
  return target ++ [domain, ← loopBody rules]

def loopCounting (rules : Rules) (init : List Node) : Reader (List Node) := do
  expectMark ";"
  let test ← if ← isMark ";" then pure [] else do pure [← enclosed (settled rules .expression)]
  expectMark ";"
  let update ← if ← isMark ")" then pure [] else do pure [← enclosed (settled rules .expression)]
  expectMark ")"
  return init ++ test ++ update ++ [← loopBody rules]

def isLoopWord : Reader Bool := do return (← isWord "of") || (← isWord "in")

/-- What a loop declares or starts with. `waits` is the place of an `await` in front of the
bracket, which only a loop over the values of something may have. -/
def loopHead (rules : Rules) (waits : Option Nat) : Reader (List Node) := do
  let declares := (← isWord "var") || (← isWord "const") || ((← isWord "let") && (← letDeclares))
  let uses ← usingDeclares
  if declares || uses then
    let n ← start
    if uses then discard (eatWord "await")
    advance
    let d ← withReader (fun c => { c with allowIn := false }) (declarators rules)
    if ← isLoopWord then
      if d.count != 1 || d.hasValue then noteAt n
      noteIf d.typed
      unless ← isWord "of" do noteIf waits
      return ← loopOver rules d.nodes
    noteIf d.barePattern
    noteIf waits
    loopCounting rules d.nodes
  else if ← isMark ";" then
    noteIf waits
    loopCounting rules []
  else
    let n ← start
    let p ← withReader (fun c => { c with allowIn := false, firstBranch := false })
      (rules .expression)
    if ← isLoopWord then
      noteIf p.asTarget
      let each ← isWord "of"
      if each && waits.isNone && p.kind == .name "async" then noteAt n
      unless each do noteIf waits
      return ← loopOver rules [p.node]
    noteIf waits
    let e ← settle p
    loopCounting rules [e]

def forLoop (rules : Rules) : Reader (List Node) := do
  expectWord "for"
  let n ← start
  let waits ← if ← isWord "await" then do
      unless (← read).allowAwait do unexpected
      advance
      pure (some n)
    else pure none
  expectMark "("
  loopHead rules waits

def choice (rules : Rules) : Reader (List Node) := do
  expectWord "if"
  let test ← condition rules
  let yes ← substatement rules
  if ← eatWord "else" then return [test, yes, ← substatement rules] else return [test, yes]

def switchCase (rules : Rules) : Reader (Bool × List Node) := do
  let isDefault ← eatWord "default"
  let test ← if isDefault then pure [] else do
    expectWord "case"
    pure [← enclosed (settled rules .expression)]
  expectMark ":"
  let body ← many do
    if (← isWord "case") || (← isWord "default") || (← isMark "\x7d") then return none
    return some (← rules .statement).node
  return (isDefault, test ++ body)

def switch (rules : Rules) : Reader (List Node) := do
  let n ← start
  expectWord "switch"
  let subject ← condition rules
  expectMark "\x7b"
  let cases ← withReader (fun c => { c with allowBreak := true, topLevel := false }) <| many do
    if ← eatMark "\x7d" then return none
    return some (← switchCase rules)
  if (cases.filter (·.1)).length > 1 then noteAt n
  return subject :: (cases.map (·.2)).flatten

def caught (rules : Rules) : Reader (List Node) := do
  if ← eatMark "(" then
    let p ← rules .pattern
    if ← hasTypes then Types.annotationIfAny rules
    expectMark ")"
    return [p.node]
  else return []

def guarded (rules : Rules) : Reader (List Node) := do
  expectWord "try"
  let tried ← block rules
  let handled ← if ← eatWord "catch" then do pure (some ((← caught rules) ++ (← block rules)))
    else pure none
  let last ← if ← eatWord "finally" then do pure (some (← block rules)) else pure none
  if handled.isNone && last.isNone then unexpected
  return tried ++ handled.getD [] ++ last.getD []

def returned (rules : Rules) : Reader (List Node) := do
  let n ← start
  expectWord "return"
  unless (← read).allowReturn do noteAt n
  if (← broke) || (← isMark ";") || (← isMark "\x7d") || (← isFinish) then
    endStatement
    return []
  let e ← enclosed (settled rules .expression)
  endStatement
  return [e]

def thrown (rules : Rules) : Reader (List Node) := do
  expectWord "throw"
  if ← broke then unexpected
  let e ← enclosed (settled rules .expression)
  endStatement
  return [e]

def jump : Reader Unit := do
  let n ← start
  let breaks ← isWord "break"
  advance
  let label ← if (← isName) && !(← broke) then do pure (some (← anyWord)) else pure none
  endStatement
  let c ← read
  match label with
  | some l => if !c.labels.contains l then noteAt n
  | none => if breaks && !c.allowBreak then noteAt n
  if !breaks && !c.allowContinue then noteAt n

/-- `do … while (…)`; the condition is visited first. -/
def doLoop (rules : Rules) : Reader (List Node) := do
  expectWord "do"
  let body ← loopBody rules
  expectWord "while"
  let test ← condition rules
  discard (eatMark ";")
  return [test, body]

def labelled (rules : Rules) : Reader (List Node) := do
  let n ← start
  let l ← name
  expectMark ":"
  if (← read).labels.contains l then noteAt n
  withReader (fun c => { c with labels := l :: c.labels, allowBreak := true }) do
    if ← eatWord "function" then Functions.afterKeyword rules false true false
    else return [← substatement rules]

def interfaceDeclaration (rules : Rules) : Reader Unit := do
  advance
  discard name
  Types.parametersIfAny rules
  if ← eatWord "extends" then
    discard <| commaSequence do
      Types.entityName
      Types.argumentsIfAny rules
  Types.members rules

def typeAlias (rules : Rules) : Reader Unit := do
  advance
  discard name
  Types.parametersIfAny rules
  expectMark "="
  Types.whole rules
  endStatement

def enumeration (rules : Rules) : Reader (List Node) := do
  expectWord "enum"
  discard bindingName
  expectMark "\x7b"
  let members ← commaList "\x7d" do
    let k ← Patterns.key rules
    return k ++ (← Patterns.defaultIfAny rules)
  return members.flatten

def moduleBlock (rules : Rules) : Reader (List Node) :=
  withReader (fun c => { c with topLevel := true }) (Functions.body rules)

/-- `namespace A.B { … }`, `module "x" { … }` or `global { … }`. -/
def namespaceDeclaration (rules : Rules) : Reader (List Node) := do
  let global ← isWord "global"
  advance
  unless global do
    match ← token with
    | .string _ => advance
    | _ => Types.entityName
  if ← isMark "\x7b" then moduleBlock rules
  else
    endStatement
    return []

def typeDeclaration? (rules : Rules) : Reader (Option (List Node)) := do
  if !(← hasTypes) then return none
  let next ← ahead
  let named := (nameOf next.token).isSome && !next.broke
  match ← token with
  | .word "interface" false =>
    if !named then return none
    interfaceDeclaration rules
    return some []
  | .word "type" false =>
    if !named then return none
    typeAlias rules
    return some []
  | .word "enum" false => return some (← enumeration rules)
  | .word "const" false =>
    if next.token != .word "enum" false then return none
    advance
    return some (← enumeration rules)
  | .word "namespace" false =>
    if !named then return none
    return some (← namespaceDeclaration rules)
  | .word "module" false =>
    if !(named || ((next.token matches .string _) && !next.broke)) then return none
    return some (← namespaceDeclaration rules)
  | .word "global" false =>
    if next.token != .mark "\x7b" || next.broke || !(← read).ambient then return none
    return some (← namespaceDeclaration rules)
  | .word "abstract" false => Classes.decorated? rules true []
  | .word "declare" false =>
    let follows := match next.token with
      | .word w _ => Modules.declarationWords.contains w || Modules.typeDeclarationWords.contains w
      | _ => false
    if !follows || next.broke then return none
    advance
    return some [(← withReader (fun c => { c with ambient := true }) (rules .statement)).node]
  | _ => return none

def declaration? (rules : Rules) : Reader (Option (List Node)) := do
  if let some parts ← typeDeclaration? rules then return some parts
  if ← usingDeclares then return some (← resourceList rules)
  let next ← ahead
  match ← token with
  | .word "const" false => return some (← variableList rules)
  | .word "let" false => if ← letDeclares then return some (← variableList rules) else return none
  | .word "function" false =>
    advance
    return some (← Functions.afterKeyword rules false true true)
  | .word "async" false =>
    if next.token != .word "function" false || next.broke then return none
    advance
    advance
    return some (← Functions.afterKeyword rules true true true)
  | .word "class" false => Classes.decorated? rules true []
  | .mark "@" =>
    let ds ← Functions.decorators rules
    if (← isWord "export") && (← read).topLevel then
      return some (← Modules.exportDeclaration rules ds)
    match ← Classes.decorated? rules true ds with
    | some parts => return some parts
    | none => unexpected
  | .word "import" false =>
    if next.token == .mark "(" || next.token == .mark "." then return none
    unless (← read).topLevel do unexpected
    Modules.importDeclaration rules
    return some []
  | .word "export" false =>
    unless (← read).topLevel do unexpected
    return some (← Modules.exportDeclaration rules [])
  | _ => return none

def plain (rules : Rules) : Reader (List Node) := do
  match ← token with
  | .mark "\x7b" => block rules
  | .mark ";" =>
    advance
    return []
  | .word "var" false => variableList rules
  | .word "if" false => choice rules
  | .word "for" false => forLoop rules
  | .word "while" false =>
    advance
    let test ← condition rules
    return [test, ← loopBody rules]
  | .word "do" false => doLoop rules
  | .word "return" false => returned rules
  | .word "break" false | .word "continue" false =>
    jump
    return []
  | .word "throw" false => thrown rules
  | .word "try" false => guarded rules
  | .word "switch" false => switch rules
  | .word "with" false =>
    noteAt (← start)
    advance
    let e ← condition rules
    return [e, ← substatement rules]
  | .word "debugger" false =>
    advance
    endStatement
    return []
  | _ =>
    if (← isName) && (← aheadIsMark ":") then return ← labelled rules
    let e ← enclosed (settled rules .expression)
    endStatement
    return [e]

def rule (rules : Rules) : Reader Phrase := do
  if let some parts ← declaration? rules then return .group parts
  return .group (← plain rules)

def isDeclaration : Reader Bool := do
  let next ← ahead
  match ← token with
  | .word w false =>
    if ["const", "function", "class", "export"].contains w then return true
    if w == "import" then return next.token != .mark "(" && next.token != .mark "."
    if w == "let" then letDeclares
    else return w == "async" && next.token == .word "function" false && !next.broke
  | .mark "@" => return true
  | _ => return false

def governed (rules : Rules) : Reader Phrase := do
  if ← isDeclaration then unexpected
  if let some parts ← typeDeclaration? rules then return .group parts
  return .group (← plain rules)

end ClassScope.Markup.Statements
