import ClassScope.Markup.Grammar.Patterns

/-! Parameters and bodies of functions. -/
namespace ClassScope.Markup.Functions
open Reader

structure Flavour where
  async : Bool := false
  generator : Bool := false
  method : Bool := false
  constructor : Bool := false
  bodiless : Bool := false
  /-- How many parameters there have to be, if that is laid down. -/
  arity : Option Nat := none

def inside (f : Flavour) (c : Context) : Context :=
  { c with
    allowIn := true, allowAwait := f.async, allowYield := f.generator, allowReturn := true
    allowBreak := false, allowContinue := false, labels := [], topLevel := false
    allowSuper := f.method, allowNewTarget := true
    arrowAt := none, firstBranch := false }

def decorator (rules : Rules) : Reader Node := do
  expectMark "@"
  let n ← start
  if ← eatMark "(" then
    let e ← enclosed (settled rules .expression)
    expectMark ")"
    return e
  let w ← name
  discard <| many do
    if ← eatMark "." then
      match ← token with
      | .hidden _ => advance
      | _ => discard anyWord
      return some ()
    else return none
  if (← hasTypes) && (← isMark "<") then Types.arguments rules
  if ← eatMark "(" then
    let args ← commaList ")" do
      discard (eatMark "...")
      Patterns.value rules
    return .other .call (← spanFrom n) args
  return .identifier (← spanFrom n) w.toList

def decorators (rules : Rules) : Reader (List Node) :=
  many do
    if ← isMark "@" then return some (← decorator rules) else return none

def parameterModifiers : Reader Unit := do
  discard <| many do
    let next := (← ahead).token
    let follows := match next with
      | .word _ _ => true
      | .mark m => m == "\x7b" || m == "["
      | _ => false
    let word := (← isWord "public") || (← isWord "private") || (← isWord "protected") ||
      (← isWord "readonly") || (← isWord "override")
    if word && follows then
      advance
      return some ()
    else return none

/-- One parameter; `none` for a `this` that only has a type. -/
def parameter (rules : Rules) (f : Flavour) : Reader (Option (List Node)) := do
  let ds ← decorators rules
  let typed ← hasTypes
  if typed && f.constructor then parameterModifiers
  if ← eatMark "..." then
    let p ← rules .pattern
    if typed then Types.annotationIfAny rules
    unless ← isMark ")" do unexpected
    return some (ds ++ [p.node])
  if typed && (← isWord "this") then
    advance
    Types.annotationIfAny rules
    return none
  let p ← rules .pattern
  if typed then
    discard (eatMark "?")
    Types.annotationIfAny rules
  return some (ds ++ p.node :: (← Patterns.defaultIfAny rules))

def parameters (rules : Rules) (f : Flavour) : Reader (List Node) := do
  let n ← start
  expectMark "("
  let ps := (← commaList ")" (parameter rules f)).filterMap id
  if f.arity.any (· != ps.length) then noteAt n
  return ps.flatten

def body (rules : Rules) : Reader (List Node) := do
  expectMark "\x7b"
  many do
    if ← eatMark "\x7d" then return none
    return some (← rules .statement).node

/-- Everything from the type parameters to the end of the body: the parameters and, unless it is
missing, the body. -/
def rest (rules : Rules) (f : Flavour) : Reader (List Node × Option (List Node)) := do
  let typed ← hasTypes
  withReader (inside f) do
    if typed then Types.parametersIfAny rules
    let ps ← parameters rules f
    if typed then Types.resultAnnotationIfAny rules
    let bodiless := typed && (f.bodiless || (← read).ambient)
    if bodiless && !(← isMark "\x7b") then
      endStatement
      return (ps, none)
    return (ps, some (← body rules))

/-- The inside of a function written with an arrow, which keeps most of its surroundings. -/
def insideArrow (async : Bool) (c : Context) : Context :=
  { c with
    allowAwait := async, allowYield := false, allowReturn := true, allowBreak := false
    allowContinue := false, labels := [], topLevel := false, arrowAt := none
    firstBranch := false }

def arrowBody (rules : Rules) (async : Bool) : Reader (List Node) := do
  if ← isMark "\x7b" then
    withReader (fun c => { insideArrow async c with allowIn := true }) (body rules)
  else
    withReader (insideArrow async) do return [← settled rules .assignment]

def afterKeyword (rules : Rules) (async : Bool) (named : Bool) (bodiless : Bool) :
    Reader (List Node) := do
  let generator ← eatMark "*"
  if named then discard bindingName
  else
    unless (← isMark "(") || (← isMark "<") do
      withReader (fun c => { c with allowAwait := async, allowYield := generator }) do
        discard bindingName
  let (ps, b) ← rest rules { async, generator, bodiless }
  return ps ++ b.getD []

end ClassScope.Markup.Functions
