import ClassScope.Markup.Grammar.Functions

/-! Classes. What a class holds is visited in this order: decorators, members, parent. -/
namespace ClassScope.Markup.Classes
open Reader

structure Modifiers where
  isStatic : Bool := false
  async : Bool := false
  generator : Bool := false
  accessor : Bool := false
  getter : Bool := false
  setter : Bool := false
  isAbstract : Bool := false
  declares : Bool := false
  overrides : Bool := false

structure Head where
  isAbstract : Bool := false
  hasParent : Bool := false

def startsKey : Token → Bool
  | .word _ _ | .string _ | .number | .hidden _ | .mark "[" => true
  | _ => false

/-- Is the word here a modifier and not the name of a member? -/
def isModifier (w : String) (sameLine : Bool) : Reader Bool := do
  if !(← isWord w) then return false
  let next ← ahead
  if sameLine && next.broke then return false
  return startsKey next.token ||
    ((w == "async" || w == "static") && next.token == .mark "*")

def typeModifiers : List String :=
  ["declare", "public", "private", "protected", "abstract", "override", "readonly"]

def modifier? (m : Modifiers) : Reader (Option Modifiers) := do
  if ← isModifier "static" false then
    advance
    return some { m with isStatic := true }
  if ← isModifier "async" true then
    advance
    return some { m with async := true }
  if !m.async && ((← isModifier "get" false) || (← isModifier "set" false)) then
    let getter ← isWord "get"
    advance
    return some { m with getter, setter := !getter }
  if ← hasTypes then
    if ← isModifier "accessor" true then
      advance
      return some { m with accessor := true }
    for w in typeModifiers do
      if ← isModifier w true then
        advance
        return some { m with
          isAbstract := m.isAbstract || w == "abstract"
          declares := m.declares || w == "declare"
          overrides := m.overrides || w == "override" }
  return none

def modifiers : Reader Modifiers := do
  let m ← iterate (fun (m : Modifiers) => do
    if m.getter || m.setter || m.accessor then return .inr m
    match ← modifier? m with
    | some m => return .inl m
    | none => return .inr m) {}
  if ← eatMark "*" then return { m with generator := true } else return m

/-- The name of a member, and what its expression holds if it is one in brackets. -/
def key (rules : Rules) : Reader (String × List Node) := do
  match ← token with
  | .word w _ =>
    advance
    return (w, [])
  | .string v =>
    advance
    return (String.ofList (v.getD []), [])
  | .hidden w =>
    if w == "constructor" then noteAt (← start)
    advance
    return ("#" ++ w, [])
  | _ => return ("", ← Patterns.key rules)

def insideField (c : Context) : Context :=
  { c with
    allowIn := true, allowAwait := false, allowYield := false, allowSuper := true
    allowNewTarget := true, arrowAt := none, firstBranch := false, topLevel := false }

def field (rules : Rules) : Reader (List Node) := do
  if ← hasTypes then
    discard ((eatMark "?") <||> (eatMark "!"))
    Types.annotationIfAny rules
  let value ← if ← eatMark "=" then
      withReader insideField do pure [← settled rules .assignment]
    else pure []
  endStatement
  return value

def staticBlock (rules : Rules) : Reader (List Node) :=
  withReader (fun c => { Functions.inside { method := true } c with allowReturn := false })
    (Functions.body rules)

/-- A member is abstract only in an abstract class, and overrides only what a parent has. -/
def Modifiers.suit (m : Modifiers) (head : Head) : Bool :=
  (!m.isAbstract || head.isAbstract) && (!m.overrides || head.hasParent)

/-- A member, and whether it is a constructor with a body. -/
def member (rules : Rules) (head : Head) : Reader (List Node × Bool) := do
  if ← eatMark ";" then return ([], false)
  let ds ← Functions.decorators rules
  if (← isWord "static") && (← aheadIsMark "\x7b") then
    advance
    return (ds ++ (← staticBlock rules), false)
  let first ← start
  let m ← modifiers
  if !m.suit head then noteAt first
  let typed ← hasTypes
  if typed && (← Types.isIndexSignature) then
    Types.indexSignature rules
    endStatement
    return ([], false)
  let n ← start
  let literal := !(← isMark "[")
  let (w, k) ← key rules
  let isConstructor := literal && !m.isStatic && w == "constructor"
  if typed && ((← isMark "?") || (← isMark "!")) &&
      ((← aheadIsMark "(") || (← aheadIsMark "<")) then advance
  if (← isMark "(") || (typed && (← isMark "<")) then
    if m.accessor then unexpected
    if isConstructor && (m.async || m.generator || m.getter || m.setter) then noteAt n
    if m.isStatic && literal && w == "prototype" then noteAt n
    if m.declares then noteAt first
    let arity := if m.getter then some 0 else if m.setter then some 1 else none
    let (ps, b) ← Functions.rest rules
      { async := m.async, generator := m.generator, method := true
        constructor := isConstructor, bodiless := true, arity }
    if m.isAbstract && b.isSome then noteAt first
    return (k ++ ps ++ ds ++ b.getD [], isConstructor && b.isSome)
  if m.async || m.generator || m.getter || m.setter then unexpected
  if isConstructor then noteAt n
  if m.isStatic && literal && w == "prototype" then noteAt n
  let value ← field rules
  return (k ++ value ++ ds, false)

/-- Members in braces. A class has at most one constructor with a body. -/
def body (rules : Rules) (head : Head) : Reader (List Node) := do
  let n ← start
  expectMark "\x7b"
  let ms ← many do
    if ← eatMark "\x7d" then return none
    return some (← member rules head)
  if (ms.filter (·.2)).length > 1 then noteAt n
  return (ms.map (·.1)).flatten

def parentIfAny (rules : Rules) : Reader (List Node) := do
  if ← eatWord "extends" then
    let p ← withReader (fun c => { c with arrowAt := none }) (settled rules .leftHandSide)
    if ← hasTypes then Types.argumentsIfAny rules
    return [p]
  else return []

def interfacesIfAny (rules : Rules) : Reader Unit := do
  if (← hasTypes) && (← eatWord "implements") then
    discard <| commaSequence do
      Types.entityName
      Types.argumentsIfAny rules

def rest (rules : Rules) (named isAbstract : Bool) (ds : List Node) : Reader (List Node) := do
  let typed ← hasTypes
  let heading := (← isWord "extends") || (← isMark "\x7b") || (typed && (← isMark "<")) ||
    (typed && (← isWord "implements") && !named)
  if !heading then discard bindingName
  else if named then unexpected
  if typed then Types.parametersIfAny rules
  let parent ← parentIfAny rules
  interfacesIfAny rules
  let ms ← body rules { isAbstract, hasParent := !parent.isEmpty }
  return ds ++ ms ++ parent

/-- A class that has decorators `ds` already, perhaps with more of them and the word `abstract` in
front of its keyword, if one starts here. -/
def decorated? (rules : Rules) (named : Bool) (ds : List Node) : Reader (Option (List Node)) := do
  let isMore ← isMark "@"
  let more ← Functions.decorators rules
  let next ← ahead
  let isAbstract := (← hasTypes) && (← isWord "abstract") &&
    next.token == .word "class" false && !next.broke
  if isAbstract then advance
  if ← eatWord "class" then return some (← rest rules named isAbstract (ds ++ more))
  if isMore then unexpected else return none

end ClassScope.Markup.Classes
