import ClassScope.Markup.Grammar.Types

/-! Patterns that declare names. -/
namespace ClassScope.Markup.Patterns
open Reader

def value (rules : Rules) : Reader Node := enclosed (settled rules .assignment)

def defaultIfAny (rules : Rules) : Reader (List Node) := do
  if ← eatMark "=" then return [← value rules] else return []

def element (rules : Rules) : Reader (List Node) := do
  let p ← rules .pattern
  return p.node :: (← defaultIfAny rules)

/-- A key: nothing is kept of it unless it is an expression in brackets. -/
def key (rules : Rules) : Reader (List Node) := do
  match ← token with
  | .word _ _ | .string _ | .number => do
    advance
    return []
  | .mark "[" =>
    advance
    let k ← value rules
    expectMark "]"
    return [k]
  | _ => unexpected

def arrayElements (rules : Rules) : Reader (List Node) := do
  let items ← commaList "]" do
    if ← isMark "," then return []
    if ← eatMark "..." then
      let p ← rules .pattern
      unless ← isMark "]" do unexpected
      return [p.node]
    element rules
  return items.flatten

def isShorthand : Reader Bool := do
  match ← token with
  | .word _ _ => return !(← aheadIsMark ":")
  | _ => return false

/-- The properties of `{a, b: c = 1, ...d}` after the brace. -/
def properties (rules : Rules) : Reader (List Node) := do
  let items ← commaList "\x7d" do
    if ← eatMark "..." then
      discard bindingName
      unless ← isMark "\x7d" do unexpected
      return []
    if ← isShorthand then
      discard bindingName
      defaultIfAny rules
    else
      let k ← key rules
      expectMark ":"
      return k ++ (← element rules)
  return items.flatten

def rule (rules : Rules) : Reader Phrase := do
  let n ← start
  if ← eatMark "[" then return .group (← arrayElements rules)
  else if ← eatMark "\x7b" then return .group (← properties rules)
  else
    let w ← bindingName
    return { node := .identifier (← spanFrom n) w.toList, kind := .name w }

end ClassScope.Markup.Patterns
