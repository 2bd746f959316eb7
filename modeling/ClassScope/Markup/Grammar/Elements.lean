import ClassScope.Markup.Grammar.Types

/-! Elements. Between the tags stands text, which is not read token by token; a name in a tag may
hold hyphens, and a quoted value of an attribute has no escapes. -/
namespace ClassScope.Markup.Elements
open Reader

def tagWord : Reader String := do
  match ← token with
  | .word w _ =>
    let k := (← get).here.next
    let (tail, k) := match k.rest with
      | '-' :: _ => Cursor.takeWhile (fun c => Text.isIdContinue c || c = '-') k.offset k.rest
      | _ => ([], k)
    resumeAt k
    return w ++ String.ofList tail
  | _ => unexpected

/-- `a`, `a:b` or `a.b.c`, written without blanks. -/
def elementName : Reader String := do
  let w ← tagWord
  if ← eatMark ":" then return w ++ ":" ++ (← tagWord)
  let tail ← many do
    if ← eatMark "." then return some ("." ++ (← tagWord)) else return none
  return tail.foldl (· ++ ·) w

def attributeName : Reader (Option Text) := do
  let w ← tagWord
  if ← eatMark ":" then
    discard tagWord
    return none
  return some w.toList

def quoteEnd? (quote : Char) (n : Nat) : Text → Option Cursor
  | [] => none
  | c :: t => if c = quote then some ⟨n + 1, t⟩ else quoteEnd? quote (n + c.utf8Size) t

/-- An expression in braces, at the opening brace; an attribute needs one. -/
def container (rules : Rules) : Reader Node := do
  expectMark "\x7b"
  let e ← enclosed (settled rules .expression)
  expectMark "\x7d"
  return e

def attributeValue (rules : Rules) : Reader Node := do
  let after := (← get).here.next
  match skipGap .plain false after.offset after.rest with
  | none => failAt after.offset
  | some (_, k) =>
    match k.rest with
    | c :: t =>
      if c = '"' || c = '\'' then
        match quoteEnd? c (k.offset + 1) t with
        | none => failAt k.offset
        | some next =>
          resumeAt next
          return .quoted (← spanFrom k.offset)
      else
        advance
        if ← isMark "\x7b" then
          let e ← container rules
          return .slot (← spanFrom k.offset) e
        else if ← isMark "<" then return (← rules .element).node
        else unexpected
    | [] => failAt k.offset

/-- An attribute or a spread; nothing is kept of an attribute without a value. -/
def attributeOrSpread (rules : Rules) : Reader (List Node) := do
  if ← eatMark "\x7b" then
    expectMark "..."
    let e ← enclosed (settled rules .assignment)
    expectMark "\x7d"
    return [e]
  let name ← attributeName
  if ← isMark "=" then return [.attr name (← attributeValue rules)] else return []

def attributes (rules : Rules) : Reader (List Node) := do
  let items ← many do
    if (← isMark "/") || (← isMark ">") then return none
    return some (← attributeOrSpread rules)
  return items.flatten

/-- The place where the text between tags ends, and whether a brace or a bracket stands in it that
should have been written otherwise. -/
def textEnd (n : Nat) : Text → Option Nat × Cursor
  | [] => (none, ⟨n, []⟩)
  | c :: t =>
    if c = '<' || c = '\x7b' then (none, ⟨n, c :: t⟩)
    else
      let (bad, k) := textEnd (n + c.utf8Size) t
      (if c = '>' || c = '\x7d' then some n else bad, k)

def bracedChild (rules : Rules) : Reader (List Node) := do
  if ← aheadIsMark "\x7d" then
    advance
    advance
    return []
  if ← aheadIsMark "..." then
    advance
    advance
    let e ← enclosed (settled rules .expression)
    expectMark "\x7d"
    return [e]
  return [← container rules]

/-- Children from the place after a tag on, up to the closing tag, whose first bracket is then the
token here. -/
def children (rules : Rules) : Reader (List Node) := do
  let items ← many do
    let k := (← get).last
    let (bad, k) := textEnd k.offset k.rest
    noteIf bad
    resumeAt k
    if ← isMark "\x7b" then return some (← bracedChild rules)
    else if ← isMark "<" then
      if ← aheadIsMark "/" then return none
      return some [(← rules .element).node]
    else unexpected
  return items.flatten

def closingTag (name : Option String) : Reader Unit := do
  expectMark "<"
  expectMark "/"
  let n ← start
  match name with
  | some w =>
    if ← isMark ">" then failAt n
    let closing ← elementName
    if closing != w then failAt n
  | none => pure ()
  expectMark ">"

def rule (rules : Rules) : Reader Phrase := do
  let n ← start
  expectMark "<"
  if ← eatMark ">" then
    let parts ← children rules
    closingTag none
    return .value n (.other .expression (← spanFrom n) parts)
  let name ← elementName
  if ← hasTypes then Types.argumentsIfAny rules
  let attrs ← attributes rules
  if ← eatMark "/" then
    expectMark ">"
    return .value n (.other .expression (← spanFrom n) attrs)
  expectMark ">"
  let parts ← children rules
  closingTag (some name)
  return .value n (.other .expression (← spanFrom n) (attrs ++ parts))

end ClassScope.Markup.Elements
