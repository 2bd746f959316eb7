import ClassScope.Markup.Grammar.Operands

/-! Imports and exports. -/
namespace ClassScope.Markup.Modules
open Reader

def source : Reader Unit := do
  match ← token with
  | .string _ => advance
  | _ => unexpected

def importAttributes (rules : Rules) : Reader Unit := do
  let named := (← isWord "with") || ((← isWord "assert") && !(← broke))
  if named then
    advance
    unless ← isMark "\x7b" do unexpected
    discard (settle (← Operands.object rules))

def fromSource (rules : Rules) : Reader Unit := do
  expectWord "from"
  source
  importAttributes rules
  endStatement

def isTypeMark : Reader Bool := do
  if !(← hasTypes) || !(← isWord "type") then return false
  match (← ahead).token with
  | .word "as" _ =>
    let after := (lex (← ahead).next).token
    return after == .word "as" false || after == .mark "," || after == .mark "\x7d"
  | .word _ _ | .string _ => return true
  | _ => return false

/-- A name inside braces, which may be a text. Gives whether it is a name that can be bound. -/
def specifierName : Reader (Option (Nat × String)) := do
  match ← token with
  | .string _ =>
    advance
    return none
  | .word w _ =>
    let n ← start
    advance
    return some (n, w)
  | _ => unexpected

def checkLocal (name : Option (Nat × String)) : Reader Unit := do
  match name with
  | none => unexpected
  | some (n, w) =>
    if reservedWords.contains w then failAt n
    if strictWords.contains w || w == "await" then noteAt n

def importSpecifiers : Reader Unit := do
  discard <| commaList "\x7d" do
    if ← isTypeMark then advance
    let imported ← specifierName
    if ← eatWord "as" then discard bindingName else checkLocal imported

def importClause : Reader Unit := do
  if ← eatMark "*" then
    expectWord "as"
    discard bindingName
  else
    expectMark "\x7b"
    importSpecifiers

def importEquals : Reader Unit := do
  if (← isWord "require") && (← aheadIsMark "(") then
    advance
    advance
    source
    expectMark ")"
  else Types.entityName
  endStatement

/-- Does `type` after `import` say that only types are imported? -/
def importsTypes : Reader Bool := do
  if !(← hasTypes) || !(← isWord "type") then return false
  let next ← ahead
  match next.token with
  | .mark m => return m == "\x7b" || m == "*"
  | .word "from" _ => return (lex next.next).token == .word "from" false
  | .word _ _ => return true
  | _ => return false

def importDeclaration (rules : Rules) : Reader Unit := do
  expectWord "import"
  if (← token) matches .string _ then
    source
    importAttributes rules
    endStatement
    return
  if ← importsTypes then advance
  if ← isName then
    discard bindingName
    if (← hasTypes) && (← eatMark "=") then
      importEquals
      return
    if ← eatMark "," then importClause
  else importClause
  fromSource rules

/-- `{ a, b as c, type D }` after the brace; gives the local names. -/
def exportSpecifiers : Reader (List (Option (Nat × String))) :=
  commaList "\x7d" do
    if ← isTypeMark then advance
    let exported ← specifierName
    if ← eatWord "as" then discard specifierName
    return exported

def exportNames (rules : Rules) : Reader Unit := do
  expectMark "\x7b"
  let names ← exportSpecifiers
  if ← isWord "from" then fromSource rules
  else
    for n in names do checkLocal n
    endStatement

def exportAll (rules : Rules) : Reader Unit := do
  expectMark "*"
  if ← eatWord "as" then discard specifierName
  fromSource rules

def exportDefault (rules : Rules) (ds : List Node) : Reader (List Node) := do
  let n ← start
  let next ← ahead
  if ← isWord "function" then
    advance
    let parts ← Functions.afterKeyword rules false false true
    return [.other .function (← spanFrom n) parts]
  if (← isWord "async") && next.token == .word "function" false && !next.broke then
    advance
    advance
    let parts ← Functions.afterKeyword rules true false true
    return [.other .function (← spanFrom n) parts]
  if let some parts ← Classes.decorated? rules false ds then return parts
  if (← hasTypes) && (← isWord "interface") && !next.broke &&
      (nameOf next.token).isSome then
    return [(← rules .statement).node]
  let e ← settled rules .expression
  endStatement
  return [e]

def declarationWords : List String := ["var", "let", "const", "function", "class", "async"]

def typeDeclarationWords : List String :=
  ["interface", "type", "enum", "namespace", "module", "declare", "abstract", "import", "global"]

def exportAssignment? (rules : Rules) : Reader (Option (List Node)) := do
  if !(← hasTypes) then return none
  if ← eatMark "=" then
    let e ← settled rules .expression
    endStatement
    return some [e]
  if (← isWord "as") && (← aheadIsWord "namespace") then
    advance
    advance
    discard name
    endStatement
    return some []
  return none

/-- An export, at its keyword; `ds` are decorators in front of it. -/
def exportDeclaration (rules : Rules) (ds : List Node) : Reader (List Node) := do
  expectWord "export"
  if ← eatWord "default" then return ← exportDefault rules ds
  if let some parts ← exportAssignment? rules then return parts
  if ← isMark "*" then
    exportAll rules
    return []
  if ← isMark "\x7b" then
    exportNames rules
    return []
  let typed ← hasTypes
  let next ← ahead
  if typed && (← isWord "type") && (next.token == .mark "\x7b" || next.token == .mark "*") then
    advance
    if ← isMark "*" then exportAll rules else exportNames rules
    return []
  if let some parts ← Classes.decorated? rules true ds then return parts
  let word := match ← token with
    | .word w false => declarationWords.contains w || (typed && typeDeclarationWords.contains w)
    | _ => false
  if !word then unexpected
  if (← isWord "async") && next.token != .word "function" false then unexpected
  return [(← rules .statement).node]

end ClassScope.Markup.Modules
