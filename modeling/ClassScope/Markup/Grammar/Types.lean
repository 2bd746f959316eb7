import ClassScope.Markup.Grammar.Basic

/-! Types. They hold no class names, so nothing is kept of them: their rules only find where they
end, and whether they are well formed. -/
namespace ClassScope.Markup.Types
open Reader

/-- One type, whatever the surroundings say about conditional types. -/
def whole (rules : Rules) : Reader Unit := do
  withReader (fun c => { c with allowConditionalType := true }) do
    discard (rules .type)

def arguments (rules : Rules) : Reader Unit := do
  expectMark "<"
  if ← isMark ">" then unexpected
  discard (commaList ">" (whole rules))

def argumentsIfAny (rules : Rules) : Reader Unit := do
  if ← isMark "<" then arguments rules

/-- Words in front of a type parameter's name; the last such word may be the name itself. -/
def parameterModifiers : Reader Unit := do
  discard <| many do
    let word := (← isWord "const") || (← isWord "in") || (← isWord "out")
    let next := (← ahead).token
    let named := match next with
      | .word w _ => w != "extends"
      | _ => false
    if word && named then
      advance
      return some ()
    else return none

def parameter (rules : Rules) : Reader Unit := do
  parameterModifiers
  discard name
  if ← eatWord "extends" then whole rules
  if ← eatMark "=" then whole rules

def parameters (rules : Rules) : Reader Unit := do
  expectMark "<"
  if ← isMark ">" then unexpected
  discard (commaList ">" (parameter rules))

def parametersIfAny (rules : Rules) : Reader Unit := do
  if ← isMark "<" then parameters rules

/-- A type or, after a colon or an arrow, a statement about a parameter: `x is T`, `asserts x` and
`asserts x is T`. -/
def result (rules : Rules) : Reader Unit := do
  let next ← ahead
  let asserts ← isWord "asserts"
  let subject := match next.token with
    | .word w _ => (w == "this" || !reservedWords.contains w) && !next.broke
    | _ => false
  if asserts && subject && next.token != .word "is" false then
    advance
    advance
    if (← isWord "is") && !(← broke) then
      advance
      whole rules
  else if ((← isName) || (← isWord "this")) && next.token == .word "is" false && !next.broke then
    advance
    advance
    whole rules
  else whole rules

def annotation (rules : Rules) : Reader Unit := do
  expectMark ":"
  whole rules

def annotationIfAny (rules : Rules) : Reader Unit := do
  if ← isMark ":" then annotation rules

def resultAnnotationIfAny (rules : Rules) : Reader Unit := do
  if ← eatMark ":" then result rules

def signatureParameters (rules : Rules) : Reader Unit := do
  expectMark "("
  discard <| commaList ")" do
    discard (eatMark "...")
    if ← isWord "this" then advance else discard (rules .pattern)
    discard (eatMark "?")
    annotationIfAny rules

def startsFunction (rules : Rules) : Reader Bool := do
  let seen ← foresee do
    expectMark "("
    if (← isMark ")") || (← isMark "...") then return true
    if ← isWord "this" then advance else discard (rules .pattern)
    if (← isMark ":") || (← isMark ",") || (← isMark "?") || (← isMark "=") then return true
    if ← eatMark ")" then isMark "=>" else return false
  return seen.getD false

def function (rules : Rules) : Reader Unit := do
  parametersIfAny rules
  signatureParameters rules
  expectMark "=>"
  withReader (fun c => { c with allowConditionalType := true }) (result rules)

def endMember : Reader Unit := do
  if (← eatMark ";") || (← eatMark ",") then return
  unless (← isMark "\x7d") || (← broke) do unexpected

def propertyName (rules : Rules) : Reader Unit := do
  match ← token with
  | .word _ _ | .string _ | .number | .hidden _ => advance
  | .mark "[" =>
    advance
    discard (settled rules .assignment)
    expectMark "]"
  | _ => unexpected

def isIndexSignature : Reader Bool := do
  let seen ← foresee do
    expectMark "["
    discard anyWord
    isMark ":"
  return seen.getD false

def indexSignature (rules : Rules) : Reader Unit := do
  expectMark "["
  discard name
  annotation rules
  expectMark "]"
  annotationIfAny rules

def isModifier (w : String) : Reader Bool := do
  if !(← isWord w) then return false
  let next ← ahead
  return match next.token with
    | .word _ _ | .string _ | .number | .hidden _ | .mark "[" => !next.broke
    | _ => false

def member (rules : Rules) : Reader Unit := do
  if (← isMark "(") || (← isMark "<") then
    parametersIfAny rules
    signatureParameters rules
    resultAnnotationIfAny rules
  else if (← isWord "new") && ((← aheadIsMark "(") || (← aheadIsMark "<")) then
    advance
    parametersIfAny rules
    signatureParameters rules
    resultAnnotationIfAny rules
  else
    if ← isModifier "readonly" then advance
    if ← isIndexSignature then indexSignature rules
    else
      if (← isModifier "get") || (← isModifier "set") then advance
      propertyName rules
      discard (eatMark "?")
      if (← isMark "(") || (← isMark "<") then
        parametersIfAny rules
        signatureParameters rules
        resultAnnotationIfAny rules
      else annotationIfAny rules
  endMember

def members (rules : Rules) : Reader Unit := do
  expectMark "\x7b"
  discard <| many do
    if ← eatMark "\x7d" then return none
    member rules
    return some ()

/-- Is `{ [K in T] … }` here, perhaps with `readonly` and a sign in front? -/
def isMapped : Reader Bool := do
  let seen ← foresee do
    expectMark "\x7b"
    if (← eatMark "+") || (← eatMark "-") then isWord "readonly"
    else
      discard (eatWord "readonly")
      expectMark "["
      discard anyWord
      isWord "in"
  return seen.getD false

def mapped (rules : Rules) : Reader Unit := do
  expectMark "\x7b"
  if (← eatMark "+") || (← eatMark "-") then expectWord "readonly" else discard (eatWord "readonly")
  expectMark "["
  discard name
  expectWord "in"
  whole rules
  if ← eatWord "as" then whole rules
  expectMark "]"
  if (← eatMark "+") || (← eatMark "-") then expectMark "?" else discard (eatMark "?")
  annotationIfAny rules
  discard ((eatMark ";") <||> (eatMark ","))
  expectMark "\x7d"

/-- `name: T`, `name?: T`, `...T`, `T?` or `T`. -/
def tupleElement (rules : Rules) : Reader Unit := do
  discard (eatMark "...")
  let labelled ← foresee do
    discard anyWord
    discard (eatMark "?")
    isMark ":"
  if labelled.getD false then
    advance
    discard (eatMark "?")
    annotation rules
  else
    whole rules
    discard (eatMark "?")

def entityName : Reader Unit := do
  if ← isWord "this" then advance else discard name
  discard <| many do
    if ← eatMark "." then
      match ← token with
      | .hidden _ => advance
      | _ => discard anyWord
      return some ()
    else return none

def argumentsOnLine (rules : Rules) : Reader Unit := do
  if (← isMark "<") && !(← broke) then arguments rules

def imported (rules : Rules) : Reader Unit := do
  expectMark "("
  match ← token with
  | .string _ => advance
  | _ => unexpected
  if ← eatMark "," then
    unless ← isMark ")" do
      discard (settled rules .assignment)
      discard (eatMark ",")
  expectMark ")"
  discard <| many do
    if ← eatMark "." then
      discard anyWord
      return some ()
    else return none
  argumentsOnLine rules

/-- A template whose interpolations are types, after its first backtick, at `k`. -/
def template (rules : Rules) (k : Cursor) : Reader Unit :=
  iterate (fun (k : Cursor) => do
    match segmentRaw? k.offset k.rest with
    | none => failAt k.offset
    | some (_, .backtick, next) =>
      resumeAt next
      return .inr ()
    | some (_, .interpolation, next) =>
      resumeAt next
      whole rules
      unless ← isMark "\x7d" do unexpected
      return .inl (← get).here.next) k

def primary (rules : Rules) : Reader Unit := do
  match ← token with
  | .string _ | .number => advance
  | .mark "-" =>
    advance
    match ← token with
    | .number => advance
    | _ => unexpected
  | .mark "`" => template rules (← get).here.next
  | .mark "(" =>
    advance
    whole rules
    expectMark ")"
  | .mark "[" =>
    advance
    discard (commaList "]" (tupleElement rules))
  | .mark "\x7b" => if ← isMapped then mapped rules else members rules
  | .word "true" false | .word "false" false | .word "null" false | .word "void" false
  | .word "this" false => advance
  | .word "typeof" false =>
    advance
    if ← eatWord "import" then imported rules
    else
      entityName
      argumentsOnLine rules
  | .word "import" false =>
    advance
    imported rules
  | _ =>
    entityName
    argumentsOnLine rules

def postfixed (rules : Rules) : Reader Unit := do
  primary rules
  discard <| many do
    if (← isMark "[") && !(← broke) then
      advance
      unless ← eatMark "]" do
        whole rules
        expectMark "]"
      return some ()
    else return none

def isOperator (w : String) : Reader Bool := do
  if !(← isWord w) then return false
  let next ← ahead
  return match next.token with
    | .word v _ => v != "extends" && v != "is"
    | .string _ | .number => true
    | .mark m => ["(", "[", "\x7b", "`", "-"].contains m && !next.broke
    | _ => false

/-- A constraint of an inferred type, unless it turns out to be the test of a conditional type. -/
def inferConstraint (rules : Rules) : Reader Unit := do
  if ← isWord "extends" then
    let allowed := (← read).allowConditionalType
    discard <| attempt do
      advance
      withReader (fun c => { c with allowConditionalType := false }) do
        discard (rules .type)
      if allowed && (← isMark "?") then unexpected

def operand (rules : Rules) : Reader Unit := do
  discard <| many do
    if (← isOperator "keyof") || (← isOperator "readonly") || (← isOperator "unique") then
      advance
      return some ()
    else return none
  if ← isOperator "infer" then
    advance
    discard name
    inferConstraint rules
  else postfixed rules

/-- Operands with a mark between them, and perhaps one more in front. -/
def joined (mark : String) (item : Reader Unit) : Reader Unit := do
  discard (eatMark mark)
  item
  discard <| many do
    if ← eatMark mark then
      item
      return some ()
    else return none

def unionOperand (rules : Rules) : Reader Unit := do
  if (← isMark "<") || ((← isMark "(") && (← startsFunction rules)) then function rules
  else operand rules

def union (rules : Rules) : Reader Unit := joined "|" (joined "&" (unionOperand rules))

def unconditional (rules : Rules) : Reader Unit := do
  let next ← ahead
  if (← isWord "new") then
    advance
    function rules
  else if (← isWord "abstract") && next.token == .word "new" false then
    advance
    advance
    function rules
  else union rules

/-- `A extends B ? C : D` or less. -/
def rule (rules : Rules) : Reader Phrase := do
  unconditional rules
  if (← read).allowConditionalType && (← isWord "extends") && !(← broke) then
    advance
    withReader (fun c => { c with allowConditionalType := false }) (unconditional rules)
    expectMark "?"
    whole rules
    expectMark ":"
    whole rules
  return .none

end ClassScope.Markup.Types
