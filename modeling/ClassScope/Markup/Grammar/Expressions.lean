import ClassScope.Markup.Grammar.Operands

/-! Expressions built from operands: members and calls, operators, conditionals, assignments and
sequences. -/
namespace ClassScope.Markup.Expressions
open Reader Operands

def memberPhrase (n : Nat) (chain : Bool) (node : Node) : Phrase :=
  if chain then .value n node .chain else { node, asBinding := some n, simple := true }

def memberName : Reader Unit := do
  match ← token with
  | .hidden _ => advance
  | _ => discard anyWord

def index (rules : Rules) : Reader Node := do
  let e ← enclosed (settled rules .expression)
  expectMark "]"
  return e

def callPhrase (rules : Rules) (n : Nat) (p : Phrase) (optional : Bool) : Reader Phrase := do
  let args ← arguments rules
  let span ← spanFrom n
  if optional || p.kind == .chain then
    return .value n (.other .member span (p.node :: args)) .chain
  else return .value n (.call span p.node args)

def expressionlessWords : List String :=
  ["break", "case", "catch", "const", "continue", "debugger", "default", "do", "else", "enum",
   "export", "extends", "finally", "for", "if", "implements", "in", "instanceof", "return",
   "switch", "throw", "try", "var", "while", "with", "as", "satisfies"]

def confirmsTypeArguments : Reader Bool := do
  let here := (← get).here
  match here.token with
  | .mark m =>
    if ["(", "`"].contains m then return true
    if ["<", ">", "+", "-"].contains m then return false
    return here.broke || ! ["[", "\x7b", "~", "!", "++", "--", "@"].contains m
  | .word w _ => return here.broke || expressionlessWords.contains w
  | .string _ | .number | .hidden _ => return here.broke
  | .finish => return true
  | .invalid => return false

def typeArgued (rules : Rules) (n : Nat) (p : Phrase) (calls : Bool) : Reader Phrase := do
  Types.arguments rules
  unless ← confirmsTypeArguments do unexpected
  if calls && (← eatMark "(") then callPhrase rules n p false
  else if ← isMark "`" then
    let (_, parts) ← template rules true (← get).here.next
    return .value n (.other .taggedTemplate (← spanFrom n) (p.node :: parts))
  else if !calls then unexpected
  else return .value n (.other .expression (← spanFrom n) [p.node])

def optionalPart (rules : Rules) (n : Nat) (p : Phrase) : Reader Phrase := do
  if (← hasTypes) && (← isMark "<") then
    Types.arguments rules
    expectMark "("
    return ← callPhrase rules n p true
  if ← eatMark "(" then callPhrase rules n p true
  else if ← eatMark "[" then
    let i ← index rules
    return memberPhrase n true (.other .member (← spanFrom n) [p.node, i])
  else
    memberName
    return memberPhrase n true (.other .member (← spanFrom n) [p.node])

/-- One more member, call or template after `p`; `none` if nothing follows. -/
def subscript? (rules : Rules) (n : Nat) (calls : Bool) (p : Phrase) :
    Reader (Option Phrase) := do
  let chain := p.kind == .chain
  match ← token with
  | .mark "." =>
    discard (settle p)
    advance
    memberName
    return some (memberPhrase n chain (.other .member (← spanFrom n) [p.node]))
  | .mark "?." =>
    discard (settle p)
    if !calls then unexpected
    advance
    return some (← optionalPart rules n p)
  | .mark "[" =>
    discard (settle p)
    advance
    let i ← index rules
    return some (memberPhrase n chain (.other .member (← spanFrom n) [p.node, i]))
  | .mark "(" =>
    if !calls then return none
    discard (settle p)
    advance
    return some (← callPhrase rules n p false)
  | .mark "`" =>
    if chain then unexpected
    let (_, parts) ← template rules true (← get).here.next
    return some (.value n (.other .taggedTemplate (← spanFrom n) (p.node :: parts)))
  | .mark "!" =>
    if !(← hasTypes) || (← broke) then return none
    advance
    return some { p with kind := .plain, node := .other .expression (← spanFrom n) [p.node] }
  | .mark "<" =>
    if !(← hasTypes) then return none
    attempt (typeArgued rules n p calls)
  | _ => return none

def subscripts (rules : Rules) (n : Nat) (calls : Bool) (p : Phrase) : Reader Phrase := do
  if p.kind == .arrow then return p
  iterate (fun (p : Phrase) => do
    match ← subscript? rules n calls p with
    | some q => return .inl q
    | none => return .inr p) p

def construction (rules : Rules) : Reader Phrase := do
  let n ← start
  expectWord "new"
  if ← eatMark "." then
    expectWord "target"
    unless (← read).allowNewTarget do noteAt n
    return .value n (.other .expression (← spanFrom n) [])
  if ← isWord "import" then unexpected
  let callee ← settle (← withReader (fun c => { c with arrowAt := none }) (rules .newCallee))
  if (← hasTypes) && (← isMark "<") then
    discard <| attempt do
      Types.arguments rules
      unless ← isMark "(" do unexpected
  let args ← if ← eatMark "(" then arguments rules else pure []
  return .value n (.other .expression (← spanFrom n) (callee :: args))

/-- What `new` constructs: members are looked up first, calls are not made. -/
def newCallee (rules : Rules) : Reader Phrase := do
  let n ← start
  let p ← if ← isWord "new" then construction rules else Operands.rule rules
  subscripts rules n false p

def leftHandSide (rules : Rules) : Reader Phrase := do
  let n ← start
  let p ← if ← isWord "new" then construction rules else Operands.rule rules
  subscripts rules n true p

def unaryMarks : List String := ["!", "~", "+", "-"]

def unaryWords : List String := ["delete", "void", "typeof"]

def isUnaryOperator : Reader Bool := do
  match ← token with
  | .mark m => return unaryMarks.contains m
  | .word w false => return unaryWords.contains w
  | _ => return false

def stepped (n : Nat) (p : Phrase) : Reader Phrase := do
  if p.kind == .arrow || (← broke) then return p
  if (← isMark "++") || (← isMark "--") then
    if !p.simple then noteAt n
    advance
    return .value n (.other .expression (← spanFrom n) [p.node])
  return p

def unary (rules : Rules) : Reader Phrase := do
  let n ← start
  if ← isUnaryOperator then
    let deletes ← isWord "delete"
    advance
    let p ← rules .unary
    let e ← settle p
    if deletes && (p.kind matches .name _) then noteAt n
    return .value n (.other .expression (← spanFrom n) [e]) .unary
  if (← isMark "++") || (← isMark "--") then
    advance
    let m ← start
    let p ← rules .unary
    if !p.simple then noteAt m
    return .value n (.other .expression (← spanFrom n) [p.node])
  if (← isWord "await") && (← read).allowAwait then
    advance
    let e ← settled rules .unary
    return .value n (.other .expression (← spanFrom n) [e]) .unary
  if (← isMark "<") && (← hasTypes) && !(← hasElements) then
    advance
    unless ← eatWord "const" do Types.whole rules
    expectMark ">"
    let p ← rules .unary
    return { p with kind := .unary, node := .other .expression (← spanFrom n) [p.node] }
  stepped n (← rules .leftHandSide)

/-- Powers group to the right, and no operator in front of the base may do without brackets. -/
def exponent (rules : Rules) : Reader Phrase := do
  let n ← start
  let p ← rules .unary
  if p.kind != .arrow && (← isMark "**") then
    if p.kind == .unary then unexpected
    let base ← settle p
    advance
    let e ← settled rules .exponent
    return .value n (.other .binary (← spanFrom n) [base, e])
  return p

/-- The operators of each level, the tightest first. -/
def levels : List (List String) :=
  [["*", "/", "%"], ["+", "-"], ["<<", ">>", ">>>"],
   ["<", ">", "<=", ">=", "instanceof", "in", "as", "satisfies"],
   ["==", "!=", "===", "!=="], ["&"], ["^"], ["|"], ["&&"], ["||"], ["??"]]

/-- The operator here, if it is one of these and means something in this place. -/
def operatorOf (operators : List String) : Reader (Option (String × Cursor)) := do
  match ← operator with
  | none => return none
  | some (m, k) =>
    if !operators.contains m then return none
    if m == "in" && !(← read).allowIn then return none
    if m == "as" || m == "satisfies" then
      if !(← hasTypes) || (← broke) then return none
    return some (m, k)

def namedType (rules : Rules) (word : String) : Reader Unit := do
  if word == "as" && (← eatWord "const") then return
  Types.whole rules

def operand (rules : Rules) : Reader Phrase := do
  let n ← start
  match ← token with
  | .hidden _ =>
    advance
    unless (← isWord "in") && (← read).allowIn do unexpected
    return .value n (.other .expression (← spanFrom n) []) .hidden
  | _ => rules .exponent

/-- Joins two operands. Choosing the first that is there does not mix with choosing by truth. -/
def combine (n : Nat) (operator : String) (left right : Phrase) : Reader Phrase := do
  let a ← settle left
  let b ← settle right
  if operator == "??" && (left.kind == .logical || right.kind == .logical) then noteAt n
  let kind := if operator == "&&" || operator == "||" then Kind.logical else .plain
  return .value n (.other .binary (← spanFrom n) [a, b]) kind

/-- Operands joined by operators of some levels, each level grouping to the left; the levels are
given with the loosest first. -/
def joined (rules : Rules) : List (List String) → Reader Phrase
  | [] => operand rules
  | operators :: tighter => do
    let n ← start
    let first ← joined rules tighter
    if first.kind == .arrow then return first
    iterate (fun (left : Phrase) => do
      match ← operatorOf operators with
      | none => return .inr left
      | some (m, k) =>
        if left.kind == .hidden && m != "in" then unexpected
        resumeAt k
        if m == "as" || m == "satisfies" then
          namedType rules m
          let span ← spanFrom n
          return .inl { left with kind := .plain, node := .other .expression span [left.node] }
        let right ← joined rules tighter
        if right.kind == .hidden then unexpected
        return .inl (← combine n m left right)) first

def binary (rules : Rules) : Reader Phrase := joined rules levels.reverse

def conditional (rules : Rules) : Reader Phrase := do
  let n ← start
  let p ← rules .binary
  if p.kind == .arrow || !(← isMark "?") then return p
  branches rules n p

def yieldsNothing : Reader Bool := do
  if ← broke then return true
  match ← token with
  | .finish => return true
  | .mark m => return [")", "]", "\x7d", ",", ";", ":", "?"].contains m
  | .word w _ => return w == "in" || w == "of"
  | _ => return false

def yielding (rules : Rules) : Reader Phrase := do
  let n ← start
  expectWord "yield"
  if (← yieldsNothing) then return .value n (.other .expression (← spanFrom n) [])
  discard (eatMark "*")
  let e ← settled rules .assignment
  return .value n (.other .expression (← spanFrom n) [e])

def assignmentBase (rules : Rules) : Reader Phrase := do
  let n ← start
  if (← isWord "yield") && (← read).allowYield then return ← yielding rules
  withReader (fun c => { c with arrowAt := some n }) do
    let p ← conditional rules
    if p.kind == .arrow then return p
    assigned rules n p

def genericArrow (rules : Rules) : Reader Phrase := do
  let n ← start
  Types.parameters rules
  let p ← withReader (fun c => { c with firstBranch := false }) (assignmentBase rules)
  if p.kind != .arrow then unexpected
  match p.node with
  | .other shape _ parts => return { p with node := .other shape (← spanFrom n) parts }
  | _ => return p

/-- One expression of a list. A bracket in front may start a function with type parameters, where
no element or type turns out to start. -/
def assignment (rules : Rules) : Reader Phrase := do
  if (← hasTypes) && (← isMark "<") then
    if ← hasElements then orElse (assignmentBase rules) (genericArrow rules)
    else
      match ← attempt (genericArrow rules) with
      | some p => return p
      | none => assignmentBase rules
  else assignmentBase rules

def expression (rules : Rules) : Reader Phrase := do
  let n ← start
  let first ← rules .assignment
  if !(← isMark ",") then return first
  let a ← settle first
  let rest ← many do
    if ← eatMark "," then
      return some (← withReader (fun c => { c with firstBranch := false })
        (settled rules .assignment))
    else return none
  return .value n (.other .expression (← spanFrom n) (a :: rest))

end ClassScope.Markup.Expressions
