import ClassScope.Markup.Grammar.Statements

/-! Whole sources. The rules of the grammar call each other through goals; here the circle is
closed, with a bound on how deep the calls go. Between two calls of one goal at least one token is
read, so the bound, which grows with the source, is never met. -/
namespace ClassScope.Markup

def ruleFor (rules : Rules) : Rules
  | .expression => Expressions.expression rules
  | .assignment => Expressions.assignment rules
  | .binary => Expressions.binary rules
  | .exponent => Expressions.exponent rules
  | .unary => Expressions.unary rules
  | .leftHandSide => Expressions.leftHandSide rules
  | .newCallee => Expressions.newCallee rules
  | .statement => Statements.rule rules
  | .substatement => Statements.governed rules
  | .pattern => Patterns.rule rules
  | .element => Elements.rule rules
  | .type => Types.rule rules

/-- The rules with calls at most `depth` deep. -/
def rulesTo : Nat → Rules
  | 0, _ => Reader.unexpected
  | depth + 1, goal => ruleFor (rulesTo depth) goal

def statements (rules : Rules) : Reader (List Node) :=
  Reader.many do
    if ← Reader.isFinish then return none
    return some (← rules .statement).node

/-- A line at the very start that names an interpreter is skipped. -/
def firstPlace (t : Text) : Cursor :=
  match t with
  | '#' :: '!' :: rest => (Cursor.takeWhile (!isLineEnd ·) 2 rest).2
  | _ => ⟨0, t⟩

/-- Reads a source, or finds the place where it breaks the grammar. A source that could be read to
its end breaks it at the first fault noted on the way. -/
def parse (dialect : Dialect) (t : Text) : Except Fault (List Node) :=
  let bound := t.length + 4
  let first := firstPlace t
  let context : Context := { dialect, bound, topLevel := true }
  let state : State := { here := lex first, last := first, noted := [] }
  match ((statements (rulesTo (16 * bound))).run context).run state with
  | .error f => .error f
  | .ok (nodes, s) =>
    match s.noted.getLast? with
    | some f => .error f
    | none => .ok nodes

end ClassScope.Markup
