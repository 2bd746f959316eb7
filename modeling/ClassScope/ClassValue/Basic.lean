import ClassScope.ClassList
import ClassScope.Markup.Node

/-! Values of class attributes. A value is a literal, a choice, a template, a call of the function
that joins class lists, or something that is not looked into. -/
namespace ClassScope

inductive LiteralStyle where
  | attr (quote : Char)
  | string (quote : Char)
  | segment
  deriving DecidableEq, Repr

/-- A class list that stands in the source from byte `start` up to `stop`, quotes included. -/
structure ClassLiteral where
  style : LiteralStyle
  start : Nat
  stop : Nat
  text : Text
  line : Nat
  deriving DecidableEq, Repr

inductive SkipKind where
  | shape (shape : Shape)
  | elementValue
  | spreadArgument
  | stringLiteral
  | surrogateString
  | templateLiteral
  | escapedTemplate
  deriving DecidableEq, Repr

def SkipKind.label : SkipKind → String
  | shape .identifier => "identifier"
  | shape .member => "member expression"
  | shape .call => "call expression"
  | shape .object => "object literal"
  | shape .array => "array literal"
  | shape .binary => "binary expression"
  | shape .literal => "non-string literal"
  | shape .taggedTemplate => "tagged template"
  | shape .function => "function"
  | shape .emptyExpression => "empty expression"
  | shape .expression => "expression"
  | elementValue => "element value"
  | spreadArgument => "spread argument"
  | stringLiteral => "string literal"
  | surrogateString => "non-UTF-8 string literal"
  | templateLiteral => "template literal"
  | escapedTemplate => "escaped template literal"

structure Skipped where
  kind : SkipKind
  line : Nat
  deriving DecidableEq, Repr

inductive ClassExpr where
  | literal (literal : ClassLiteral)
  /-- A choice; its test holds no class names. -/
  | conditional (consequent alternate : ClassExpr)
  /-- Segments and what stands between them, one more of the former. -/
  | template (segments : List ClassLiteral) (interpolations : List ClassExpr)
  | join (callee : Text) (arguments : List ClassExpr)
  | skipped (skipped : Skipped)
  deriving Repr

inductive ClassValue where
  | literal (literal : ClassLiteral)
  | slot (expr : ClassExpr)
  deriving Repr

end ClassScope
