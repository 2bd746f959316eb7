import ClassScope.Text.Basic

/-! What a source is read into. The tree keeps what class names can hang on, literals, templates,
conditionals, calls and attributes, each with its place in the source, and remembers of everything
else only its shape, its place and what it holds. -/
namespace ClassScope

/-- A stretch of source. Positions count bytes from one; position zero is nowhere. -/
structure Span where
  lo : Nat
  hi : Nat
  deriving DecidableEq, Repr

inductive Shape where
  | identifier
  | member
  | call
  | object
  | array
  | binary
  | literal
  | taggedTemplate
  | function
  | emptyExpression
  | expression
  deriving DecidableEq, Repr

structure Segment where
  span : Span
  raw : Text
  deriving DecidableEq, Repr

inductive Node where
  | identifier (span : Span) (name : Text)
  /-- A string literal with its value, if that is a sequence of characters: a lone surrogate is
  none. -/
  | string (span : Span) (value : Option Text)
  | parens (span : Span) (inner : Node)
  | conditional (span : Span) (test consequent alternate : Node)
  | template (span : Span) (segments : List Segment) (interpolations : List Node)
  | call (span : Span) (callee : Node) (arguments : List Node)
  | spread (dots : Span) (inner : Node)
  /-- An attribute of an element, with its name if that is a plain one. Attributes without a
  value are left out of the tree. -/
  | attr (name : Option Text) (value : Node)
  | quoted (span : Span)
  | slot (span : Span) (inner : Node)
  /-- Anything else, with what it holds in the order of visiting. -/
  | other (shape : Shape) (span : Span) (parts : List Node)
  deriving Repr

namespace Node

/-- The place of a node; an attribute has that of its value, a spread that of its dots. -/
def span : Node → Span
  | identifier s _ | string s _ | parens s _ | conditional s _ _ _ | template s _ _ => s
  | call s _ _ | spread s _ | quoted s | slot s _ | other _ s _ => s
  | attr _ value => value.span

end Node
end ClassScope
