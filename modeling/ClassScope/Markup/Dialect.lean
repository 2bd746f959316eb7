import ClassScope.Path

/-! The three grammars a source can be read with. -/
namespace ClassScope

inductive Dialect where
  | jsx
  | typescript
  | tsx
  deriving DecidableEq, Repr

namespace Dialect

/-- The grammar that the extension of a file name asks for; anything unknown is read with both
types and elements. -/
def ofFileName (name : Option Path) : Dialect :=
  match (name.bind Path.extension?).map String.ofList with
  | some "js" | some "jsx" | some "mjs" | some "cjs" => jsx
  | some "ts" | some "mts" | some "cts" => typescript
  | _ => tsx

def hasTypes : Dialect → Bool
  | jsx => false
  | typescript | tsx => true

def hasElements : Dialect → Bool
  | typescript => false
  | jsx | tsx => true

end Dialect
end ClassScope
