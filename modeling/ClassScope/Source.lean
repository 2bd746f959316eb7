import ClassScope.Markup.Node
import ClassScope.Text.Line

/-! Sources and places in them. The grammar sees a source without the byte order mark that may
stand in front; ranges are cut out of the whole text. -/
namespace ClassScope

structure Source where
  text : Text

namespace Source

def body (s : Source) : Text :=
  match s.text with
  | '\uFEFF' :: t => t
  | t => t

/-- The bytes that a span covers; `none` if it lies nowhere, runs backwards or leaves the text. -/
def range? (s : Source) (span : Span) : Option (Nat × Nat) :=
  if span.lo = 0 ∨ span.hi < span.lo ∨ s.text.size < span.hi - 1 then none
  else some (span.lo - 1, span.hi - 1)

def slice? (s : Source) (span : Span) : Option Text :=
  (s.range? span).bind fun (start, stop) => s.text.slice? start stop

/-- The line of a position: zero for nowhere. -/
def line (s : Source) (position : Nat) : Nat :=
  if position = 0 then 0 else Text.line (position - 1) s.body

end Source
end ClassScope
