import ClassScope.ClassValue.Basic
import ClassScope.Edit
import ClassScope.Event
import ClassScope.Text.Quoted

/-! Qualifying class values. A ledger keeps the books: an edit for each literal with a new text,
at most one for each place in the source, an event for each edit, and everything that was left
alone. -/
namespace ClassScope

def hexPair (n : Nat) : Text := [Nat.digitChar (n / 16), Nat.digitChar (n % 16)]

def stringChar (quote c : Char) : Text :=
  if c = '\\' then ['\\', '\\']
  else if c = '\n' then ['\\', 'n']
  else if c = '\r' then ['\\', 'r']
  else if c = '\u2028' then "\\u2028".toList
  else if c = '\u2029' then "\\u2029".toList
  else if c = quote then ['\\', c]
  else if c.toNat < 0x20 ∨ c.toNat = 0x7F then '\\' :: 'x' :: hexPair c.toNat
  else [c]

namespace LiteralStyle

def render (style : LiteralStyle) (text : Text) : Text :=
  match style with
  | attr quote => quote :: text ++ [quote]
  | string quote => quote :: text.flatMap (stringChar quote) ++ [quote]
  | segment => text

end LiteralStyle

structure Ledger where
  /-- In the order of their places. -/
  edits : List Edit
  /-- In the order in which the literals were met. -/
  events : List Event
  skipped : List Skipped
  deriving Repr

namespace Ledger

def empty : Ledger := ⟨[], [], []⟩

def isTaken (b : Ledger) (start : Nat) : Bool := b.edits.any (·.start == start)

def insert (e : Edit) : List Edit → List Edit
  | [] => [e]
  | f :: fs => if e.start < f.start then e :: f :: fs else f :: insert e fs

/-- Gives a literal a new text, unless it has none, has that text already or stands where another
literal got one. -/
def write (l : ClassLiteral) (updated : Text) (b : Ledger) : ClassLiteral × Ledger :=
  if l.text = [] ∨ l.text = updated ∨ b.isTaken l.start then (l, b)
  else
    ({ l with text := updated },
     { b with
       edits := insert ⟨l.start, l.stop, l.style.render updated⟩ b.edits
       events := b.events ++ [⟨l.text, updated, l.line⟩] })

def skip (k : Skipped) (b : Ledger) : Ledger := { b with skipped := b.skipped ++ [k] }

def qualifySegments (scope : Text) (after : Bool) :
    List ClassLiteral → Ledger → List ClassLiteral × Ledger
  | [], b => ([], b)
  | l :: ls, b =>
    let updated := ClassList.qualifySegment scope ⟨after, !ls.isEmpty⟩ l.text
    let (l, b) := write l updated b
    let (ls, b) := qualifySegments scope true ls b
    (l :: ls, b)

mutual

/-- Qualifies every class name of an expression, all segments of a template before what stands
between them. -/
def qualify (scope : Text) : ClassExpr → Ledger → ClassExpr × Ledger
  | .literal l, b =>
    let (l, b) := write l (ClassList.qualify scope l.text) b
    (.literal l, b)
  | .conditional consequent alternate, b =>
    let (consequent, b) := qualify scope consequent b
    let (alternate, b) := qualify scope alternate b
    (.conditional consequent alternate, b)
  | .template segments interpolations, b =>
    let (segments, b) := qualifySegments scope false segments b
    let (interpolations, b) := qualifyAll scope interpolations b
    (.template segments interpolations, b)
  | .join callee arguments, b =>
    let (arguments, b) := qualifyAll scope arguments b
    (.join callee arguments, b)
  | .skipped k, b => (.skipped k, skip k b)

def qualifyAll (scope : Text) : List ClassExpr → Ledger → List ClassExpr × Ledger
  | [], b => ([], b)
  | e :: es, b =>
    let (e, b) := qualify scope e b
    let (es, b) := qualifyAll scope es b
    (e :: es, b)

end

def qualifyValue (scope : Text) (value : ClassValue) (b : Ledger) : ClassValue × Ledger :=
  match value with
  | .literal l =>
    let (l, b) := write l (ClassList.qualify scope l.text) b
    (.literal l, b)
  | .slot e =>
    let (e, b) := qualify scope e b
    (.slot e, b)

def ofValues (scope : Text) (values : List ClassValue) : Ledger :=
  values.foldl (fun b v => (qualifyValue scope v b).2) empty

end Ledger
end ClassScope
