import ClassScope.Pattern.CharSet

/-! Patterns, and whether one is found in a text. A text is looked at from a place in it: the
character in front and what follows. -/
namespace ClassScope

inductive Pattern.Border where
  | textStart
  | textEnd
  | lineStart
  | lineEnd
  | wordEdge
  | notWordEdge
  | wordStart
  | wordEnd
  | wordStartHalf
  | wordEndHalf
  deriving DecidableEq, Repr

inductive Pattern where
  | empty
  | chars (set : Pattern.CharSet)
  | border (border : Pattern.Border)
  | seq (a b : Pattern)
  | alt (a b : Pattern)
  | times (least : Nat) (most : Option Nat) (a : Pattern)
  deriving Repr

namespace Pattern

/-- How many conditions a pattern sets once its counts are written out. -/
def extent : Pattern → Nat
  | empty => 0
  | chars _ | border _ => 1
  | seq a b | alt a b => extent a + extent b
  | times least most a => max 1 (most.getD least) * extent a

structure Place where
  before : Option Char
  rest : Text
  /-- The length of the rest; in one text it tells places apart. -/
  left : Nat

def Place.start (t : Text) : Place := ⟨none, t, t.length⟩

def Border.holds (b : Border) (p : Place) : Bool :=
  let word := p.before.any Text.isWordChar
  let next := p.rest.head?.any Text.isWordChar
  match b with
  | textStart => p.before.isNone
  | textEnd => p.rest.isEmpty
  | lineStart => p.before.isNone || p.before == some '\n'
  | lineEnd => p.rest.isEmpty || p.rest.head? == some '\n'
  | wordEdge => word != next
  | notWordEdge => word == next
  | wordStart => !word && next
  | wordEnd => word && !next
  | wordStartHalf => !word
  | wordEndHalf => !next

def fresh (seen ps : List Place) : List Place :=
  ps.foldl (fun new p =>
    if seen.any (·.left == p.left) || new.any (·.left == p.left) then new else new ++ [p]) []

def distinct (ps : List Place) : List Place := fresh [] ps

/-- Places seen, and all that at most `n` steps reach from the last of them. -/
def closure (step : Place → List Place) : Nat → List Place → List Place → List Place
  | 0, seen, _ => seen
  | n + 1, seen, last =>
    match fresh seen (last.flatMap step) with
    | [] => seen
    | new => closure step n (seen ++ new) new

def after (step : Place → List Place) : Nat → List Place → List Place
  | 0, ps => ps
  | n + 1, ps => if ps.isEmpty then [] else after step n (distinct (ps.flatMap step))

/-- Where a match that starts here can end. -/
def ends : Pattern → Place → List Place
  | empty, p => [p]
  | chars set, p =>
    match p.rest with
    | c :: rest => if set.contains c then [⟨some c, rest, p.left - 1⟩] else []
    | [] => []
  | border b, p => if b.holds p then [p] else []
  | seq a b, p => distinct ((ends a p).flatMap (ends b))
  | alt a b, p => distinct (ends a p ++ ends b p)
  | times least most a, p =>
    let first := after (ends a) least [p]
    match most with
    | some m => closure (ends a) (m - least) first first
    | none => closure (ends a) p.left first first

def places (before : Option Char) : Text → List Place
  | [] => [⟨before, [], 0⟩]
  | c :: t => ⟨before, c :: t, t.length + 1⟩ :: places (some c) t

def isFoundIn (r : Pattern) (t : Text) : Bool := (places none t).any fun p => !(r.ends p).isEmpty

def takesAll (r : Pattern) (t : Text) : Bool := (r.ends (.start t)).any (·.left == 0)

end Pattern
end ClassScope
