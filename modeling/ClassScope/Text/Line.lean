import ClassScope.Text.Basic

/-! Lines and columns. A line ends with a line feed, with a carriage return, or with the two in
that order; the line and paragraph separators of Unicode end no line. -/
namespace ClassScope.Text

/-- Number of line ends that lie wholly within the first `n` bytes. -/
def lineEnds : Nat → Text → Nat
  | _, [] => 0
  | n, '\r' :: '\n' :: t => if 2 ≤ n then lineEnds (n - 2) t + 1 else 0
  | n, c :: t =>
    if c.utf8Size ≤ n then
      lineEnds (n - c.utf8Size) t + (if c = '\n' ∨ c = '\r' then 1 else 0)
    else 0

def line (n : Nat) (t : Text) : Nat := lineEnds n t + 1

/-- Number of characters between the last line end before byte `n` and that byte. -/
def charsInLine (seen : Nat) : Nat → Text → Nat
  | _, [] => seen
  | n, '\r' :: '\n' :: t => if 2 ≤ n then charsInLine 0 (n - 2) t else seen + n
  | n, c :: t =>
    if 0 < n ∧ c.utf8Size ≤ n then
      charsInLine (if c = '\n' ∨ c = '\r' then 0 else seen + 1) (n - c.utf8Size) t
    else seen

/-- The column, counted from one in characters, of byte `n`. -/
def column (n : Nat) (t : Text) : Nat := charsInLine 0 n t + 1

def lineFeeds (t : Text) : Nat := t.count '\n'

end ClassScope.Text
