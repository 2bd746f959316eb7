import ClassScope.Text.Blank
import ClassScope.Text.Identifier

/-! A place in a text that is being read, and the blanks and comments between tokens. -/
namespace ClassScope.Markup

structure Cursor where
  offset : Nat
  rest : Text
  deriving Repr

namespace Cursor

def takeWhile (p : Char → Bool) (n : Nat) : Text → Text × Cursor
  | [] => ([], ⟨n, []⟩)
  | c :: t =>
    if p c then
      let (taken, next) := takeWhile p (n + c.utf8Size) t
      (c :: taken, next)
    else ([], ⟨n, c :: t⟩)

end Cursor

def isLineEnd (c : Char) : Bool := c == '\n' || c == '\r' || c == '\u2028' || c == '\u2029'

/-- Blanks between tokens: a byte order mark counts as one. -/
def isSpace (c : Char) : Bool := Text.isBlank c || c == '\uFEFF'

inductive Gap where
  | plain
  | lineComment
  | blockComment
  deriving DecidableEq, Repr

/-- Skips blanks and comments from byte `n` on, and says whether a line ended on the way;
`none` if a comment is not closed. -/
def skipGap (gap : Gap) (broke : Bool) (n : Nat) : Text → Option (Bool × Cursor)
  | [] => if gap = .blockComment then none else some (broke, ⟨n, []⟩)
  | '*' :: '/' :: t =>
    match gap with
    | .plain => some (broke, ⟨n, '*' :: '/' :: t⟩)
    | .lineComment => skipGap .lineComment broke (n + 2) t
    | .blockComment => skipGap .plain broke (n + 2) t
  | c :: t =>
    match gap with
    | .plain =>
      if isSpace c then skipGap .plain (broke || isLineEnd c) (n + c.utf8Size) t
      else if c = '/' then
        match t with
        | '/' :: u => skipGap .lineComment broke (n + 2) u
        | '*' :: u => skipGap .blockComment broke (n + 2) u
        | _ => some (broke, ⟨n, c :: t⟩)
      else some (broke, ⟨n, c :: t⟩)
    | .lineComment =>
      if isLineEnd c then skipGap .plain true (n + c.utf8Size) t
      else skipGap .lineComment broke (n + c.utf8Size) t
    | .blockComment =>
      skipGap .blockComment (broke || isLineEnd c) (n + c.utf8Size) t

end ClassScope.Markup
