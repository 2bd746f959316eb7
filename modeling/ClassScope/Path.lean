import ClassScope.Text.Basic

/-! File paths. A path is a text; what it names is decided by its components, so a doubled
slash, a slash at the end and a dot in the middle say nothing. -/
namespace ClassScope

abbrev Path := Text

namespace Path

inductive Component where
  | root
  | here
  | up
  | name (text : Text)
  deriving DecidableEq, Repr

def pieces : Path → List Text
  | [] => [[]]
  | c :: p =>
    if c = '/' then [] :: pieces p
    else match pieces p with
      | [] => [[c]]
      | s :: r => (c :: s) :: r

def isAbsolute (p : Path) : Bool := p.head? == some '/'

def Component.ofPiece (piece : Text) : Component :=
  if piece = ['.'] then .here else if piece = ['.', '.'] then .up else .name piece

/-- A dot counts only as the first piece of a relative path. -/
def components (p : Path) : List Component :=
  match (pieces p).filter (· ≠ []) with
  | [] => if isAbsolute p then [.root] else []
  | first :: rest =>
    let tail := (rest.map Component.ofPiece).filter (· ≠ .here)
    let head := Component.ofPiece first
    if isAbsolute p then .root :: ([head].filter (· ≠ .here)) ++ tail else head :: tail

def fileName? (p : Path) : Option Text :=
  match (components p).getLast? with
  | some (.name n) => some n
  | _ => none

/-- What follows the last dot of a file name; a dot in front does not count. -/
def extensionOf? (name : Text) : Option Text :=
  let tail := name.reverse.takeWhile (· ≠ '.')
  if tail.length + 1 < name.length then some tail.reverse else none

def extension? (p : Path) : Option Text := (fileName? p).bind extensionOf?

/-- `q` as seen from the directory `p`. -/
def join (p q : Path) : Path :=
  if isAbsolute q || p.isEmpty then q
  else if p.getLast? = some '/' then p ++ q
  else p ++ '/' :: q

def isTrivial (piece : Text) : Bool := piece.isEmpty || piece == ['.']

/-- The path without its last component; what is left does not end with trivial pieces. -/
def parent? (p : Path) : Option Path :=
  match pieces p with
  | [] => none
  | first :: others =>
    match others.reverse.dropWhile isTrivial with
    | _ :: before =>
      let kept := (before.dropWhile isTrivial).reverse
      if first.isEmpty && kept.isEmpty then some ['/'] else some (Text.join ['/'] (first :: kept))
    | [] => if first.isEmpty then none else some []

end Path
end ClassScope
