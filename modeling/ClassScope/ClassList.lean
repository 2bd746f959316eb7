import ClassScope.Text.Blank

/-! Class lists: names between blanks. Qualifying a list puts the scope and a hyphen in front of
each name and leaves one space between two names. -/
namespace ClassScope.ClassList
open Text

def qualifyName (scope name : Text) : Text := scope ++ '-' :: name

/-- Every name of the list in its qualified form, with single spaces between. -/
def qualify (scope classes : Text) : Text :=
  Text.join [' '] ((words classes).map (qualifyName scope))

@[simp] theorem qualify_nil (scope : Text) : qualify scope [] = [] := rfl

def startsBlank : Text → Bool
  | [] => false
  | c :: _ => isBlank c

def endsBlank (t : Text) : Bool := startsBlank t.reverse

structure Place where
  after : Bool
  before : Bool
  deriving DecidableEq, Repr

/-- The qualified form of a segment. Blanks that part it from a neighbouring interpolation stay, as
one space, so that the interpolated names remain names of their own. -/
def qualifySegment (scope : Text) (place : Place) (segment : Text) : Text :=
  let names := qualify scope segment
  if names.isEmpty then
    if (place.after || place.before) && !segment.isEmpty then [' '] else []
  else
    (if place.after && startsBlank segment then [' '] else []) ++ names ++
      (if place.before && endsBlank segment then [' '] else [])

end ClassScope.ClassList
