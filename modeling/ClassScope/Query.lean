import ClassScope.Text.Basic

/-! Resource queries: parameters introduced by a question mark or an ampersand. -/
namespace ClassScope.Query
open Text

def endsValue (c : Char) : Bool := c == '&' || c == '#'

/-- A plus sign stands for a space; nothing else is encoded. -/
def decode (value : Text) : Text := value.map fun c => if c = '+' then ' ' else c

/-- The value of a parameter, given the text right after its name; `none` if the name goes on. -/
def value? : Text → Option Text
  | [] => some []
  | c :: rest =>
    if endsValue c then some []
    else if c = '=' then some (decode (rest.takeWhile (!endsValue ·)))
    else none

def valueAt? (name text : Text) : Option Text := (name.isPrefixOf? text).bind value?

def scan? (name : Text) : Text → Option Text
  | [] => none
  | c :: rest =>
    if c = '?' ∨ c = '&' then (valueAt? name rest).or (scan? name rest) else scan? name rest

/-- The value of the first parameter called `name`: empty if it has none. -/
def param? (name query : Text) : Option Text :=
  if name.isEmpty then none else scan? name query

end ClassScope.Query
