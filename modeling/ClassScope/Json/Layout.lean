import ClassScope.Text.Quoted

/-! JSON values laid out on lines, one member or element to a line, each level two blanks deeper
than the one around it. -/
namespace ClassScope.Json

def escapedChar (c : Char) : Text :=
  match c with
  | '"' => ['\\', '"']
  | '\\' => ['\\', '\\']
  | '\x08' => ['\\', 'b']
  | '\x0c' => ['\\', 'f']
  | '\n' => ['\\', 'n']
  | '\r' => ['\\', 'r']
  | '\t' => ['\\', 't']
  | c =>
    if c.toNat < 0x10 then "\\u000".toList ++ Text.hex c.toNat
    else if c.toNat < 0x20 then "\\u00".toList ++ Text.hex c.toNat
    else [c]

/-- The lines of a value; there is at least one. -/
abbrev Lines := List Text

def ofText (t : Text) : Lines := ['"' :: t.flatMap escapedChar ++ ['"']]

def ofNat (n : Nat) : Lines := [(toString n).toList]

def commas : List Lines → Lines
  | [] => []
  | [item] => item
  | item :: rest =>
    item.dropLast ++ (item.getLast?.map (· ++ [','])).toList ++ commas rest

/-- Items between brackets, which stand on lines of their own unless there is no item. -/
def enclosed (opening closing : Char) (items : List Lines) : Lines :=
  if items.isEmpty then [[opening, closing]]
  else [opening] :: (commas items).map ([' ', ' '] ++ ·) ++ [[closing]]

def array (items : List Lines) : Lines := enclosed '[' ']' items

def member (name : String) (value : Lines) : Lines :=
  match value with
  | [] => []
  | first :: rest => ('"' :: name.toList ++ "\": ".toList ++ first) :: rest

def object (members : List Lines) : Lines := enclosed '\x7b' '\x7d' members

def text (lines : Lines) : Text := Text.join ['\n'] lines

end ClassScope.Json
