import ClassScope.Text.Basic

/-! The scalars of a JSON text that an options document may hold, as a reader finds them at the
front of a text: strings and truth values. Each function gives the value and what follows it. -/
namespace ClassScope.Json

/-- The blanks of JSON are fewer than those of a class list. -/
def isBlank (c : Char) : Bool := c == ' ' || c == '\t' || c == '\n' || c == '\r'

def skipBlanks (t : Text) : Text := t.dropWhile isBlank

def hexDigit? (c : Char) : Option Nat :=
  if '0' ≤ c ∧ c ≤ '9' then some (c.toNat - 48)
  else if 'a' ≤ c ∧ c ≤ 'f' then some (c.toNat - 87)
  else if 'A' ≤ c ∧ c ≤ 'F' then some (c.toNat - 55)
  else none

def hexNumber? (digits : Text) : Option Nat :=
  digits.foldlM (fun n c => (hexDigit? c).map (16 * n + ·)) 0

def isHighSurrogate (n : Nat) : Bool := 0xD800 ≤ n && n < 0xDC00

def isLowSurrogate (n : Nat) : Bool := 0xDC00 ≤ n && n < 0xE000

def pairValue (high low : Nat) : Nat := 0x10000 + (high - 0xD800) * 0x400 + (low - 0xDC00)

def escaped? : Char → Option Char
  | '"' => some '"'
  | '\\' => some '\\'
  | '/' => some '/'
  | 'b' => some '\x08'
  | 'f' => some '\x0c'
  | 'n' => some '\n'
  | 'r' => some '\r'
  | 't' => some '\t'
  | _ => none

/-- The rest of a string after its opening quote. A surrogate must be half of a pair, and no
control character stands for itself. -/
def stringRest? : Text → Option (Text × Text)
  | [] => none
  | '"' :: rest => some ([], rest)
  | '\\' :: 'u' :: a :: b :: c :: d :: rest =>
    match hexNumber? [a, b, c, d] with
    | none => none
    | some n =>
      if isLowSurrogate n then none
      else if isHighSurrogate n then
        match rest with
        | '\\' :: 'u' :: e :: f :: g :: h :: rest' =>
          match hexNumber? [e, f, g, h] with
          | none => none
          | some m =>
            if isLowSurrogate m then
              (stringRest? rest').map fun (s, r) => (Char.ofNat (pairValue n m) :: s, r)
            else none
        | _ => none
      else (stringRest? rest).map fun (s, r) => (Char.ofNat n :: s, r)
  | '\\' :: c :: rest =>
    match escaped? c with
    | none => none
    | some e => (stringRest? rest).map fun (s, r) => (e :: s, r)
  | c :: rest =>
    if c.toNat < 0x20 || c == '\\' then none
    else (stringRest? rest).map fun (s, r) => (c :: s, r)

def string? : Text → Option (Text × Text)
  | '"' :: rest => stringRest? rest
  | _ => none

def bool? (t : Text) : Option (Bool × Text) :=
  match "true".toList.isPrefixOf? t with
  | some rest => some (true, rest)
  | none => ("false".toList.isPrefixOf? t).map (false, ·)

end ClassScope.Json
