import ClassScope.Json.Scalar

/-! Escapes in string literals and templates, and the values they stand for. A value is a list of
code points in which surrogates may stand alone; it is a text if every surrogate is half of a
pair. -/
namespace ClassScope.Markup.Escape

def single (c : Char) : Nat :=
  match c with
  | 'b' => 8
  | 't' => 9
  | 'n' => 10
  | 'v' => 11
  | 'f' => 12
  | 'r' => 13
  | c => c.toNat

def isOctal (c : Char) : Bool := '0' ≤ c && c ≤ '7'

/-- The value of a literal's text. Inside `\u{`, `code` holds the number read so far and `digits`
says whether there was a digit. An escape that is cut short, a number above the last code point
and an octal escape make the whole text unreadable. -/
def decode? (code : Option (Nat × Bool)) : Text → Option (List Nat)
  | [] => if code.isSome then none else some []
  | c :: t =>
    match code with
    | some (n, digits) =>
      if c = '\x7d' then
        if digits then (decode? none t).map (n :: ·) else none
      else match Json.hexDigit? c with
        | some d => if 16 * n + d ≤ 0x10FFFF then decode? (some (16 * n + d, true)) t else none
        | none => none
    | none =>
      if c = '\\' then
        match t with
        | [] => none
        | '\r' :: '\n' :: u => decode? none u
        | '\n' :: u | '\r' :: u | '\u2028' :: u | '\u2029' :: u => decode? none u
        | 'x' :: a :: b :: u =>
          (Json.hexNumber? [a, b]).bind fun n => (decode? none u).map (n :: ·)
        | 'u' :: '\x7b' :: u => decode? (some (0, false)) u
        | 'u' :: a :: b :: c :: d :: u =>
          (Json.hexNumber? [a, b, c, d]).bind fun n => (decode? none u).map (n :: ·)
        | 'x' :: _ | 'u' :: _ => none
        | e :: u =>
          if isOctal e && !(e = '0' && !(u.head?.any isOctal)) then none
          else (decode? none u).map ((if e = '0' then 0 else single e) :: ·)
      else (decode? none t).map (c.toNat :: ·)

def text? : List Nat → Option Text
  | [] => some []
  | n :: t =>
    if Json.isHighSurrogate n then
      match t with
      | m :: u =>
        if Json.isLowSurrogate m then (text? u).map (Char.ofNat (Json.pairValue n m) :: ·) else none
      | [] => none
    else if Json.isLowSurrogate n then none
    else (text? t).map (Char.ofNat n :: ·)

end ClassScope.Markup.Escape
