import ClassScope.Markup.Lexeme.Cursor
import ClassScope.Markup.Lexeme.Escape

/-! Literals as they are written: strings, template segments, regular expressions and numbers. -/
namespace ClassScope.Markup

/-- The raw text of a string after its opening quote, and the place after the closing one. A line
does not end inside a string unless a backslash stands before its end. -/
def stringRaw? (quote : Char) (n : Nat) : Text → Option (Text × Cursor)
  | [] => none
  | '\\' :: '\r' :: '\n' :: t =>
    (stringRaw? quote (n + 3) t).map fun (s, k) => ('\\' :: '\r' :: '\n' :: s, k)
  | '\\' :: c :: t =>
    (stringRaw? quote (n + 1 + c.utf8Size) t).map fun (s, k) => ('\\' :: c :: s, k)
  | c :: t =>
    if c = quote then some ([], ⟨n + 1, t⟩)
    else if c = '\n' || c = '\r' then none
    else (stringRaw? quote (n + c.utf8Size) t).map fun (s, k) => (c :: s, k)

inductive SegmentEnd where
  | interpolation
  | backtick
  deriving DecidableEq, Repr

/-- The raw text of a segment, how it ends, and the place after that. -/
def segmentRaw? (n : Nat) : Text → Option (Text × SegmentEnd × Cursor)
  | [] => none
  | '\\' :: c :: t =>
    (segmentRaw? (n + 1 + c.utf8Size) t).map fun (s, e, k) => ('\\' :: c :: s, e, k)
  | '$' :: '\x7b' :: t => some ([], .interpolation, ⟨n + 2, t⟩)
  | c :: t =>
    if c = '\x60' then some ([], .backtick, ⟨n + 1, t⟩)
    else (segmentRaw? (n + c.utf8Size) t).map fun (s, e, k) => (c :: s, e, k)

/-- The place after the closing slash of a regular expression; a slash inside brackets does not
close it. -/
def regexBody? (bracket : Bool) (n : Nat) : Text → Option Cursor
  | [] => none
  | '\\' :: c :: t => if isLineEnd c then none else regexBody? bracket (n + 1 + c.utf8Size) t
  | c :: t =>
    if isLineEnd c then none
    else if c = '/' && !bracket then some ⟨n + 1, t⟩
    else regexBody? (if c = '[' then true else if c = ']' then false else bracket)
      (n + c.utf8Size) t

/-- The place after the flags of a regular expression that starts right after byte `n`. Each flag
is one of eight letters and stands once. -/
def regexEnd? (n : Nat) (t : Text) : Option Cursor :=
  match regexBody? false n t with
  | none => none
  | some k =>
    let (flags, next) := Cursor.takeWhile Text.isIdContinue k.offset k.rest
    if flags.all ("dgimsuvy".toList.contains ·) && flags.eraseDups.length == flags.length then
      some next
    else none

/-- Digits with single low lines between them; `fresh` says that a digit has to come next.
Nothing at all is read as no digits. -/
def digits? (p : Char → Bool) (fresh : Bool) (n : Nat) : Text → Option (Nat × Cursor)
  | [] => if fresh then none else some (0, ⟨n, []⟩)
  | c :: t =>
    if p c then (digits? p false (n + 1) t).map fun (k, next) => (k + 1, next)
    else if c = '_' then if fresh then none else digits? p true (n + 1) t
    else if fresh then none else some (0, ⟨n, c :: t⟩)

def isHexDigit (c : Char) : Bool := (Json.hexDigit? c).isSome

def numberEnd? (k : Cursor) : Option Cursor :=
  match k.rest with
  | c :: _ => if Text.isIdContinue c || c = '\\' then none else some k
  | [] => some k

def integerEnd? (k : Cursor) : Option Cursor :=
  match k.rest with
  | 'n' :: t => numberEnd? ⟨k.offset + 1, t⟩
  | _ => numberEnd? k

def radixEnd? (p : Char → Bool) (n : Nat) (t : Text) : Option Cursor :=
  (digits? p true n t).bind fun (_, k) => integerEnd? k

def exponentEnd? (k : Cursor) : Option Cursor :=
  match k.rest with
  | c :: t =>
    if c = 'e' || c = 'E' then
      let (n, t) := match t with
        | '+' :: u | '-' :: u => (k.offset + 2, u)
        | u => (k.offset + 1, u)
      (digits? Char.isDigit true n t).bind fun (_, k) => numberEnd? k
    else numberEnd? k
  | [] => some k

def fractionEnd? (n : Nat) (t : Text) : Option Cursor :=
  match t with
  | '_' :: _ => none
  | _ => (digits? Char.isDigit false n t).bind fun (_, k) => exponentEnd? k

/-- The place after a number that starts at byte `n`. A decimal integer has no zero in front. -/
def numberEndAt? (n : Nat) : Text → Option Cursor
  | '0' :: c :: t =>
    match c with
    | 'x' | 'X' => radixEnd? isHexDigit (n + 2) t
    | 'o' | 'O' => radixEnd? Escape.isOctal (n + 2) t
    | 'b' | 'B' => radixEnd? (fun d => d = '0' || d = '1') (n + 2) t
    | '.' => fractionEnd? (n + 2) t
    | 'e' | 'E' => exponentEnd? ⟨n + 1, c :: t⟩
    | c => if c.isDigit || c = '_' then none else integerEnd? ⟨n + 1, c :: t⟩
  | '.' :: t => (digits? Char.isDigit true (n + 1) t).bind fun (_, k) => exponentEnd? k
  | t =>
    match digits? Char.isDigit true n t with
    | none => none
    | some (_, k) =>
      match k.rest with
      | '.' :: u => fractionEnd? (k.offset + 1) u
      | 'e' :: _ | 'E' :: _ => exponentEnd? k
      | _ => integerEnd? k

end ClassScope.Markup
