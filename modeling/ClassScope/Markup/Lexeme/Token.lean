import ClassScope.Markup.Lexeme.Literal

/-! Tokens. A slash, an angle bracket and a backtick are read as single marks: whether a regular
expression, a longer operator, an element or a template starts there is for the grammar to say,
which then reads on from the mark. -/
namespace ClassScope.Markup

inductive Token where
  | finish
  /-- A name or keyword with its escapes decoded. -/
  | word (text : String) (escaped : Bool)
  | hidden (text : String)
  | mark (text : String)
  | number
  | string (value : Option Text)
  | invalid
  deriving DecidableEq, Repr

structure Lexeme where
  token : Token
  start : Nat
  next : Cursor
  /-- Did a line end between the token before and this one? -/
  broke : Bool
  deriving Repr

/-- Marks of more than one character, longer ones before their beginnings. -/
def longMarks : List String :=
  ["...", "??=", "===", "!==", "**=", "&&=", "||=",
   "?.", "??", "==", "=>", "!=", "++", "+=", "--", "-=", "**", "*=", "%=", "&&", "&=",
   "||", "|=", "^=", "/="]

def soleMarks : List Char := "\x7b\x7d()[];,<>:~@`".toList

def shortMarks : List Char := ".?=!+-*%&|^/".toList

/-- Is the mark there? A question mark and a dot in front of a digit are two marks. -/
def markAt (mark : String) (t : Text) : Bool :=
  mark.toList.isPrefixOf t && !(mark == "?." && (t.drop 2).head?.any Char.isDigit)

def codeEscape? (n : Nat) : Text → Option (Nat × Cursor)
  | '\x7b' :: t =>
    let (ds, k) := Cursor.takeWhile isHexDigit (n + 1) t
    match k.rest with
    | '\x7d' :: u =>
      if ds.isEmpty then none
      else (Json.hexNumber? ds).map fun code => (code, ⟨k.offset + 1, u⟩)
    | _ => none
  | a :: b :: c :: d :: t => (Json.hexNumber? [a, b, c, d]).map fun code => (code, ⟨n + 4, t⟩)
  | _ => none

/-- The rest of a name, with whether it holds an escape. `fuel` bounds the number of escapes. -/
def nameRest? (ok : Char → Bool) : Nat → Bool → Cursor → Option (Text × Bool × Cursor)
  | 0, _, _ => none
  | fuel + 1, first, k =>
    let plain (c : Char) : Bool := if first then false else Text.isIdContinue c
    let (taken, k) := Cursor.takeWhile plain k.offset k.rest
    match k.rest with
    | '\\' :: 'u' :: t =>
      match codeEscape? (k.offset + 2) t with
      | none => none
      | some (code, k) =>
        if !ok (Char.ofNat code) || code > 0x10FFFF then none
        else (nameRest? Text.isIdContinue fuel false k).map fun (s, _, k) =>
          (taken ++ Char.ofNat code :: s, true, k)
    | '\\' :: _ => none
    | _ => some (taken, false, k)

def name? (n : Nat) : Text → Option (Text × Bool × Cursor)
  | '\\' :: t => nameRest? Text.isIdStart (t.length + 1) true ⟨n, '\\' :: t⟩
  | c :: t =>
    if Text.isIdStart c then
      let (taken, k) := Cursor.takeWhile Text.isIdContinue (n + c.utf8Size) t
      match k.rest with
      | '\\' :: _ =>
        (nameRest? Text.isIdContinue (k.rest.length + 1) false k).map fun (s, e, k) =>
          (c :: taken ++ s, e, k)
      | _ => some (c :: taken, false, k)
    else none
  | [] => none

def tokenAt (n : Nat) : Text → Token × Cursor
  | [] => (.finish, ⟨n, []⟩)
  | c :: t =>
    let bad : Token × Cursor := (.invalid, ⟨n, c :: t⟩)
    if c = '"' || c = '\'' then
      match stringRaw? c (n + 1) t with
      | none => bad
      | some (raw, k) =>
        match Escape.decode? none raw with
        | none => bad
        | some codes => (.string (Escape.text? codes), k)
    else if c.isDigit || (c = '.' && t.head?.any Char.isDigit) then
      match numberEndAt? n (c :: t) with
      | none => bad
      | some k => (.number, k)
    else if c = '#' then
      match name? (n + 1) t with
      | none => bad
      | some (s, _, k) => (.hidden (String.ofList s), k)
    else if Text.isIdStart c || c = '\\' then
      match name? n (c :: t) with
      | none => bad
      | some (s, e, k) => (.word (String.ofList s) e, k)
    else if soleMarks.contains c then
      if Text.startsWith "<!--".toList (c :: t) then bad
      else (.mark (String.singleton c), ⟨n + 1, t⟩)
    else match longMarks.find? (markAt · (c :: t)) with
      | some m => (.mark m, ⟨n + m.length, (c :: t).drop m.length⟩)
      | none =>
        if shortMarks.contains c then (.mark (String.singleton c), ⟨n + 1, t⟩) else bad

def lex (k : Cursor) : Lexeme :=
  match skipGap .plain false k.offset k.rest with
  | none => ⟨.invalid, k.offset, k, false⟩
  | some (broke, k) =>
    let (token, next) := tokenAt k.offset k.rest
    ⟨token, k.offset, next, broke⟩

end ClassScope.Markup
