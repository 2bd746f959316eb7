import ClassScope.Pattern.Basic

/-! Globs: patterns of whole file paths. A glob looks at the bytes of a path, one at a time, so
that a question mark and a set in brackets take a single byte, and a star takes any number of
them, slashes included. Two stars that fill the space between slashes take any number of
components. -/
namespace ClassScope

structure Glob where
  /-- A pattern of bytes, each written as the character of its value. -/
  pattern : Pattern

namespace Glob

def byteChars (t : Text) : Text :=
  t.flatMap fun c => (String.utf8EncodeChar c).map fun b => Char.ofNat b.toNat

inductive Token where
  | literal (c : Char)
  | any
  | many
  | leading
  | trailing
  | between
  | set (negated : Bool) (ranges : List (Char × Char))
  | group (alternatives : Option Pattern)

def anyByte : Pattern := .chars (.compl .none)

def manyBytes : Pattern := .times 0 none anyByte

def slash : Pattern := .chars (.one '/')

/-- The ranges of bytes that a range of characters stands for: of characters with more than one
byte, the last byte of the first and the first byte of the last bound a range. -/
def byteRanges (r : Char × Char) : List (Char × Char) :=
  let single (c : Char) : Char × Char := (c, c)
  let first := byteChars [r.1]
  let last := byteChars [r.2]
  if r.1 = r.2 then first.map single
  else
    first.dropLast.map single ++ (first.getLast?.toList.zip last.head?.toList) ++
      last.tail.map single

def Token.pattern? : Token → Option Pattern
  | literal c => some ((byteChars [c]).foldr (fun b p => .seq (.chars (.one b)) p) .empty)
  | any => some anyByte
  | many => some manyBytes
  | leading => some (.alt (.times 0 (some 1) slash) (.seq manyBytes slash))
  | trailing => some (.seq slash manyBytes)
  | between => some (.alt slash (.seq slash (.seq manyBytes slash)))
  | set negated ranges =>
    let set := Pattern.CharSet.ofRanges (ranges.flatMap byteRanges)
    some (.chars (if negated then .compl set else set))
  | group alternatives => alternatives

def sequence? (tokens : List Token) : Option Pattern :=
  tokens.foldl (fun rest token =>
    match token.pattern?, rest with
    | some p, some q => some (.seq p q)
    | some p, none => some p
    | none, rest => rest) none

def alternatives? (branches : List (Option Pattern)) : Option Pattern :=
  branches.foldr (fun branch rest =>
    match branch, rest with
    | some p, some q => some (.alt p q)
    | some p, none => some p
    | none, rest => rest) none

structure OpenGroup where
  before : List Token
  branches : List (Option Pattern)

/-- What is read of a glob: the parts of the branch in hand, the last first, and the groups
around it. -/
structure Progress where
  tokens : List Token
  groups : List OpenGroup

namespace Progress

def push (s : Progress) (token : Token) : Progress := { s with tokens := token :: s.tokens }

/-- Two stars that fill no component are two stars. -/
def pushStars (s : Progress) : Progress := (s.push .many).push .many

/-- Two stars in the place of the part before them, which is the slash. -/
def spread (s : Progress) (last : Bool) : Progress :=
  let token := if last then Token.trailing else .between
  match s.tokens with
  | .leading :: _ | .trailing :: _ => s
  | _ :: before => { s with tokens := token :: before }
  | [] => s.push token

def openGroup (s : Progress) : Progress := ⟨[], ⟨s.tokens, []⟩ :: s.groups⟩

/-- Starts the next branch of the innermost group; outside groups a comma is a comma. -/
def comma (s : Progress) : Progress :=
  match s.groups with
  | g :: groups => ⟨[], { g with branches := g.branches ++ [sequence? s.tokens] } :: groups⟩
  | [] => s.push (.literal ',')

def closeGroup? (s : Progress) : Option Progress :=
  match s.groups with
  | g :: groups =>
    let alternatives := alternatives? (g.branches ++ [sequence? s.tokens])
    some ⟨.group alternatives :: g.before, groups⟩
  | [] => none

end Progress

def extend? (c : Char) : List (Char × Char) → Option (List (Char × Char))
  | (a, _) :: rest => if c < a then none else some ((a, c) :: rest)
  | [] => none

/-- The rest of a set up to its closing bracket, and what follows. A bracket or a minus sign that
comes first stands for itself, and so does a minus sign that comes last. -/
def setRest? : Bool → Bool → List (Char × Char) → Text → Option (List (Char × Char) × Text)
  | _, _, _, [] => none
  | true, _, rs, c :: t => setRest? false false ((c, c) :: rs) t
  | false, true, rs, ']' :: t => some (('-', '-') :: rs, t)
  | false, true, rs, c :: t => (extend? c rs).bind fun rs => setRest? false false rs t
  | false, false, rs, ']' :: t => some (rs, t)
  | false, false, rs, '-' :: t => setRest? false true rs t
  | false, false, rs, c :: t => setRest? false false ((c, c) :: rs) t

def set? (t : Text) : Option (Token × Text) :=
  match t with
  | '!' :: t | '^' :: t => (setRest? true false [] t).map fun (rs, rest) => (.set true rs, rest)
  | t => (setRest? true false [] t).map fun (rs, rest) => (.set false rs, rest)

def opensComponent (s : Progress) (previous : Option Char) : Bool :=
  previous == some '/' || (!s.groups.isEmpty && (previous == some ',' || previous == some '\x7b'))

/-- Reads a glob from here on. Each step takes a character at least. -/
def read : Nat → Progress → Option Char → Text → Option Progress
  | 0, _, _, _ => none
  | _, s, _, [] => some s
  | n + 1, s, previous, '*' :: '*' :: t =>
    if s.tokens.isEmpty then
      match t with
      | [] => read n (s.push .leading) (some '*') []
      | '/' :: t => read n (s.push .leading) (some '/') t
      | t => read n s.pushStars (some '*') t
    else if opensComponent s previous then
      match t with
      | [] => read n (s.spread true) (some '*') []
      | '/' :: t => read n (s.spread false) (some '/') t
      | c :: t =>
        let next := if (c = ',' ∨ c = '\x7d') ∧ !s.groups.isEmpty then s.spread true else s.pushStars
        read n next (some '*') (c :: t)
    else read n s.pushStars (some '*') t
  | n + 1, s, _, '\\' :: c :: t => read n (s.push (.literal c)) (some c) t
  | n + 1, s, _, '[' :: t => (set? t).bind fun (token, t) => read n (s.push token) (some ']') t
  | n + 1, s, _, c :: t =>
    match c with
    | '*' => read n (s.push .many) (some c) t
    | '?' => read n (s.push .any) (some c) t
    | '\x7b' => read n s.openGroup (some c) t
    | '\x7d' => s.closeGroup?.bind fun s => read n s (some c) t
    | ',' => read n s.comma (some c) t
    | '\\' => none
    | c => read n (s.push (.literal c)) (some c) t

/-- Reads a glob; `none` if a set or a group is not closed, a group is not opened, a range is
reversed or a backslash comes last. -/
def ofText? (t : Text) : Option Glob :=
  match read (t.length + 1) ⟨[], []⟩ none t with
  | some ⟨[.leading], []⟩ => some ⟨manyBytes⟩
  | some ⟨tokens, []⟩ => some ⟨(sequence? tokens).getD .empty⟩
  | _ => none

def accepts (g : Glob) (path : Text) : Bool := g.pattern.takesAll (byteChars path)

end Glob
end ClassScope
