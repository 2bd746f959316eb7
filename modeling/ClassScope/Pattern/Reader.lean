import ClassScope.Json.Scalar
import ClassScope.Pattern.Basic

/-! Patterns as they are written. There is no looking around and no reference back to a group; a
letter after a backslash has to mean something; a brace that opens no count is refused. -/
namespace ClassScope.Pattern

structure Flags where
  ignoreCase : Bool := false
  multiLine : Bool := false
  dotAll : Bool := false
  extended : Bool := false
  unicode : Bool := true

structure Progress where
  rest : Text
  flags : Flags
  names : List Text

/-- Reads a part of a pattern; `none` if it is not well formed. -/
abbrev PatternReader := StateT Progress Option

namespace PatternReader

def peek : PatternReader (Option Char) := return (← get).rest.head?

def advance : PatternReader Unit := modify fun s => { s with rest := s.rest.tail }

def next : PatternReader Char := do
  match (← get).rest with
  | c :: rest =>
    modify fun s => { s with rest }
    return c
  | [] => failure

def eat (c : Char) : PatternReader Bool := do
  if (← peek) == some c then
    advance
    return true
  else return false

def expect (c : Char) : PatternReader Unit := do
  unless ← eat c do failure

def eatText (t : Text) : PatternReader Bool := do
  match t.isPrefixOf? (← get).rest with
  | some rest =>
    modify fun s => { s with rest }
    return true
  | none => return false

def upTo (stop : Char → Bool) : PatternReader Text := do
  let t := (← get).rest
  modify fun s => { s with rest := t.dropWhile (!stop ·) }
  return t.takeWhile (!stop ·)

def skipComments : Nat → Text → Text
  | 0, t => t
  | n + 1, t =>
    match t.dropWhile Text.isBlank with
    | '#' :: rest => skipComments n (rest.dropWhile (· ≠ '\n'))
    | rest => rest

def skipBlanks : PatternReader Unit := modify fun s =>
  if s.flags.extended then { s with rest := skipComments s.rest.length s.rest } else s

end PatternReader

open PatternReader

def isEscapable (c : Char) : Bool :=
  c.toNat < 0x80 && !c.isAlphanum && c != '<' && c != '>'

def charOf? (n : Nat) : Option Char := if n.isValidChar then some (Char.ofNat n) else none

/-- `{1F600}`, or as many digits as `width` says. -/
def hexChar (width : Nat) : PatternReader Char := do
  if ← eat '\x7b' then
    let digits ← upTo (· == '\x7d')
    expect '\x7d'
    if digits.isEmpty then failure
    let n ← Json.hexNumber? digits
    charOf? n
  else
    let t := (← get).rest
    if t.length < width then failure
    modify fun s => { s with rest := t.drop width }
    let n ← Json.hexNumber? (t.take width)
    charOf? n

def normalName (t : Text) : String :=
  let t := (t.filter fun c => !(Text.isBlank c || c == '_' || c == '-')).map Char.toLower
  match t with
  | 'i' :: 's' :: rest => if rest.isEmpty then String.ofList t else String.ofList rest
  | _ => String.ofList t

def categoryNamed? : String → Option (List Category)
  | "l" | "letter" => some [.uppercaseLetter, .lowercaseLetter, .titlecaseLetter, .modifierLetter,
      .otherLetter]
  | "lc" | "casedletter" => some [.uppercaseLetter, .lowercaseLetter, .titlecaseLetter]
  | "lu" | "uppercaseletter" => some [.uppercaseLetter]
  | "ll" | "lowercaseletter" => some [.lowercaseLetter]
  | "lt" | "titlecaseletter" => some [.titlecaseLetter]
  | "lm" | "modifierletter" => some [.modifierLetter]
  | "lo" | "otherletter" => some [.otherLetter]
  | "m" | "mark" | "combiningmark" => some [.nonspacingMark, .spacingMark, .enclosingMark]
  | "mn" | "nonspacingmark" => some [.nonspacingMark]
  | "mc" | "spacingmark" => some [.spacingMark]
  | "me" | "enclosingmark" => some [.enclosingMark]
  | "n" | "number" => some [.decimalNumber, .letterNumber, .otherNumber]
  | "nd" | "decimalnumber" | "digit" => some [.decimalNumber]
  | "nl" | "letternumber" => some [.letterNumber]
  | "no" | "othernumber" => some [.otherNumber]
  | "p" | "punctuation" | "punct" => some [.connectorPunctuation, .dashPunctuation,
      .openPunctuation, .closePunctuation, .initialPunctuation, .finalPunctuation,
      .otherPunctuation]
  | "pc" | "connectorpunctuation" => some [.connectorPunctuation]
  | "pd" | "dashpunctuation" => some [.dashPunctuation]
  | "ps" | "openpunctuation" => some [.openPunctuation]
  | "pe" | "closepunctuation" => some [.closePunctuation]
  | "pi" | "initialpunctuation" => some [.initialPunctuation]
  | "pf" | "finalpunctuation" => some [.finalPunctuation]
  | "po" | "otherpunctuation" => some [.otherPunctuation]
  | "s" | "symbol" => some [.mathSymbol, .currencySymbol, .modifierSymbol, .otherSymbol]
  | "sm" | "mathsymbol" => some [.mathSymbol]
  | "sc" | "currencysymbol" => some [.currencySymbol]
  | "sk" | "modifiersymbol" => some [.modifierSymbol]
  | "so" | "othersymbol" => some [.otherSymbol]
  | "z" | "separator" => some [.spaceSeparator, .lineSeparator, .paragraphSeparator]
  | "zs" | "spaceseparator" => some [.spaceSeparator]
  | "zl" | "lineseparator" => some [.lineSeparator]
  | "zp" | "paragraphseparator" => some [.paragraphSeparator]
  | "c" | "other" => some [.control, .format, .privateUse, .unassigned]
  | "cc" | "control" | "cntrl" => some [.control]
  | "cf" | "format" => some [.format]
  | "co" | "privateuse" => some [.privateUse]
  | "cn" | "unassigned" => some [.unassigned]
  | _ => none

def property? (name : String) : Option CharSet :=
  match name with
  | "any" => some (.compl .none)
  | "ascii" => some (.range '\x00' '\x7F')
  | "assigned" => some (.compl (.categories [.unassigned]))
  | "alphabetic" | "alpha" => some .alphabetic
  | "uppercase" | "upper" => some .uppercase
  | "lowercase" | "lower" => some .lowercase
  | "whitespace" | "wspace" | "space" => some .blank
  | name => (categoryNamed? name).map .categories

def property (negated : Bool) : PatternReader CharSet := do
  let flags := (← get).flags
  if !flags.unicode then failure
  let (negated, set) ← if ← eat '\x7b' then do
      let t ← upTo (· == '\x7d')
      expect '\x7d'
      let (negated, t) := match t with
        | '^' :: rest => (!negated, rest)
        | _ => (negated, t)
      let key := t.takeWhile fun c => c != '=' && c != ':' && c != '!'
      let value := t.drop key.length
      match value with
      | [] => do pure (negated, ← property? (normalName t))
      | '!' :: '=' :: v => do
        if normalName key != "gc" && normalName key != "generalcategory" then failure
        pure (!negated, ← property? (normalName v))
      | '!' :: _ => failure
      | _ :: v => do
        if normalName key != "gc" && normalName key != "generalcategory" then failure
        pure (negated, ← property? (normalName v))
    else do
      let c ← next
      pure (negated, ← property? (normalName [c]))
  let set := if flags.ignoreCase then CharSet.folded set else set
  return if negated then .compl set else set

def perlSet? (flags : Flags) (c : Char) : Option CharSet :=
  let ascii (s : CharSet) : CharSet := .inter s (.range '\x00' '\x7F')
  let of (s : CharSet) : CharSet := if flags.unicode then s else ascii s
  match c with
  | 'd' => some (of .digit)
  | 's' => some (of .blank)
  | 'w' => some (of .word)
  | 'D' => if flags.unicode then some (.compl .digit) else none
  | 'S' => if flags.unicode then some (.compl .blank) else none
  | 'W' => if flags.unicode then some (.compl .word) else none
  | _ => none

inductive Escaped where
  | char (c : Char)
  | set (s : CharSet)
  | border (b : Border)

/-- `{start}` and the like after `\b`; any other brace is left alone. -/
def wordBorder : PatternReader Border := do
  if ← eatText "\x7bstart\x7d".toList then return .wordStart
  if ← eatText "\x7bend\x7d".toList then return .wordEnd
  if ← eatText "\x7bstart-half\x7d".toList then return .wordStartHalf
  if ← eatText "\x7bend-half\x7d".toList then return .wordEndHalf
  return .wordEdge

/-- An escape after its backslash. With properties switched off, two digits stand for a byte, which
has to be a character of its own. -/
def escape : PatternReader Escaped := do
  let flags := (← get).flags
  let c ← next
  match c with
  | 'a' => return .char '\x07'
  | 'f' => return .char '\x0C'
  | 't' => return .char '\t'
  | 'n' => return .char '\n'
  | 'r' => return .char '\r'
  | 'v' => return .char '\x0B'
  | 'A' => return .border .textStart
  | 'z' => return .border .textEnd
  | 'b' => return .border (← wordBorder)
  | 'B' => return .border .notWordEdge
  | '<' => return .border .wordStart
  | '>' => return .border .wordEnd
  | 'x' =>
    let braced := (← peek) == some '\x7b'
    let c ← hexChar 2
    if !flags.unicode && !braced && c.toNat > 0x7F then failure
    return .char c
  | 'u' => return .char (← hexChar 4)
  | 'U' => return .char (← hexChar 8)
  | 'p' => return .set (← property false)
  | 'P' => return .set (← property true)
  | c =>
    match perlSet? flags c with
    | some s => return .set s
    | none => if isEscapable c then return .char c else failure

def oneChar (flags : Flags) (c : Char) : CharSet :=
  if flags.ignoreCase then .folded (.one c) else .one c

def asciiSet? : String → Option CharSet
  | "alnum" => some (.ofRanges [('0', '9'), ('A', 'Z'), ('a', 'z')])
  | "alpha" => some (.ofRanges [('A', 'Z'), ('a', 'z')])
  | "ascii" => some (.range '\x00' '\x7F')
  | "blank" => some (.ofRanges [('\t', '\t'), (' ', ' ')])
  | "cntrl" => some (.ofRanges [('\x00', '\x1F'), ('\x7F', '\x7F')])
  | "digit" => some (.range '0' '9')
  | "graph" => some (.range '!' '~')
  | "lower" => some (.range 'a' 'z')
  | "print" => some (.range ' ' '~')
  | "punct" => some (.ofRanges [('!', '/'), (':', '@'), ('[', '\x60'), ('\x7b', '~')])
  | "space" => some (.ofRanges [('\t', '\r'), (' ', ' ')])
  | "upper" => some (.range 'A' 'Z')
  | "word" => some (.ofRanges [('0', '9'), ('A', 'Z'), ('_', '_'), ('a', 'z')])
  | "xdigit" => some (.ofRanges [('0', '9'), ('A', 'F'), ('a', 'f')])
  | _ => none

def namedSet? : PatternReader (Option CharSet) := do
  let s ← get
  if !(← eatText "[:".toList) then return none
  let negated ← eat '^'
  let name ← upTo (fun c => c == ':' || c == '[' || c == ']')
  let closed ← eatText ":]".toList
  match asciiSet? (String.ofList name), closed with
  | some set, true =>
    if negated && !s.flags.unicode then failure
    return some (if negated then .compl set else set)
  | _, _ =>
    set s
    return none

/-- A member of a set in brackets: a character, or a set that an escape stands for. With properties
switched off a set holds bytes. -/
def setItem : PatternReader (Char ⊕ CharSet) := do
  let item ← if ← eat '\\' then escape else do pure (.char (← next))
  match item with
  | .char c => if !(← get).flags.unicode && c.toNat > 0x7F then failure else return .inl c
  | .set s => return .inr s
  | .border _ => failure

def itemSet : Char ⊕ CharSet → CharSet
  | .inl c => .one c
  | .inr s => s

def setRange : PatternReader CharSet := do
  let first ← setItem
  skipBlanks
  if (← peek).isNone then failure
  if (← peek) != some '-' then return itemSet first
  let s ← get
  advance
  skipBlanks
  match ← peek with
  | none => failure
  | some ']' | some '-' =>
    set s
    return itemSet first
  | some _ =>
    match first, ← setItem with
    | .inl a, .inl b => if a ≤ b then return .range a b else failure
    | _, _ => failure

inductive SetOperator where
  | inter
  | diff
  | symmDiff

def SetOperator.make : SetOperator → CharSet → CharSet → CharSet
  | inter => .inter
  | diff => .diff
  | symmDiff => .symmDiff

/-- Sets that were read so far inside brackets: what stands before the last operator, and the union
of what stands after it. -/
structure SetDraft where
  left : Option (CharSet × SetOperator)
  right : CharSet

def SetDraft.close (flags : Flags) (d : SetDraft) : CharSet :=
  let fold (s : CharSet) : CharSet := if flags.ignoreCase then .folded s else s
  match d.left with
  | some (a, op) => op.make (fold a) (fold d.right)
  | none => d.right

def setOperator? : PatternReader (Option SetOperator) := do
  if ← eatText "&&".toList then return some .inter
  if ← eatText "--".toList then return some .diff
  if ← eatText "~~".toList then return some .symmDiff
  return none

/-- The rest of a set in brackets up to its closing bracket. -/
def setRest (nested : PatternReader CharSet) : Nat → SetDraft → PatternReader CharSet
  | 0, _ => failure
  | n + 1, d => do
    skipBlanks
    let flags := (← get).flags
    match ← peek with
    | none => failure
    | some ']' =>
      advance
      return d.close flags
    | some '[' =>
      let s ← match ← namedSet? with
        | some s => pure s
        | none => nested
      setRest nested n { d with right := .union d.right s }
    | some _ =>
      match ← setOperator? with
      | some op => setRest nested n ⟨some (d.close flags, op), .none⟩
      | none =>
        let s ← setRange
        setRest nested n { d with right := .union d.right s }

def leadingHyphens : Nat → Bool → PatternReader Bool
  | 0, found => return found
  | n + 1, found => do
    if ← eat '-' then
      skipBlanks
      leadingHyphens n true
    else return found

/-- A set in brackets, at the opening one. A closing bracket right at the start stands for
itself. -/
def bracketSet : Nat → PatternReader CharSet
  | 0 => failure
  | n + 1 => do
    expect '['
    skipBlanks
    let negated ← eat '^'
    skipBlanks
    let size := (← get).rest.length + 1
    let hyphen ← leadingHyphens size false
    let start : CharSet := if hyphen then .one '-' else .none
    let bracket ← if !hyphen && (← peek) == some ']' then do
        advance
        skipBlanks
        pure (CharSet.one ']')
      else pure .none
    let set ← setRest (bracketSet n) size ⟨none, .union start bracket⟩
    let flags := (← get).flags
    let set := if flags.ignoreCase then CharSet.folded set else set
    if negated && !flags.unicode then failure
    return if negated then .compl set else set

def decimal? : PatternReader (Option Nat) := do
  discard (upTo (!Text.isBlank ·))
  let digits ← upTo (!Char.isDigit ·)
  discard (upTo (!Text.isBlank ·))
  if digits.isEmpty then return none
  let n := digits.foldl (fun n c => 10 * n + (c.toNat - 48)) 0
  if n < 4294967296 then return some n else failure

def count : PatternReader (Nat × Option Nat) := do
  skipBlanks
  if (← peek).isNone then failure
  let least ← decimal?
  if (← peek).isNone then failure
  if ← eat ',' then
    skipBlanks
    let n ← least
    if (← peek) == some '\x7d' then
      advance
      return (n, none)
    let m ← decimal?
    let m ← m
    expect '\x7d'
    if n ≤ m then return (n, some m) else failure
  else
    let n ← least
    expect '\x7d'
    return (n, some n)

def withFlag? (flags : Flags) (on : Bool) : Char → Option Flags
  | 'i' => some { flags with ignoreCase := on }
  | 'm' => some { flags with multiLine := on }
  | 's' => some { flags with dotAll := on }
  | 'x' => some { flags with extended := on }
  | 'u' => some { flags with unicode := on }
  | 'U' | 'R' => some flags
  | _ => none

/-- Flag letters up to a colon or a closing bracket. No letter stands twice, and a minus sign
stands once, before some letter. -/
def flagLetters : Nat → List Char → Bool → Bool → Flags → PatternReader Flags
  | 0, _, _, _, _ => failure
  | n + 1, seen, on, dangling, flags => do
    skipBlanks
    match ← peek with
    | none => failure
    | some ':' | some ')' => if dangling then failure else return flags
    | some '-' =>
      if !on then failure
      advance
      flagLetters n seen false true flags
    | some c =>
      if seen.contains c then failure
      match withFlag? flags on c with
      | none => failure
      | some flags =>
        advance
        flagLetters n (c :: seen) on false flags

def groupName : PatternReader Unit := do
  let t ← upTo (· == '>')
  expect '>'
  let first (c : Char) : Bool := c == '_' || (CharSet.isAlphabetic c)
  let later (c : Char) : Bool :=
    first c || c == '.' || c == '[' || c == ']' ||
      (CharSet.categories [.decimalNumber, .letterNumber, .otherNumber]).contains c
  match t with
  | [] => failure
  | c :: rest => if !(first c && rest.all later) then failure
  if (← get).names.contains t then failure
  modify fun s => { s with names := t :: s.names }

inductive Part where
  | pattern (p : Pattern)
  | flags

/-- A group after its opening bracket. Flags that are set inside a group end with it. -/
def group (alternation : PatternReader Pattern) : PatternReader Part := do
  let flags := (← get).flags
  let inside (change : PatternReader Unit) : PatternReader Part := do
    change
    let p ← alternation
    expect ')'
    modify fun s => { s with flags }
    return .pattern p
  skipBlanks
  if (← eatText "?P<".toList) || (← eatText "?<".toList) then
    if (← peek) == some '=' || (← peek) == some '!' then failure
    inside groupName
  else if ← eat '?' then
    skipBlanks
    if (← peek) == some ')' then failure
    let size := (← get).rest.length + 1
    let changed ← flagLetters size [] true false flags
    if ← eat ')' then
      modify fun s => { s with flags := changed }
      return .flags
    expect ':'
    inside (modify fun s => { s with flags := changed })
  else inside (pure ())

def anyChar (flags : Flags) : Option Pattern :=
  if !flags.unicode then none
  else if flags.dotAll then some (.chars (.compl .none))
  else some (.chars (.compl (.one '\n')))

def single (depth : Nat) : PatternReader Pattern := do
  let flags := (← get).flags
  match ← peek with
  | some '[' => return .chars (← bracketSet depth)
  | some '\\' =>
    advance
    match ← escape with
    | .char c => return .chars (oneChar flags c)
    | .set s => return .chars s
    | .border b => return .border b
  | some '.' =>
    advance
    anyChar flags
  | some '^' =>
    advance
    return .border (if flags.multiLine then .lineStart else .textStart)
  | some '$' =>
    advance
    return .border (if flags.multiLine then .lineEnd else .textEnd)
  | some c =>
    advance
    return .chars (oneChar flags c)
  | none => failure

def repetition? : PatternReader (Option (Nat × Option Nat)) := do
  match ← peek with
  | some '*' =>
    advance
    return some (0, none)
  | some '+' =>
    advance
    return some (1, none)
  | some '?' =>
    advance
    return some (0, some 1)
  | some '\x7b' =>
    advance
    return some (← count)
  | _ => return none

/-- Parts up to a bar, a closing bracket or the end, the last first. A repetition needs a pattern
in front. -/
def parts (alternation : PatternReader Pattern) : Nat → List Part → PatternReader (List Part)
  | 0, _ => failure
  | n + 1, got => do
    skipBlanks
    match ← peek with
    | none | some '|' | some ')' => return got
    | some '(' =>
      advance
      let p ← group alternation
      parts alternation n (p :: got)
    | some _ =>
      match ← repetition? with
      | some (least, most) =>
        match got with
        | .pattern p :: rest =>
          skipBlanks
          discard (eat '?')
          parts alternation n (.pattern (.times least most p) :: rest)
        | _ => failure
      | none =>
        let size := (← get).rest.length + 1
        let p ← single size
        parts alternation n (.pattern p :: got)

def sequence (got : List Part) : Pattern :=
  got.foldl (fun p part =>
    match part with
    | .pattern q => .seq q p
    | .flags => p) .empty

def alternatives (branch : PatternReader Pattern) : Nat → PatternReader Pattern
  | 0 => failure
  | n + 1 => do
    let first ← branch
    if ← eat '|' then return .alt first (← alternatives branch n) else return first

def alternation : Nat → PatternReader Pattern
  | 0 => failure
  | depth + 1 => do
    let size := (← get).rest.length + 2
    alternatives (do return sequence (← parts (alternation depth) size [])) size

def maxDepth : Nat := 250

/-- Patterns that are longer than this with their counts written out are refused. -/
def maxExtent : Nat := 327680

def ofText? (t : Text) : Option Pattern :=
  match (alternation (maxDepth + 1)).run ⟨t, {}, []⟩ with
  | some (p, s) => if s.rest.isEmpty && p.extent ≤ maxExtent then some p else none
  | none => none

end ClassScope.Pattern
