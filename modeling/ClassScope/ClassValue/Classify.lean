import ClassScope.ClassValue.Basic
import ClassScope.Source

/-! From nodes to class values. Nothing is assumed of the places that nodes claim to have: a
literal is taken for one only if the source, at its place, looks like it. -/
namespace ClassScope.Source

def quoteOf? (raw : Text) : Option Char :=
  match raw with
  | q :: rest => if (q = '"' ∨ q = '\'') ∧ rest.getLast? = some q then some q else none
  | [] => none

def skip (s : Source) (kind : SkipKind) (span : Span) : ClassExpr :=
  .skipped ⟨kind, s.line span.lo⟩

def stringLiteral? (s : Source) (span : Span) (value : Text) : Option ClassLiteral := do
  let quote ← quoteOf? (← s.slice? span)
  let (start, stop) ← s.range? span
  return ⟨.string quote, start, stop, value, s.line span.lo⟩

def attributeLiteral? (s : Source) (span : Span) : Option ClassLiteral := do
  let raw ← s.slice? span
  let quote ← quoteOf? raw
  let (start, stop) ← s.range? span
  return ⟨.attr quote, start, stop, raw.tail.dropLast, s.line span.lo⟩

def rangeReading? (s : Source) (raw : Text) (range : Nat × Nat) : Option (Nat × Nat) :=
  if s.text.slice? range.1 range.2 = some raw then some range else none

/-- Where the text of a segment starts if its own span is not to be trusted: after the backtick
of the template, or after the brace that closes the interpolation in front. -/
def segmentStart? (s : Source) (template : Span) (previous : Option Span) : Option Nat :=
  match previous with
  | none => (s.range? template).map (·.1 + 1)
  | some e => do
    let (_, stop) ← s.range? e
    let rest ← s.text.dropBytes? stop
    let brace ← rest.find? '\x7d'
    return stop + brace + 1

def segmentRange? (s : Source) (template : Span) (previous : Option Span) (segment : Segment) :
    Option (Nat × Nat) :=
  ((s.range? segment.span).bind (s.rangeReading? segment.raw)).or
    ((s.segmentStart? template previous).bind fun start =>
      s.rangeReading? segment.raw (start, start + segment.raw.size))

/-- The segments of a template as literals: the first stands alone, each other one after an
interpolation. -/
def segments? (s : Source) (template : Span) :
    Option Span → List Span → List Segment → Option (List ClassLiteral)
  | _, _, [] => some []
  | previous, spans, segment :: rest => do
    let (start, stop) ← s.segmentRange? template previous segment
    let literal : ClassLiteral :=
      ⟨.segment, start, stop, segment.raw, s.line segment.span.lo⟩
    let more ← match rest, spans with
      | [], _ => some []
      | _ :: _, [] => none
      | _ :: _, span :: spans => segments? s template (some span) spans rest
    return literal :: more

def templateExpr (s : Source) (span : Span) (segments : List Segment) (spans : List Span)
    (interpolations : List ClassExpr) : ClassExpr :=
  if segments.any (·.raw.contains '\\') then s.skip .escapedTemplate span
  else match s.segments? span none spans segments with
    | none => s.skip .templateLiteral span
    | some literals =>
      if literals.length = interpolations.length + 1 then .template literals interpolations
      else s.skip .templateLiteral span

mutual

def classify (s : Source) (joinName : Text) : Node → ClassExpr
  | .parens _ inner => classify s joinName inner
  | .string span value =>
    match value with
    | none => s.skip .surrogateString span
    | some text =>
      match s.stringLiteral? span text with
      | some l => .literal l
      | none => s.skip .stringLiteral span
  | .conditional _ _ consequent alternate =>
    .conditional (classify s joinName consequent) (classify s joinName alternate)
  | .template span segments interpolations =>
    s.templateExpr span segments (interpolations.map Node.span)
      (classifyAll s joinName interpolations)
  | .call span callee arguments =>
    match callee with
    | .identifier _ name =>
      if name = joinName then .join joinName (classifyAll s joinName arguments)
      else s.skip (.shape .call) span
    | _ => s.skip (.shape .call) span
  | .spread dots _ => s.skip .spreadArgument dots
  | .identifier span _ => s.skip (.shape .identifier) span
  | .other shape span _ => s.skip (.shape shape) span
  | .attr _ value => s.skip (.shape .expression) value.span
  | .quoted span | .slot span _ => s.skip (.shape .expression) span

def classifyAll (s : Source) (joinName : Text) : List Node → List ClassExpr
  | [] => []
  | n :: ns => classify s joinName n :: classifyAll s joinName ns

end

def classifyValue (s : Source) (joinName : Text) (value : Node) : ClassValue :=
  match value with
  | .slot _ inner => .slot (s.classify joinName inner)
  | other =>
    match s.attributeLiteral? other.span with
    | some l => .literal l
    | none => .slot (s.skip .elementValue other.span)

end ClassScope.Source
