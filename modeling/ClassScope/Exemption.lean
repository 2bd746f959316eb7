import ClassScope.Event
import ClassScope.Pattern.Reader

/-! Class names that are exempt from processing: those that a rule matches, those that cannot be
names of this code, and those that qualifying has produced. -/
namespace ClassScope

inductive ExemptionRule where
  | exact (name : Text)
  | pattern (p : Pattern)

namespace ExemptionRule

def accepts : ExemptionRule → Text → Bool
  | exact name, t => name == t
  | pattern p, t => p.isFoundIn t

def slashed? : Text → Option Text
  | '/' :: t =>
    match t.reverse with
    | '/' :: inner => if inner.isEmpty then none else some inner.reverse
    | _ => none
  | _ => none

end ExemptionRule

structure BadPattern where
  text : Text
  deriving DecidableEq, Repr

/-- Rules and texts that qualifying introduced, in the order in which they came. -/
structure Exemptions where
  rules : List ExemptionRule
  introduced : List Text

namespace Exemptions

def none : Exemptions := ⟨[], []⟩

def isEmpty (e : Exemptions) : Bool := e.rules.isEmpty && e.introduced.isEmpty

def addRule (e : Exemptions) (r : ExemptionRule) : Exemptions := { e with rules := e.rules ++ [r] }

def addExact (e : Exemptions) (name : Text) : Exemptions := e.addRule (.exact name)

def addPattern (e : Exemptions) (text : Text) : Except BadPattern Exemptions :=
  match Pattern.ofText? text with
  | some p => .ok (e.addRule (.pattern p))
  | _ => .error ⟨text⟩

/-- Adds a rule as it is written: a pattern between slashes, else a name. -/
def addWritten (e : Exemptions) (rule : Text) : Except BadPattern Exemptions :=
  match ExemptionRule.slashed? rule with
  | some p => e.addPattern p
  | _ => .ok (e.addExact rule)

def ofWritten (rules : List Text) : Except BadPattern Exemptions := rules.foldlM addWritten none

/-- What an event leaves exempt: the whole new text and each word of it. -/
def traces (event : Event) : List Text := event.after :: event.after.words

def addIntroduced (e : Exemptions) (events : List Event) : Exemptions :=
  { e with introduced := e.introduced ++ events.flatMap traces }

/-- Does a rule accept the name without the blanks around it? -/
def isRuled (e : Exemptions) (name : Text) : Bool := e.rules.any (·.accepts name.trim)

/-- Names that start so belong to components and to vendors. -/
def startsForeign (name : Text) : Bool :=
  name.head?.any fun c => ('A' ≤ c && c ≤ 'Z') || c == '-'

def isExempt (e : Exemptions) (name : Text) : Bool :=
  e.isRuled name || name.trim.isEmpty || startsForeign name || e.introduced.contains name

@[simp] theorem introduced_addRule (e : Exemptions) (r : ExemptionRule) :
    (e.addRule r).introduced = e.introduced := rfl

end Exemptions
end ClassScope
