import ClassScope.Text.Basic

/-! Changes to literals as they are reported. -/
namespace ClassScope

structure Event where
  before : Text
  after : Text
  /-- Line of the literal, counted from one. -/
  line : Nat
  deriving DecidableEq, Repr

namespace Event

def message (e : Event) : Text :=
  "Original: \"".toList ++ e.before ++ "\" => Updated: \"".toList ++ e.after ++ ['"']

end Event
end ClassScope
