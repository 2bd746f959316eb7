import ClassScope.Text.Basic

/-! Replacements of stretches of a text, and what a text becomes when all of them are made. -/
namespace ClassScope

structure Edit where
  start : Nat
  stop : Nat
  replacement : Text
  deriving DecidableEq, Repr

namespace Edit

/-- Makes edits in a text of which the first `cursor` bytes are already dealt with. An edit that
starts before that place, or that cuts a character, cannot be made. -/
def spliceFrom? (source : Text) (cursor : Nat) : List Edit → Option Text
  | [] => source.dropBytes? cursor
  | e :: es => do
    let kept ← source.slice? cursor e.start
    let rest ← spliceFrom? source e.stop es
    return kept ++ e.replacement ++ rest

def splice? (source : Text) (edits : List Edit) : Option Text := spliceFrom? source 0 edits

@[simp] theorem splice?_nil (source : Text) : splice? source [] = some source := by
  simp [splice?, spliceFrom?]

end Edit
end ClassScope
