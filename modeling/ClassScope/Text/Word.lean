import ClassScope.Text.Category

/-! Word characters: letters, marks, decimal digits, connecting punctuation, the joiners, and the
few symbols that count as alphabetic. -/
namespace ClassScope.Text

def extraWordChars : List (Nat × Nat) :=
  [(0x200C, 0x200D), (0x24B6, 0x24E9), (0x1F130, 0x1F149), (0x1F150, 0x1F169),
   (0x1F170, 0x1F189)]

def isWordChar (c : Char) : Bool :=
  if c.toNat < 0x80 then c.isAlphanum || c == '_'
  else
    let k := Category.of c
    k.isLetter || k.isMark || k == .decimalNumber || k == .letterNumber ||
      k == .connectorPunctuation || inRanges extraWordChars c

/-- Is there a border between a word and something else right in front of a character? `before` is
the character before that, if there is one. -/
def isWordStart (before : Option Char) (c : Char) : Bool := before.any isWordChar != isWordChar c

end ClassScope.Text
