import ClassScope.Text.Category

/-! The characters of identifiers: the Unicode classes ID_Start and ID_Continue, with the dollar
sign, the low line and, after the first character, the two zero-width joiners. -/
namespace ClassScope.Text

/-- Characters that start an identifier although they are neither letters nor letter numbers. -/
def extraStarts : List (Nat × Nat) :=
  [(0x1885, 0x1886), (0x2118, 0x2118), (0x212E, 0x212E), (0x309B, 0x309C)]

def extraContinues : List (Nat × Nat) :=
  [(0xB7, 0xB7), (0x387, 0x387), (0x1369, 0x1371), (0x19DA, 0x19DA), (0x200C, 0x200D),
   (0x30FB, 0x30FB), (0xFF65, 0xFF65)]

def isIdStart (c : Char) : Bool :=
  if c.toNat < 0x80 then c.isAlpha || c == '$' || c == '_'
  else ((Category.of c).isLetter && c.toNat != 0x2E2F) || Category.of c == .letterNumber ||
    inRanges extraStarts c

def isIdContinue (c : Char) : Bool :=
  if c.toNat < 0x80 then c.isAlphanum || c == '$' || c == '_'
  else isIdStart c || inRanges extraContinues c ||
    match Category.of c with
    | .nonspacingMark | .spacingMark | .decimalNumber | .connectorPunctuation => true
    | _ => false

end ClassScope.Text
