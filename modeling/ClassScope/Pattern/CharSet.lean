import ClassScope.Pattern.CaseFold
import ClassScope.Text.Blank
import ClassScope.Text.Word

/-! Sets of characters as patterns describe them. -/
namespace ClassScope.Pattern

inductive CharSet where
  | none
  | one (c : Char)
  | range (first last : Char)
  | categories (list : List Category)
  | blank
  | word
  | alphabetic
  | uppercase
  | lowercase
  | union (a b : CharSet)
  | inter (a b : CharSet)
  | diff (a b : CharSet)
  | symmDiff (a b : CharSet)
  | compl (a : CharSet)
  | folded (a : CharSet)
  deriving Repr

namespace CharSet

/-- Marks that count as letters in words but not as alphabetic would be many; a mark is alphabetic
unless it belongs to one of these blocks of diacritics. -/
def diacritics : List (Nat × Nat) :=
  [(0x300, 0x344), (0x346, 0x362), (0x483, 0x489), (0x1AB0, 0x1ABE), (0x1DC0, 0x1DD2),
   (0x1DF5, 0x1DFF), (0x20D0, 0x20F0), (0xFE00, 0xFE0F), (0xFE20, 0xFE2F), (0xE0100, 0xE01EF)]

def extraUppercase : List (Nat × Nat) :=
  [(0x2160, 0x216F), (0x24B6, 0x24CF), (0x1F130, 0x1F149), (0x1F150, 0x1F169),
   (0x1F170, 0x1F189)]

def extraLowercase : List (Nat × Nat) :=
  [(0xAA, 0xAA), (0xBA, 0xBA), (0x2B0, 0x2B8), (0x2C0, 0x2C1), (0x2E0, 0x2E4), (0x345, 0x345),
   (0x37A, 0x37A), (0x10FC, 0x10FC), (0x1D2C, 0x1D6A), (0x1D78, 0x1D78), (0x1D9B, 0x1DBF),
   (0x2071, 0x2071), (0x207F, 0x207F), (0x2090, 0x209C), (0x2170, 0x217F), (0x24D0, 0x24E9),
   (0x2C7C, 0x2C7D), (0xA69C, 0xA69D), (0xA770, 0xA770), (0xA7F1, 0xA7F4), (0xA7F8, 0xA7F9),
   (0xAB5C, 0xAB5F), (0xAB69, 0xAB69), (0x10780, 0x10780), (0x10783, 0x10785),
   (0x10787, 0x107B0), (0x107B2, 0x107BA), (0x1E030, 0x1E06D)]

def isAlphabetic (c : Char) : Bool :=
  let k := Category.of c
  k.isLetter || k == .letterNumber || (k.isMark && !Text.inRanges diacritics c) ||
    (Text.inRanges Text.extraWordChars c && c.toNat != 0x200C && c.toNat != 0x200D)

def contains : CharSet → Char → Bool
  | none, _ => false
  | one a, c => a == c
  | range a b, c => a ≤ c && c ≤ b
  | categories ks, c => ks.contains (Category.of c)
  | blank, c => Text.isBlank c
  | word, c => Text.isWordChar c
  | alphabetic, c => isAlphabetic c
  | uppercase, c => Category.of c == .uppercaseLetter || Text.inRanges extraUppercase c
  | lowercase, c => Category.of c == .lowercaseLetter || Text.inRanges extraLowercase c
  | union a b, c => a.contains c || b.contains c
  | inter a b, c => a.contains c && b.contains c
  | diff a b, c => a.contains c && !b.contains c
  | symmDiff a b, c => a.contains c != b.contains c
  | compl a, c => !a.contains c
  | folded a, c => (caseVariants c).any a.contains

def ofRanges (rs : List (Char × Char)) : CharSet :=
  rs.foldl (fun s r => union s (range r.1 r.2)) none

def digit : CharSet := categories [.decimalNumber]

end CharSet
end ClassScope.Pattern
