import ClassScope.Text.Basic

/-! Blank characters and the words between them. A blank is a character with the Unicode
property White_Space; the zero-width space and the byte order mark are not blank. -/
namespace ClassScope.Text

def isBlank (c : Char) : Bool :=
  let n := c.toNat
  (9 ≤ n && n ≤ 13) || n == 0x20 || n == 0x85 || n == 0xA0 || n == 0x1680 ||
  (0x2000 ≤ n && n ≤ 0x200A) || n == 0x2028 || n == 0x2029 || n == 0x202F || n == 0x205F ||
  n == 0x3000

/-- A word ends in front of a blank and at the end of the text. -/
def atGap : Text → Bool
  | [] => true
  | c :: _ => isBlank c

/-- The maximal runs of characters that are not blank, in order. -/
def words : Text → List Text
  | [] => []
  | c :: t =>
    if isBlank c then words t
    else if atGap t then [c] :: words t
    else match words t with
      | [] => [[c]]
      | w :: ws => (c :: w) :: ws

@[simp] theorem words_nil : words [] = [] := rfl

theorem words_cons_blank {c : Char} (h : isBlank c = true) (t : Text) :
    words (c :: t) = words t := by
  simp [words, h]

def trim (t : Text) : Text := ((t.dropWhile isBlank).reverse.dropWhile isBlank).reverse

def solid (t : Text) : Text := t.filter (!isBlank ·)

end ClassScope.Text
