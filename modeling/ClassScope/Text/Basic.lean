/-! Texts are lists of characters, and offsets into them count the bytes of their UTF-8 form.
A cut is only ever made between two characters: every operation that takes an offset answers
`none` when the offset falls inside a character or past the end. -/
namespace ClassScope

abbrev Text := List Char

namespace Text

/-- Number of bytes of a text. -/
def size : Text → Nat
  | [] => 0
  | c :: t => c.utf8Size + size t

@[simp] theorem size_nil : size [] = 0 := rfl

@[simp] theorem size_cons (c : Char) (t : Text) : size (c :: t) = c.utf8Size + size t := rfl

@[simp] theorem size_append (s t : Text) : size (s ++ t) = size s + size t := by
  induction s with
  | nil => simp
  | cons c s ih => simp [ih, Nat.add_assoc]

theorem length_le_size (t : Text) : t.length ≤ size t := by
  induction t with
  | nil => simp
  | cons c t ih =>
    have hc : 0 < c.utf8Size := Char.utf8Size_pos c
    simp only [List.length_cons, size_cons]
    omega

def dropBytes? : Nat → Text → Option Text
  | 0, t => some t
  | _ + 1, [] => none
  | n + 1, c :: t => if c.utf8Size ≤ n + 1 then dropBytes? (n + 1 - c.utf8Size) t else none

def takeBytes? : Nat → Text → Option Text
  | 0, _ => some []
  | _ + 1, [] => none
  | n + 1, c :: t =>
    if c.utf8Size ≤ n + 1 then (takeBytes? (n + 1 - c.utf8Size) t).map (c :: ·) else none

/-- The text from byte `start` up to byte `stop`. -/
def slice? (start stop : Nat) (t : Text) : Option Text :=
  if start ≤ stop then (dropBytes? start t).bind (takeBytes? (stop - start)) else none

@[simp] theorem dropBytes?_zero (t : Text) : dropBytes? 0 t = some t := by
  cases t <;> rfl

@[simp] theorem takeBytes?_zero (t : Text) : takeBytes? 0 t = some [] := by
  cases t <;> rfl

theorem dropBytes?_size_append (s t : Text) : dropBytes? (size s) (s ++ t) = some t := by
  induction s with
  | nil => simp
  | cons c s ih =>
    have hc : 0 < c.utf8Size := Char.utf8Size_pos c
    obtain ⟨n, hn⟩ : ∃ n, size (c :: s) = n + 1 :=
      ⟨size (c :: s) - 1, by simp only [size_cons]; omega⟩
    have hle : c.utf8Size ≤ n + 1 := by simp only [size_cons] at hn; omega
    have hsub : n + 1 - c.utf8Size = size s := by simp only [size_cons] at hn; omega
    rw [hn, List.cons_append, dropBytes?, if_pos hle, hsub, ih]

theorem takeBytes?_size_append (s t : Text) : takeBytes? (size s) (s ++ t) = some s := by
  induction s with
  | nil => simp
  | cons c s ih =>
    have hc : 0 < c.utf8Size := Char.utf8Size_pos c
    obtain ⟨n, hn⟩ : ∃ n, size (c :: s) = n + 1 :=
      ⟨size (c :: s) - 1, by simp only [size_cons]; omega⟩
    have hle : c.utf8Size ≤ n + 1 := by simp only [size_cons] at hn; omega
    have hsub : n + 1 - c.utf8Size = size s := by simp only [size_cons] at hn; omega
    rw [hn, List.cons_append, takeBytes?, if_pos hle, hsub, ih]
    rfl

def find? (c : Char) : Text → Option Nat
  | [] => none
  | d :: t => if d = c then some 0 else (find? c t).map (d.utf8Size + ·)

def startsWith (s t : Text) : Bool := s.isPrefixOf t

def join (sep : Text) : List Text → Text
  | [] => []
  | [t] => t
  | t :: s :: r => t ++ sep ++ join sep (s :: r)

end Text
end ClassScope
