import ClassScope.Text.Basic

/-! The order of texts, by character from the front, and of lists of texts, by text from the
front. What is at an end comes before what goes on. -/
namespace ClassScope.Text

def le : Text → Text → Bool
  | [], _ => true
  | _ :: _, [] => false
  | a :: s, b :: t => if a = b then le s t else a.toNat < b.toNat

def listLe : List Text → List Text → Bool
  | [], _ => true
  | _ :: _, [] => false
  | a :: p, b :: q => if a = b then listLe p q else le a b

theorem le_total (s t : Text) : le s t = true ∨ le t s = true := by
  induction s generalizing t with
  | nil => exact .inl rfl
  | cons a s ih =>
    cases t with
    | nil => exact .inr rfl
    | cons b t =>
      by_cases h : a = b
      · subst h
        simpa [le] using ih t
      · have hn : a.toNat ≠ b.toNat := fun e => h (Char.toNat_inj.mp e)
        have hb : ¬b = a := fun e => h e.symm
        simp only [le, h, hb, if_false, decide_eq_true_eq]
        omega

theorem listLe_total (p q : List Text) : listLe p q = true ∨ listLe q p = true := by
  induction p generalizing q with
  | nil => exact .inl rfl
  | cons a p ih =>
    cases q with
    | nil => exact .inr rfl
    | cons b q =>
      by_cases h : a = b
      · subst h
        simpa [listLe] using ih q
      · have h' : ¬b = a := fun e => h e.symm
        simpa only [listLe, h, h', if_false] using le_total a b

end ClassScope.Text
