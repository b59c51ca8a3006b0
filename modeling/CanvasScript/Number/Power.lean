/-
Powers of two and of ten, the scales of binary and of decimal numbers.

They have names of their own because they are quantities of this project: a power of two is
the weight of a binary place, and a power of ten that of a decimal one.
-/

set_option autoImplicit false

namespace CanvasScript

def twoTo (place : Nat) : Nat := Nat.pow 2 place

def tenTo (place : Nat) : Nat := Nat.pow 10 place

@[simp] theorem twoTo_zero : twoTo 0 = 1 := rfl

@[simp] theorem tenTo_zero : tenTo 0 = 1 := rfl

/-- Each binary place weighs twice the one before it. -/
theorem twoTo_succ (place : Nat) : twoTo (place + 1) = twoTo place * 2 := rfl

/-- Each decimal place weighs ten times the one before it. -/
theorem tenTo_succ (place : Nat) : tenTo (place + 1) = tenTo place * 10 := rfl

theorem twoTo_add (a b : Nat) : twoTo (a + b) = twoTo a * twoTo b := Nat.pow_add 2 a b

theorem tenTo_add (a b : Nat) : tenTo (a + b) = tenTo a * tenTo b := Nat.pow_add 10 a b

theorem twoTo_pos (place : Nat) : 0 < twoTo place := Nat.two_pow_pos place

theorem tenTo_pos (place : Nat) : 0 < tenTo place := Nat.pow_pos (by decide)

theorem le_log2_iff {n : Nat} (h : n ≠ 0) (place : Nat) : place ≤ Nat.log2 n ↔ twoTo place ≤ n :=
  Nat.le_log2 h

theorem log2_lt_iff {n : Nat} (h : n ≠ 0) (place : Nat) : Nat.log2 n < place ↔ n < twoTo place :=
  Nat.log2_lt h

end CanvasScript
