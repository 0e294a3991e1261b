/-!
# Powers of two and of ten

The powers that measure words and place decimal digits.
-/

namespace ExprLang

/-- The power of two with an exponent. -/
def pow2 (n : Nat) : Nat := Nat.pow 2 n

/-- The power of ten with an exponent. -/
def pow10 (n : Nat) : Nat := Nat.pow 10 n

theorem pow2_succ (n : Nat) : pow2 (n + 1) = 2 * pow2 n := Nat.mul_comm _ _

theorem pow2_pos (n : Nat) : 0 < pow2 n := by
  induction n with
  | zero => exact Nat.one_pos
  | succ n ih => rw [pow2_succ]; omega

@[simp] theorem pow10_zero : pow10 0 = 1 := rfl

end ExprLang
