import ExprLang.Number.Power

/-!
# Binary floating-point formats

A format is given by its precision and the width of its exponent field. The two formats of the
language are the interchange formats of 32 and of 64 bits.
-/

namespace ExprLang

/-- The floating-point formats. -/
inductive Format where
  | single
  | double
deriving DecidableEq, Repr

namespace Format

/-- The number of significant bits, the implicit leading one included. -/
def precision : Format → Nat
  | single => 24
  | double => 53

/-- The width of the exponent field. -/
def exponentBits : Format → Nat
  | single => 8
  | double => 11

/-- The width of a number in bits: a sign, the exponent field and the stored fraction. -/
def width (f : Format) : Nat := f.precision + f.exponentBits

/-- The exponent of the last place of the smallest numbers. -/
def leastExponent : Format → Int
  | single => -149
  | double => -1074

/-- The bits of infinity, sign aside: a full exponent field and no fraction. -/
def infinityBits (f : Format) : Nat := (pow2 f.exponentBits - 1) * pow2 (f.precision - 1)

end Format

end ExprLang
