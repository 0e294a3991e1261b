import ExprLang.Number.Binary

/-!
# Decimal numbers as they are written

A `Decimal` is `digits · 10 ^ exponent`. `Decimal.parse?` reads the grammar

    digits ('.' digits?)? ('e' digits)?

of unsigned numbers, with at least one digit where it says `digits`, and `Decimal.toBinary` is the
floating-point number nearest to a decimal.
-/

namespace ExprLang

/-- The number `digits · 10 ^ exponent`. -/
structure Decimal where
  digits : Nat
  exponent : Int
deriving DecidableEq, Repr

namespace Decimal

/-- The natural number that decimal digits denote. -/
def ofDigits (cs : List Char) : Nat := cs.foldl (fun n c => 10 * n + (c.toNat - '0'.toNat)) 0

/-- The number of decimal digits of a natural number. -/
def digitCount (n : Nat) : Nat := (Nat.toDigits 10 n).length

/-- Reads what may follow the digits before the point: the digits after it and the rest. -/
def splitFraction : List Char → List Char × List Char
  | '.' :: cs => (cs.takeWhile Char.isDigit, cs.dropWhile Char.isDigit)
  | cs => ([], cs)

/-- Reads the exponent at the end, which may be absent. -/
def parseExponent? : List Char → Option Nat
  | [] => some 0
  | 'e' :: cs => if cs.isEmpty || !cs.all Char.isDigit then none else some (ofDigits cs)
  | _ => none

/-- Reads an unsigned number, all of the text. -/
def parse? (cs : List Char) : Option Decimal :=
  let whole := cs.takeWhile Char.isDigit
  let (fraction, rest) := splitFraction (cs.dropWhile Char.isDigit)
  if whole.isEmpty then none
  else (parseExponent? rest).map fun exponent =>
    ⟨ofDigits (whole ++ fraction), (exponent : Int) - fraction.length⟩

/-- The number of a format nearest to a decimal. A decimal whose leading digit stands more than 400
places away from the point is past every number of both formats. -/
def toBinary (f : Format) (d : Decimal) : Binary f :=
  let places := (digitCount d.digits : Int) + d.exponent
  if d.digits = 0 || places < -400 then Binary.zero f false
  else if 400 < places then Binary.infinite f false
  else if 0 ≤ d.exponent then Binary.round f false (d.digits * pow10 d.exponent.toNat) 1
  else Binary.round f false d.digits (pow10 (-d.exponent).toNat)

end Decimal

end ExprLang
