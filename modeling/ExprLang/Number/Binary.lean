import ExprLang.Number.Format

/-!
# Binary floating-point numbers

A `Binary f` is the bit pattern of a number in the format `f`, and `Binary.datum` is the number it
stands for: not a number, an infinity, or `± significand · 2 ^ exponent` exactly. `Binary.round`
gives the pattern nearest to an exact quotient, a tie going to the even pattern, and infinity past
the greatest number. Every operation computes its result exactly and rounds it once.
-/

namespace ExprLang

/-- A floating-point number of a format, as its bits. -/
structure Binary (f : Format) where
  bits : BitVec f.width
deriving DecidableEq, Repr

/-- What a bit pattern stands for. A finite number is `significand · 2 ^ exponent`, negated if
`negative`. -/
inductive Datum where
  | nan
  | infinite (negative : Bool)
  | finite (negative : Bool) (significand : Nat) (exponent : Int)
deriving DecidableEq, Repr

/-- The natural number nearest to `num / den`, the even one of two that are equally near. -/
def nearestEven (num den : Nat) : Nat :=
  let quotient := num / den
  let remainder := num % den
  if den < 2 * remainder ∨ (2 * remainder = den ∧ quotient % 2 = 1) then quotient + 1 else quotient

/-- The quotient `num / (den · 2 ^ e)` as a fraction. -/
def scaleDown (num den : Nat) (e : Int) : Nat × Nat :=
  if 0 ≤ e then (num, den <<< e.toNat) else (num <<< (-e).toNat, den)

/-- The greatest `e` with `2 ^ e ≤ num / den`, for positive `num` and `den`. -/
def floorLog2 (num den : Nat) : Int :=
  let e := (num.log2 : Int) - den.log2
  let (n, d) := scaleDown num den e
  if d ≤ n then e else e - 1

namespace Binary

variable {f : Format}

/-- The pattern with a sign and the remaining bits, which infinity bounds. -/
def ofMagnitude (f : Format) (negative : Bool) (magnitude : Nat) : Binary f :=
  let signBit := if negative then pow2 (f.width - 1) else 0
  ⟨BitVec.ofNat f.width (signBit + min magnitude f.infinityBits)⟩

/-- The quiet pattern that is not a number. -/
def nan (f : Format) : Binary f := ⟨BitVec.ofNat f.width (f.infinityBits + pow2 (f.precision - 2))⟩

/-- An infinity. -/
def infinite (f : Format) (negative : Bool) : Binary f := ofMagnitude f negative f.infinityBits

/-- A zero. -/
def zero (f : Format) (negative : Bool) : Binary f := ofMagnitude f negative 0

/-- What the bits stand for. -/
def datum (x : Binary f) : Datum :=
  let n := x.bits.toNat
  let negative := pow2 (f.width - 1) ≤ n
  let unit := pow2 (f.precision - 1)
  let fraction := n % unit
  let field := n % pow2 (f.width - 1) / unit
  if field = pow2 f.exponentBits - 1 then
    if fraction = 0 then .infinite negative else .nan
  else if field = 0 then .finite negative fraction f.leastExponent
  else .finite negative (unit + fraction) (f.leastExponent + (field - 1 : Nat))

/-- The bits, sign aside, of the number nearest to `num / den`. The last place of the result has the
exponent that gives it `precision` bits, and never less than the least one. -/
def roundMagnitude (f : Format) (num den : Nat) : Nat :=
  if num = 0 then 0
  else
    let e := max f.leastExponent (floorLog2 num den - (f.precision - 1 : Nat))
    let (n, d) := scaleDown num den e
    nearestEven n d + (e - f.leastExponent).toNat * pow2 (f.precision - 1)

/-- The number of the format nearest to `± num / den`. -/
def round (f : Format) (negative : Bool) (num den : Nat) : Binary f :=
  ofMagnitude f negative (roundMagnitude f num den)

/-- The number of the format nearest to `± m · 2 ^ e`. -/
def roundScaled (f : Format) (negative : Bool) (m : Nat) (e : Int) : Binary f :=
  let (num, den) := scaleDown m 1 (-e)
  round f negative num den

/-- The number of the format nearest to an integer. -/
def ofInt (f : Format) (n : Int) : Binary f := round f (n < 0) n.natAbs 1

/-- The number of another format nearest to this one. -/
def convert (g : Format) (x : Binary f) : Binary g :=
  match x.datum with
  | .nan => nan g
  | .infinite s => infinite g s
  | .finite s m e => roundScaled g s m e

/-- The same number with the other sign. -/
def neg (x : Binary f) : Binary f :=
  match x.datum with
  | .nan => nan f
  | .infinite s => infinite f (!s)
  | .finite s m e => roundScaled f (!s) m e

/-- The sum. Two numbers that cancel give the positive zero, and so do two zeros of unlike sign. -/
def add (x y : Binary f) : Binary f :=
  match x.datum, y.datum with
  | .nan, _ => nan f
  | _, .nan => nan f
  | .infinite s, .infinite t => if s = t then infinite f s else nan f
  | .infinite s, .finite .. => infinite f s
  | .finite .., .infinite t => infinite f t
  | .finite s m d, .finite t n e =>
    let least := min d e
    let aligned (negative : Bool) (k : Nat) (exponent : Int) : Int :=
      let shifted : Int := (k <<< (exponent - least).toNat : Nat)
      if negative then -shifted else shifted
    let sum := aligned s m d + aligned t n e
    if sum = 0 then zero f (s && t) else roundScaled f (sum < 0) sum.natAbs least

/-- The difference. -/
def sub (x y : Binary f) : Binary f := add x y.neg

/-- The product. -/
def mul (x y : Binary f) : Binary f :=
  match x.datum, y.datum with
  | .nan, _ => nan f
  | _, .nan => nan f
  | .infinite s, .infinite t => infinite f (s != t)
  | .infinite s, .finite t n _ => if n = 0 then nan f else infinite f (s != t)
  | .finite s m _, .infinite t => if m = 0 then nan f else infinite f (s != t)
  | .finite s m d, .finite t n e => roundScaled f (s != t) (m * n) (d + e)

/-- The quotient. A number other than zero divided by zero is infinite. -/
def div (x y : Binary f) : Binary f :=
  match x.datum, y.datum with
  | .nan, _ => nan f
  | _, .nan => nan f
  | .infinite _, .infinite _ => nan f
  | .infinite s, .finite t _ _ => infinite f (s != t)
  | .finite s _ _, .infinite t => zero f (s != t)
  | .finite s m d, .finite t n e =>
    if n = 0 then
      if m = 0 then nan f else infinite f (s != t)
    else
      let (num, den) := scaleDown m n (e - d)
      round f (s != t) num den

/-- Equality of numbers: what is not a number equals nothing, and the two zeros are equal. -/
def equals (x y : Binary f) : Bool :=
  match x.datum, y.datum with
  | .infinite s, .infinite t => s == t
  | .finite s m d, .finite t n e => (m == 0 && n == 0) || (s == t && m == n && d == e)
  | _, _ => false

/-- Whether the number is one of the two zeros. -/
def isZero (x : Binary f) : Bool :=
  match x.datum with
  | .finite _ m _ => m == 0
  | _ => false

/-- The integer part of `± m · 2 ^ e`. -/
def truncate (negative : Bool) (m : Nat) (e : Int) : Int :=
  let whole : Int := (if 0 ≤ e then m <<< e.toNat else m >>> (-e).toNat : Nat)
  if negative then -whole else whole

/-- The integer between `least` and `greatest` nearest to the integer part. What is not a number
counts as zero. -/
def toIntWithin (least greatest : Int) (x : Binary f) : Int :=
  match x.datum with
  | .nan => 0
  | .infinite s => if s then least else greatest
  | .finite s m e => max least (min (truncate s m e) greatest)

end Binary

end ExprLang
