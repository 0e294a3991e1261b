import ExprLang.Number.Decimal

/-!
# The shortest decimal that reads back

Of the decimals that round to a given floating-point number, `Binary.shortest` takes one with the
fewest digits, and of those the one nearest to the number. `Binary.text` lays its digits out.

The search is exact. A number `m · 2 ^ e` is the nearest one for the decimals between its two
midpoints, ends included iff `m` is even. On the grid of decimals with `k` digits the number has
two neighbours, and if any decimal of the grid lies between the midpoints then one of them does.
-/

namespace ExprLang

/-- The decimals that round to `num / den`: those between `low / den` and `high / den`. -/
structure RoundingInterval where
  num : Nat
  den : Nat
  low : Nat
  high : Nat
  closed : Bool
deriving Repr

namespace RoundingInterval

/-- The interval of a finite number `m · 2 ^ e` of a format. Below a power of two the numbers lie
twice as dense, except at the least exponent. -/
def ofFinite (f : Format) (m : Nat) (e : Int) : RoundingInterval :=
  let quarter := e - 2
  let below := if m = pow2 (f.precision - 1) ∧ f.leastExponent < e then 1 else 2
  let scale (n : Nat) : Nat := if 0 ≤ quarter then n <<< quarter.toNat else n
  ⟨scale (4 * m), 1 <<< (-quarter).toNat, scale (4 * m - below), scale (4 * m + 2), m % 2 == 0⟩

/-- Whether the interval holds `num / den`. -/
def holds (r : RoundingInterval) (num den : Nat) : Bool :=
  let low := r.low * den
  let high := r.high * den
  let n := num * r.den
  if r.closed then low ≤ n && n ≤ high else low < n && n < high

/-- The decimal exponent of the leading digit of `num / den`. -/
def leading (r : RoundingInterval) : Int :=
  let e := (Decimal.digitCount r.num : Int) - Decimal.digitCount r.den
  let (n, d) := if 0 ≤ e then (r.num, r.den * pow10 e.toNat) else (r.num * pow10 (-e).toNat, r.den)
  if d ≤ n then e else e - 1

/-- The decimal of the grid `10 ^ e` in the interval that lies nearest to the number, the greater
one of two that are equally near. -/
def onGrid? (r : RoundingInterval) (e : Int) : Option Decimal :=
  let up := pow10 e.toNat
  let down := pow10 (-e).toNat
  let floor := r.num * down / (r.den * up)
  let remainder := r.num * down % (r.den * up)
  let floorHeld := r.holds (floor * up) down
  let ceilHeld := r.holds ((floor + 1) * up) down
  if ceilHeld && (!floorHeld || r.den * up ≤ 2 * remainder) then some ⟨floor + 1, e⟩
  else if floorHeld then some ⟨floor, e⟩
  else none

/-- The first hit on the grids of `k`, `k + 1`, … digits, at most `n` of them. -/
def search (r : RoundingInterval) (first : Int) : Nat → Nat → Option Decimal
  | 0, _ => none
  | n + 1, k =>
    match r.onGrid? (first - (k - 1 : Nat)) with
    | some d => some d
    | none => search r first n (k + 1)

end RoundingInterval

namespace Decimal

/-- Drops the zeros at the end of the digits, at most `n` of them. -/
def stripZeros : Nat → Decimal → Decimal
  | 0, d => d
  | n + 1, d =>
    if d.digits ≠ 0 ∧ d.digits % 10 = 0 then stripZeros n ⟨d.digits / 10, d.exponent + 1⟩ else d

/-- Where positional notation ends: a leading digit at `10 ^ -4` to `10 ^ 15` is written in place,
any other with an exponent. -/
def isPositional (leading : Int) : Bool := -4 ≤ leading && leading < 16

/-- The digits of a positive decimal in positional notation, with at least one digit on each side of
the point. -/
def positional (digits : List Char) (leading : Int) : List Char :=
  if leading < 0 then
    ['0', '.'] ++ List.replicate (-leading - 1).toNat '0' ++ digits
  else
    let whole := digits.take (leading.toNat + 1)
    let zeros := List.replicate (leading.toNat + 1 - whole.length) '0'
    let fraction := digits.drop (leading.toNat + 1)
    whole ++ zeros ++ ['.'] ++ (if fraction.isEmpty then ['0'] else fraction)

/-- The digits of a positive decimal with an exponent, the point behind the first digit if more
follow. -/
def scientific (digits : List Char) (leading : Int) : List Char :=
  let mantissa := match digits with
    | [] => []
    | [c] => [c]
    | c :: cs => c :: '.' :: cs
  let sign := if leading < 0 then ['-'] else []
  mantissa ++ ['e'] ++ sign ++ Nat.toDigits 10 leading.natAbs

/-- The text of a decimal: zero is `0.0`. -/
def text (d : Decimal) : List Char :=
  if d.digits = 0 then ['0', '.', '0']
  else
    let digits := Nat.toDigits 10 d.digits
    let leading := d.exponent + (digits.length - 1 : Nat)
    if isPositional leading then positional digits leading else scientific digits leading

end Decimal

namespace Binary

variable {f : Format}

/-- The decimal with the fewest digits that rounds to `m · 2 ^ e`. Seventeen digits always do. -/
def shortest (f : Format) (m : Nat) (e : Int) : Decimal :=
  if m = 0 then ⟨0, 0⟩
  else
    let r := RoundingInterval.ofFinite f m e
    ((r.search r.leading 17 1).getD ⟨0, 0⟩).stripZeros 17

/-- The text of a number. A zero keeps its sign, what is not a number has none. -/
def text (x : Binary f) : String :=
  match x.datum with
  | .nan => "NaN"
  | .infinite s => if s then "-inf" else "inf"
  | .finite s m e =>
    let digits := String.ofList (shortest f m e).text
    if s then "-" ++ digits else digits

end Binary

end ExprLang
