import ExprLang.Number.IntType

/-!
# Integers of a type

An `Integer t` is an integer in the range of the type `t`. Arithmetic is exact: an operation gives
the mathematical result where the type holds it and nothing otherwise (`Integer.ofInt?`). Going to
a narrower type keeps the value modulo the number of values of that type (`Integer.wrap`), and a
number too large for a literal becomes the nearest value of its type (`Integer.clamp`).
-/

namespace ExprLang

/-- An integer between the least and the greatest value of a type. -/
structure Integer (t : IntType) where
  val : Int
  least_le : t.least ≤ val
  le_greatest : val ≤ t.greatest
deriving DecidableEq, Repr

namespace Integer

variable {t : IntType}

@[ext] theorem ext {a b : Integer t} (h : a.val = b.val) : a = b := by
  cases a; cases b; cases h; rfl

/-- The integer of a type with a given value, where the type holds it. -/
def ofInt? (t : IntType) (n : Int) : Option (Integer t) :=
  if h : t.least ≤ n ∧ n ≤ t.greatest then some ⟨n, h.1, h.2⟩ else none

/-- The value modulo the number of values of a type: the bits that fit. -/
def wrapped (t : IntType) (n : Int) : Int :=
  match t.sign with
  | .unsigned => n % t.modulus
  | .signed => Int.bmod n t.modulus

theorem least_le_wrapped (t : IntType) (n : Int) : t.least ≤ wrapped t n := by
  have hpos := t.modulus_pos
  have heq := t.modulus_eq
  unfold IntType.least wrapped
  cases t.sign with
  | unsigned => exact Int.emod_nonneg _ (by omega)
  | signed =>
    have h := Int.le_bmod (x := n) hpos
    simp only
    omega

theorem wrapped_le_greatest (t : IntType) (n : Int) : wrapped t n ≤ t.greatest := by
  have hpos := t.modulus_pos
  have heq := t.modulus_eq
  unfold IntType.greatest wrapped
  cases t.sign with
  | unsigned =>
    have h := Int.emod_lt_of_pos n (b := t.modulus) (by omega)
    simp only [IntType.modulus] at h ⊢
    omega
  | signed =>
    have h := Int.bmod_lt (x := n) hpos
    simp only
    omega

/-- The integer of a type that agrees with `n` modulo the number of its values. -/
def wrap (t : IntType) (n : Int) : Integer t :=
  ⟨wrapped t n, least_le_wrapped t n, wrapped_le_greatest t n⟩

theorem least_le_greatest (t : IntType) : t.least ≤ t.greatest := by
  have h := t.greatest_eq
  have hpos := t.modulus_pos
  omega

/-- The integer of a type nearest to `n`. -/
def clamp (t : IntType) (n : Int) : Integer t :=
  ⟨max t.least (min n t.greatest), Int.le_max_left _ _,
    Int.max_le.2 ⟨least_le_greatest t, Int.min_le_right _ _⟩⟩

/-- The exact sum, where the type holds it. -/
def add? (a b : Integer t) : Option (Integer t) := ofInt? t (a.val + b.val)

/-- The exact difference, where the type holds it. -/
def sub? (a b : Integer t) : Option (Integer t) := ofInt? t (a.val - b.val)

/-- The exact product, where the type holds it. -/
def mul? (a b : Integer t) : Option (Integer t) := ofInt? t (a.val * b.val)

/-- The quotient truncated toward zero, where the divisor is not zero and the type holds it. -/
def div? (a b : Integer t) : Option (Integer t) :=
  if b.val = 0 then none else ofInt? t (a.val.tdiv b.val)

/-- Decimal digits, with a minus sign in front of a negative value. -/
def text (a : Integer t) : String :=
  if a.val < 0 then "-" ++ Nat.repr a.val.natAbs else Nat.repr a.val.natAbs

@[simp] theorem ofInt?_val (a : Integer t) : ofInt? t a.val = some a := by
  simp [ofInt?, a.least_le, a.le_greatest]

theorem ofInt?_eq_some_iff {n : Int} {a : Integer t} : ofInt? t n = some a ↔ a.val = n := by
  constructor
  · intro h
    unfold ofInt? at h
    split at h
    · cases h; rfl
    · cases h
  · rintro rfl
    exact ofInt?_val a

/-- Wrapping keeps the value modulo the number of values. -/
theorem wrapped_emod (t : IntType) (n : Int) : wrapped t n % t.modulus = n % t.modulus := by
  unfold wrapped
  cases t.sign with
  | unsigned => exact Int.emod_emod_of_dvd n (Int.dvd_refl _)
  | signed => exact Int.bmod_emod

end Integer

end ExprLang
