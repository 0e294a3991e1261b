import ExprLang.Number.Power

/-!
# Integer types

An integer type is concrete, with a signedness and one of four widths, or it is one of the two
types of integer literals, which are as wide as the widest concrete type of their signedness.
-/

namespace ExprLang

/-- Whether an integer type has negative values. -/
inductive Sign where
  | unsigned
  | signed
deriving DecidableEq, Repr

/-- The widths of the concrete integer types. -/
inductive Width where
  | w8
  | w16
  | w32
  | w64
deriving DecidableEq, Repr

/-- The width in bits. -/
def Width.bits : Width → Nat
  | .w8 => 8
  | .w16 => 16
  | .w32 => 32
  | .w64 => 64

/-- The integer types: concrete ones, and those of literals with a suffix `u` or `i`. -/
inductive IntType where
  | sized (sign : Sign) (width : Width)
  | literal (sign : Sign)
deriving DecidableEq, Repr

namespace IntType

/-- The signedness of a type. -/
def sign : IntType → Sign
  | sized s _ => s
  | literal s => s

/-- The width of a type in bits. -/
def bits : IntType → Nat
  | sized _ w => w.bits
  | literal _ => 64

/-- The number of values of a type. -/
def modulus (t : IntType) : Nat := pow2 t.bits

/-- The least value. -/
def least (t : IntType) : Int :=
  match t.sign with
  | .unsigned => 0
  | .signed => -(pow2 (t.bits - 1) : Int)

/-- The greatest value. -/
def greatest (t : IntType) : Int :=
  match t.sign with
  | .unsigned => (pow2 t.bits : Int) - 1
  | .signed => (pow2 (t.bits - 1) : Int) - 1

/-- The name of a type in source text and in messages. -/
def name : IntType → String
  | sized .unsigned w => "u" ++ toString w.bits
  | sized .signed w => "i" ++ toString w.bits
  | literal .unsigned => "compuint"
  | literal .signed => "compint"

theorem one_le_bits (t : IntType) : 1 ≤ t.bits := by
  rcases t with ⟨_, w⟩ | _
  · cases w <;> simp [bits, Width.bits]
  · simp [bits]

theorem modulus_pos (t : IntType) : 0 < t.modulus := pow2_pos _

theorem modulus_eq (t : IntType) : t.modulus = 2 * pow2 (t.bits - 1) := by
  have h := t.one_le_bits
  rw [modulus, ← pow2_succ, Nat.sub_add_cancel h]

/-- A type has as many values as its modulus says. -/
theorem greatest_eq (t : IntType) : t.greatest = t.least + t.modulus - 1 := by
  have h := t.modulus_eq
  unfold greatest least
  cases t.sign with
  | unsigned => simp [modulus]
  | signed => simp only []; omega

end IntType

end ExprLang
