import ExprLang.Value

/-!
# Coercion

`Value.coerce` turns a value into one of a given type, where that is allowed. Anything becomes
`void`, and a value becomes one of its own type by staying as it is. Beyond that only numbers are
coerced: an untyped literal to any concrete numeric type, a concrete number to the types of its own
family, which are the unsigned integers, the signed integers and the floating-point numbers.

Between integers a coercion keeps the value modulo the number of values of the target. A
floating-point number is truncated toward zero first.
-/

namespace ExprLang

namespace Value

/-- The family of concrete types that a number of a type stays in. -/
def sameFamily : Ty → Ty → Bool
  | .int s, .int (.sized sign _) => s.sign == sign
  | .real _, .real .float => true
  | .real _, .real .double => true
  | _, _ => false

/-- Whether a number of the first type may become one of the second. -/
def admits (source target : Ty) : Bool :=
  if source.isUntyped then target.isUnsigned || target.isSigned || target.isFloat
  else source.isNumeric && sameFamily source target

/-- The integer that a floating-point number is truncated to: its integer part, brought into the
range of 128 bits. -/
def truncated {f : Format} (x : Binary f) : Int :=
  x.toIntWithin (-(pow2 127 : Int)) ((pow2 127 : Int) - 1)

/-- A number as an integer type holds it. -/
def toInteger? (t : IntType) : Value → Option (Integer t)
  | int _ n => some (Integer.wrap t n.val)
  | real _ x => some (Integer.wrap t (truncated x))
  | _ => none

/-- A number as a floating-point type holds it. It passes through 64 bits, so that an integer on its
way to 32 bits is rounded twice. -/
def toReal? (t : RealType) : Value → Option (Binary t.format)
  | int _ n => some ((Binary.ofInt .double n.val).convert t.format)
  | real _ x => some ((x.convert .double).convert t.format)
  | _ => none

/-- The number as one of another type. -/
def convert? (v : Value) : Ty → Option Value
  | .int t => (v.toInteger? t).map (.int t)
  | .real t => (v.toReal? t).map (.real t)
  | _ => none

/-- The value as one of type `target`, where the language allows it. -/
def coerce (v : Value) (target : Ty) : Option Value :=
  if target = .void then some .void
  else if v.ty = target then some v
  else if admits v.ty target then v.convert? target
  else none

/-- Conversion gives a number of the type asked for. -/
theorem ty_of_convert? {v v' : Value} {t : Ty} (h : v.convert? t = some v') : v'.ty = t := by
  cases t with
  | int t =>
    obtain ⟨n, -, rfl⟩ := Option.map_eq_some_iff.1 h
    rfl
  | real t =>
    obtain ⟨x, -, rfl⟩ := Option.map_eq_some_iff.1 h
    rfl
  | _ => cases h

/-- Coercion gives a value of the type asked for. -/
theorem ty_of_coerce {v v' : Value} {t : Ty} (h : v.coerce t = some v') : v'.ty = t := by
  unfold coerce at h
  split at h
  · rename_i hvoid
    cases h
    exact hvoid.symm
  split at h
  · rename_i hty
    cases h
    exact hty
  split at h
  · exact ty_of_convert? h
  · cases h

end Value

end ExprLang
