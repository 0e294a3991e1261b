import ExprLang.Expr
import ExprLang.Number.Integer

/-!
# Values

What expressions evaluate to. A value has a type (`Value.ty`), a text that printing shows
(`Value.text`) and an equality (`Value.equals`) in which numbers are compared as numbers and
functions by where they come from.
-/

namespace ExprLang

/-- A function value: one defined in a program text, or a native one, which the host provides
under a name and recognizes by a handle. -/
inductive Function where
  | defined (f : Lambda)
  | native (name : String) (handle : Nat)

/-- A value. -/
inductive Value where
  | int (t : IntType) (n : Integer t)
  | real (t : RealType) (x : Binary t.format)
  | string (s : String)
  | void
  | type (t : Ty)
  | function (f : Function)

namespace Function

/-- The text that printing a function shows. -/
def text : Function → String
  | defined _ => "<fn>"
  | native name _ => "<native fn " ++ name ++ ">"

/-- The text of a function in the pieces in which it is written: the name of a native function is
a piece of its own. -/
def pieces : Function → List String
  | defined _ => ["<fn>"]
  | native name _ => ["<native fn ", name, ">"]

/-- Whether two functions are the same: read from the same place of the same text, or native under
the same name. -/
def equals : Function → Function → Bool
  | defined f, defined g => f.unit == g.unit && f.span == g.span
  | native m _, native n _ => m == n
  | _, _ => false

end Function

namespace Value

/-- The type of a value. -/
def ty : Value → Ty
  | int t _ => .int t
  | real t _ => .real t
  | string _ => .string
  | void => .void
  | type _ => .type
  | function _ => .function

/-- The text that printing a value shows. -/
def text : Value → String
  | int _ n => n.text
  | real _ x => x.text
  | string s => s
  | void => "void"
  | type t => t.name
  | function f => f.text

/-- The text of a value in the pieces in which it is written. -/
def pieces : Value → List String
  | function f => f.pieces
  | v => [v.text]

/-- The pieces of a value make its text. -/
theorem join_pieces (v : Value) : String.join v.pieces = v.text := by
  cases v with
  | function f => cases f <;> simp [pieces, Function.pieces, text, Function.text, String.join]
  | _ => simp [pieces, String.join]

/-- The type that a type value is. -/
def toType? : Value → Option Ty
  | type t => some t
  | _ => none

/-- The function that a function value is. -/
def toFunction? : Value → Option Function
  | function f => some f
  | _ => none

/-- Whether a value is a number and zero. -/
def isZero : Value → Bool
  | int _ n => n.val == 0
  | real _ x => x.isZero
  | _ => false

/-- Equality of values. Values of unlike types differ. -/
def equals : Value → Value → Bool
  | int s m, int t n => s == t && m.val == n.val
  | real s x, real t y => if h : s = t then x.equals (h ▸ y) else false
  | string a, string b => a == b
  | void, void => true
  | type a, type b => a == b
  | function f, function g => f.equals g
  | _, _ => false

/-- The value in the form of a constructor and its argument. A function of the program has none. -/
def listing? (v : Value) : Option String :=
  let applied (argument : String) : String :=
    Token.Kind.typeLabel v.ty ++ "(" ++ argument ++ ")"
  match v with
  | int _ n => some (applied n.text)
  | real _ x => some (applied x.text)
  | string s => some ("Str(" ++ Text.quoted s ++ ")")
  | void => some "Void"
  | type t => some (applied (Token.Kind.typeLabel t))
  | function (.native name _) =>
    some (applied ("Native(NativeFunction \x7b name: " ++ Text.quoted name ++ ", .. \x7d)"))
  | function (.defined _) => none

end Value

/-- The value of a number as it is written. Without a suffix it stays a floating-point literal,
and an integer suffix takes the integer part, or the nearest integer the type has. -/
def WrittenNumber.toValue (n : WrittenNumber) : Value :=
  let integer (t : IntType) : Value :=
    .int t (Integer.clamp t (n.value.toIntWithin t.least t.greatest))
  match n.suffix with
  | some .unsigned => integer (.literal .unsigned)
  | some .signed => integer (.literal .signed)
  | some .float => .real .compfloat n.value
  | none => .real .compnum n.value

/-- The value of a literal. -/
def Literal.toValue : Literal → Value
  | .number n => n.toValue
  | .string s => .string s
  | .type t => .type t

@[simp] theorem WrittenNumber.ty_toValue (n : WrittenNumber) : n.toValue.ty = n.ty := by
  rcases n with ⟨x, _ | s⟩
  · rfl
  · cases s <;> rfl

/-- A literal has the type of its value. -/
@[simp] theorem Literal.ty_toValue (l : Literal) : l.toValue.ty = l.ty := by
  cases l with
  | number n => exact n.ty_toValue
  | string s => rfl
  | type t => rfl

end ExprLang
