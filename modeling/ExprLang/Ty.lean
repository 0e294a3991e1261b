import ExprLang.Number.IntType
import ExprLang.Number.Format

/-!
# Types

The types of values: the integer types, the floating-point types, text, `void`, the type of types
and the type of functions. Number literals have types of their own, the *untyped* ones, and keep
them until their context asks for a concrete type.
-/

namespace ExprLang

/-- The floating-point types: two concrete ones, that of literals with a suffix `f` or `d`, and that
of literals without a suffix. -/
inductive RealType where
  | float
  | double
  | compfloat
  | compnum
deriving DecidableEq, Repr

/-- The format in which the numbers of a floating-point type are kept. -/
def RealType.format : RealType → Format
  | float => .single
  | double => .double
  | compfloat => .double
  | compnum => .double

/-- The name of a floating-point type. -/
def RealType.name : RealType → String
  | float => "float"
  | double => "double"
  | compfloat => "compfloat"
  | compnum => "compnum"

/-- The type of a value. -/
inductive Ty where
  | int (t : IntType)
  | real (t : RealType)
  | string
  | void
  | type
  | function
deriving DecidableEq, Repr

namespace Ty

/-- Every type: the concrete numbers, the types that hold no number, the untyped literals. -/
def all : List Ty :=
  [.int (.sized .unsigned .w8), .int (.sized .unsigned .w16), .int (.sized .unsigned .w32),
   .int (.sized .unsigned .w64), .int (.sized .signed .w8), .int (.sized .signed .w16),
   .int (.sized .signed .w32), .int (.sized .signed .w64), .real .float, .real .double,
   .string, .void, .type, .function,
   .int (.literal .signed), .int (.literal .unsigned), .real .compfloat, .real .compnum]

/-- The name of a type in source text and in messages. -/
def name : Ty → String
  | int t => t.name
  | real t => t.name
  | string => "string"
  | void => "void"
  | type => "type"
  | function => "function"

/-- The type with a given name. -/
def ofName? (s : String) : Option Ty := all.find? fun t => t.name == s

/-- The concrete unsigned integer types. -/
def isUnsigned : Ty → Bool
  | int (.sized .unsigned _) => true
  | _ => false

/-- The concrete signed integer types. -/
def isSigned : Ty → Bool
  | int (.sized .signed _) => true
  | _ => false

/-- The concrete floating-point types. -/
def isFloat : Ty → Bool
  | real .float => true
  | real .double => true
  | _ => false

/-- The types of untyped literals. -/
def isUntyped : Ty → Bool
  | int (.literal _) => true
  | real .compfloat => true
  | real .compnum => true
  | _ => false

/-- The types of numbers, which the arithmetic operators take. -/
def isNumeric (t : Ty) : Bool := t.isUnsigned || t.isSigned || t.isFloat || t.isUntyped

end Ty

end ExprLang
