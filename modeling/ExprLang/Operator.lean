/-!
# Arithmetic operators

The four infix operators of the language and how they are written. What they compute is defined
with the values they combine.
-/

namespace ExprLang

/-- An infix operator. -/
inductive Operator where
  | add
  | sub
  | mul
  | div
deriving DecidableEq, Repr

/-- An operator as it is written. -/
def Operator.symbol : Operator → String
  | add => "+"
  | sub => "-"
  | mul => "*"
  | div => "/"

end ExprLang
