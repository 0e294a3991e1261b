import ExprLang.Token
import ExprLang.Operator

/-!
# Expressions

The tree of a program. A program is a list of items, each of which binds a name to an expression; a
function definition binds its name to a function literal. Every node knows the text it was read
from: leaves and brackets carry spans, and the span of a node follows from those of its parts.
Parentheses leave no node.
-/

namespace ExprLang

/-- A name and where it is written. -/
structure Ident where
  name : String
  span : Span
deriving DecidableEq, Repr

/-- A value written down in the text. -/
inductive Literal where
  | number (n : WrittenNumber)
  | string (text : String)
  | type (t : Ty)
deriving DecidableEq, Repr

/-- The type of a number as it is written, which its suffix selects. -/
def WrittenNumber.ty (n : WrittenNumber) : Ty :=
  match n.suffix with
  | some .unsigned => .int (.literal .unsigned)
  | some .signed => .int (.literal .signed)
  | some .float => .real .compfloat
  | none => .real .compnum

/-- The type of a literal. -/
def Literal.ty : Literal → Ty
  | .number n => n.ty
  | .string _ => .string
  | .type _ => .type

mutual

/-- An expression. -/
inductive Expr where
  | literal (value : Literal) (span : Span)
  | function (f : Lambda)
  | name (id : Ident)
  | binary (op : Operator) (left right : Expr)
  | coerce (value type : Expr)
  /-- A call, with the spans of its opening and its closing parenthesis. -/
  | call (callee : Expr) (args : List Expr) (paren close : Span)
  | block (b : Block)

/-- A function literal. Two of them are the same function if they were read from the same place of
the same text, and `unit` tells the texts apart. -/
structure Lambda where
  unit : Nat
  ret : Expr
  params : List Param
  body : Block

/-- A parameter and the expression for its type. -/
structure Param where
  name : Ident
  type : Expr

/-- Statements between braces. -/
structure Block where
  statements : List Statement
  span : Span

/-- A statement: an expression, or the declaration of a constant, with the span of its keyword. -/
inductive Statement where
  | expr (e : Expr)
  | const (keyword : Span) (name : Ident) (value : Expr)

end

/-- The text an expression was read from. A function literal goes from its return type to the end of
its body. -/
def Expr.span : Expr → Span
  | .literal _ span => span
  | .function ⟨_, ret, _, body⟩ => ret.span.merge body.span
  | .name id => id.span
  | .binary _ left right => left.span.merge right.span
  | .coerce value type => value.span.merge type.span
  | .call callee _ _ close => callee.span.merge close
  | .block b => b.span

/-- The text a function literal was read from. -/
def Lambda.span (f : Lambda) : Span := f.ret.span.merge f.body.span

/-- The text a statement was read from. -/
def Statement.span : Statement → Span
  | .expr e => e.span
  | .const keyword _ value => keyword.merge value.span

/-- Where the result of a block comes from: its last statement, or the block itself if it is
empty. -/
def Block.resultSpan (b : Block) : Span := (b.statements.getLast?.map Statement.span).getD b.span

/-- A declaration at the top level: a name and the expression for its value. -/
structure Item where
  name : Ident
  value : Expr

/-- The text an item was read from, its keyword aside. -/
def Item.span (i : Item) : Span := i.name.span.merge i.value.span

/-- Whether an item was written as the definition of a function. -/
def Item.isFunction (i : Item) : Bool :=
  match i.value with
  | .function _ => true
  | _ => false

end ExprLang
