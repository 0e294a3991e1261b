import ExprLang.Number.Shortest
import ExprLang.Number.Integer
import ExprLang.Text.Quoted
import ExprLang.Span
import ExprLang.Ty

/-!
# Tokens

The words of the language. A token is a symbol, one of the two keywords, the name of a type, a
number, a string or a name; it carries what it denotes, the text it was read from and where that
text stands.
-/

namespace ExprLang

/-- What the letter behind a number says about its type. -/
inductive Suffix where
  | unsigned
  | signed
  | float
deriving DecidableEq, Repr

namespace Suffix

/-- The suffix a letter stands for: `f` and `d` mean the same. -/
def ofChar? : Char → Option Suffix
  | 'u' => some unsigned
  | 'i' => some signed
  | 'f' => some float
  | 'd' => some float
  | _ => none

/-- The name of a suffix in a token listing. -/
def label : Suffix → String
  | unsigned => "Unsigned"
  | signed => "Signed"
  | float => "Float"

end Suffix

/-- A number as it is written: its value, and its suffix if it has one. -/
structure WrittenNumber where
  value : Binary .double
  suffix : Option Suffix
deriving DecidableEq, Repr

/-- The symbols: brackets, separators and operators. -/
inductive Symbol where
  | leftParen
  | rightParen
  | leftBrace
  | rightBrace
  | colon
  | comma
  | equals
  | plus
  | minus
  | star
  | slash
deriving DecidableEq, Repr

namespace Symbol

/-- Every symbol. -/
def all : List Symbol :=
  [leftParen, rightParen, leftBrace, rightBrace, colon, comma, equals, plus, minus, star, slash]

/-- A symbol as it is written. -/
def char : Symbol → Char
  | leftParen => '('
  | rightParen => ')'
  | leftBrace => '\x7b'
  | rightBrace => '\x7d'
  | colon => ':'
  | comma => ','
  | equals => '='
  | plus => '+'
  | minus => '-'
  | star => '*'
  | slash => '/'

/-- The symbol a character is. -/
def ofChar? (c : Char) : Option Symbol := all.find? fun s => s.char == c

/-- The name of a symbol in a token listing. -/
def label : Symbol → String
  | leftParen => "LeftParen"
  | rightParen => "RightParen"
  | leftBrace => "LeftBrace"
  | rightBrace => "RightBrace"
  | colon => "Colon"
  | comma => "Comma"
  | equals => "Equals"
  | plus => "Plus"
  | minus => "Minus"
  | star => "Star"
  | slash => "Slash"

@[simp] theorem ofChar?_char (s : Symbol) : ofChar? s.char = some s := by
  cases s <;> decide

theorem ofChar?_eq_some_iff {c : Char} {s : Symbol} : ofChar? c = some s ↔ s.char = c := by
  constructor
  · intro h
    have := List.find?_some h
    simpa using this
  · rintro rfl
    exact ofChar?_char s

end Symbol

/-- What a token denotes. -/
inductive Token.Kind where
  | symbol (s : Symbol)
  | as
  | const
  | typeName (t : Ty)
  | number (n : WrittenNumber)
  | string (text : String)
  | identifier
deriving DecidableEq, Repr

/-- A token: what it denotes, where it stands and the text it was read from. -/
structure Token where
  kind : Token.Kind
  span : Span
  text : String
deriving DecidableEq, Repr

namespace Token

/-- The types that have a word of their own. -/
def typeNames : List Ty :=
  [.void, .int (.sized .unsigned .w8), .int (.sized .unsigned .w16), .int (.sized .unsigned .w32),
   .int (.sized .unsigned .w64), .int (.sized .signed .w8), .int (.sized .signed .w16),
   .int (.sized .signed .w32), .int (.sized .signed .w64), .real .float, .real .double]

/-- The reserved words and what they denote. -/
def keywords : List (String × Kind) :=
  [("as", .as), ("const", .const)] ++ typeNames.map fun t => (t.name, .typeName t)

/-- What a reserved word denotes, if the text is one. -/
def keyword? (text : String) : Option Kind := keywords.lookup text

namespace Kind

/-- What a token is called as a member of its category. -/
def category : Kind → String
  | symbol s => s.char.toString
  | as => "as"
  | const => "const"
  | typeName _ => "type keyword"
  | number _ => "number"
  | string _ => "string"
  | identifier => "identifier"

/-- The name of a type in a token listing. -/
def typeLabel : Ty → String
  | .int (.sized .unsigned w) => "U" ++ toString w.bits
  | .int (.sized .signed w) => "I" ++ toString w.bits
  | .int (.literal .unsigned) => "CompUint"
  | .int (.literal .signed) => "CompInt"
  | .real .float => "Float"
  | .real .double => "Double"
  | .real .compfloat => "CompFloat"
  | .real .compnum => "CompNum"
  | .string => "String"
  | .void => "Void"
  | .type => "Type"
  | .function => "Function"

/-- What a token denotes, as a token listing shows it. -/
def listing : Kind → String
  | symbol s => s.label
  | as => "As"
  | const => "Const"
  | typeName t => typeLabel t
  | number n =>
    let suffix := match n.suffix with
      | none => "None"
      | some s => "Some(" ++ s.label ++ ")"
    "Number(NumberLiteral \x7b value: " ++ n.value.text ++ ", suffix: " ++ suffix ++ " \x7d)"
  | string text => "Str(" ++ Text.quoted text ++ ")"
  | identifier => "Identifier"

end Kind

end Token

end ExprLang
