import ExprLang.Expr
import ExprLang.Token.Lexer

/-!
# From lexemes to programs

The parser follows the grammar

    item       := "const" identifier "=" expression | function
    function   := typeExpr identifier "(" (identifier ":" typeExpr ","?)* ")" block
    statement  := "const" identifier "=" expression | expression
    expression := factor (("+" | "-") factor)*
    factor     := coerced (("*" | "/") coerced)*
    coerced    := called ("as" typeExpr)?
    called     := primary ("(" (expression ","?)* ")")?
    primary    := identifier | block | "(" expression ")" | literal
    literal    := string | number | type name
    block      := "{" statement* "}"
    typeExpr   := primary

and takes every optional part that the next token allows. A literal in the place of a `typeExpr` has
to be the name of a type.

Parsing stops at the first problem. A lexeme that reads as a problem is reported when it is first
looked at, and is used up by that.

Repetition and nesting are bounded by a number of lexemes: no function is ever called with a bound
below the number of lexemes that are left, so that a bound of zero means the end of the text.
-/

namespace ExprLang

/-- What does not change while a text is parsed: a number for the text, and where it ends. -/
structure Source where
  unit : Nat
  eof : Nat
deriving Repr

/-- A parser takes lexemes off the front of a list and gives a result or a diagnostic. -/
def Parser (α : Type) := Source → List Lexeme → Except Diagnostic α × List Lexeme

namespace Parser

variable {α β : Type}

/-- The parser that takes nothing. -/
def ret (a : α) : Parser α := fun _ ls => (.ok a, ls)

/-- One parser after another. A problem of the first is the problem of both. -/
def andThen (p : Parser α) (q : α → Parser β) : Parser β := fun source ls =>
  match p source ls with
  | (.ok a, rest) => q a source rest
  | (.error d, rest) => (.error d, rest)

instance : Monad Parser where
  pure := ret
  bind := andThen

@[simp] theorem pure_apply (a : α) (source : Source) (ls : List Lexeme) :
    (pure a : Parser α) source ls = (.ok a, ls) := rfl

/-- A parser that succeeds hands its result and what it leaves on. -/
theorem bind_of_ok {p : Parser α} {q : α → Parser β} {source : Source} {ls rest : List Lexeme}
    {a : α} (h : p source ls = (.ok a, rest)) : (p >>= q) source ls = q a source rest := by
  show andThen p q source ls = _
  rw [andThen, h]

/-- A problem ends what follows. -/
theorem bind_of_error {p : Parser α} {q : α → Parser β} {source : Source}
    {ls rest : List Lexeme} {d : Diagnostic} (h : p source ls = (.error d, rest)) :
    (p >>= q) source ls = (.error d, rest) := by
  show andThen p q source ls = _
  rw [andThen, h]

/-- Stops with a problem. -/
def fail (d : Diagnostic) : Parser α := fun _ ls => (.error d, ls)

/-- Stops because the text has ended. -/
def failAtEnd : Parser α := fun source ls => (.error ⟨.unexpectedEnd, Span.point source.eof⟩, ls)

/-- The next token, which stays where it is. There is none at the end of the text. -/
def peek : Parser (Option Token) := fun _ ls =>
  match ls with
  | [] => (.ok none, [])
  | l :: rest =>
    match l.token with
    | .ok t => (.ok (some t), l :: rest)
    | .error d => (.error d, rest)

/-- Takes the next token. -/
def next : Parser Token := fun source ls =>
  match ls with
  | [] => failAtEnd source []
  | l :: rest => (l.token, rest)

/-- The number of the text being parsed. -/
def unit : Parser Nat := fun source ls => (.ok source.unit, ls)

/-- What the next token denotes. -/
def peekKind : Parser (Option Token.Kind) := do
  let token ← peek
  return token.map (·.kind)

/-- Whether the next token is a given one. -/
def sees (kind : Token.Kind) : Parser Bool := do
  let found ← peekKind
  return found == some kind

/-- Takes the next token if it is a given one, and says whether it was. -/
def accept (kind : Token.Kind) : Parser Bool := do
  if ← sees kind then
    let _ ← next
    return true
  else
    return false

/-- The problem of a token in the place of something else. -/
def unexpected (wanted : Wanted) (found : Token) : Parser α :=
  fail ⟨.unexpected wanted found.text, found.span⟩

/-- Takes the next token, which has to be a given one. -/
def expect (kind : Token.Kind) (wanted : Wanted) : Parser Token := do
  let token ← next
  if token.kind = kind then return token else unexpected wanted token

/-- Takes a name. -/
def identifier : Parser Ident := do
  let token ← next
  if token.kind = .identifier then return ⟨token.text, token.span⟩
  else unexpected .identifier token

/-- Repeats a parser up to a closing symbol, which stays where it is. -/
def untilSymbol (close : Symbol) (element : Parser α) : Nat → Parser (List α)
  | 0 => failAtEnd
  | bound + 1 => do
    if ← sees (.symbol close) then
      return []
    else
      let first ← element
      let others ← untilSymbol close element bound
      return first :: others

/-- Takes a comma if there is one. -/
def optionalComma : Parser Unit := do
  let _ ← accept (.symbol .comma)
  return ()

/-! ## Expressions -/

/-- The operators of the lower level. -/
def additive : Token.Kind → Option Operator
  | .symbol .plus => some .add
  | .symbol .minus => some .sub
  | _ => none

/-- The operators of the higher level. -/
def multiplicative : Token.Kind → Option Operator
  | .symbol .star => some .mul
  | .symbol .slash => some .div
  | _ => none

/-- Takes an operator of a level if one is next. -/
def operator (level : Token.Kind → Option Operator) : Parser (Option Operator) := do
  let found ← peekKind
  match found.bind level with
  | some op =>
    let _ ← next
    return some op
  | none => return none

/-- Continues an expression with the operators of a level, grouping to the left. -/
def chain (level : Token.Kind → Option Operator) (operand : Parser Expr) :
    Nat → Expr → Parser Expr
  | 0, left => return left
  | bound + 1, left => do
    match ← operator level with
    | some op =>
      let right ← operand
      chain level operand bound (.binary op left right)
    | none => return left

/-- The literal that a token denotes. -/
def literalOf : Token.Kind → Option Literal
  | .string text => some (.string text)
  | .number n => some (.number n)
  | .typeName t => some (.type t)
  | _ => none

/-- Takes a literal. -/
def literal : Parser Expr := do
  let token ← next
  match literalOf token.kind with
  | some value => return .literal value token.span
  | none => unexpected .literal token

/-- Takes `const`, a name, an equals sign and an expression. -/
def binding (expression : Parser Expr) : Parser (Span × Ident × Expr) := do
  let keyword ← next
  let name ← identifier
  let _ ← expect (.symbol .equals) .equals
  let value ← expression
  return (keyword.span, name, value)

/-- Takes a statement. -/
def statement (expression : Parser Expr) : Parser Statement := do
  if ← sees .const then
    let (keyword, name, value) ← binding expression
    return .const keyword name value
  else
    let e ← expression
    return .expr e

/-- Takes a block. -/
def block (expression : Parser Expr) (bound : Nat) : Parser Block := do
  let opening ← expect (.symbol .leftBrace) .openBrace
  let statements ← untilSymbol .rightBrace (statement expression) bound
  let closing ← expect (.symbol .rightBrace) .closeBrace
  return ⟨statements, opening.span.merge closing.span⟩

/-- Takes an expression between parentheses. -/
def parenthesized (expression : Parser Expr) : Parser Expr := do
  let _ ← next
  let e ← expression
  let _ ← expect (.symbol .rightParen) .closeParen
  return e

/-- Takes a primary expression; the next token says which. -/
def primary (expression : Parser Expr) (bound : Nat) : Parser Expr := do
  match ← peekKind with
  | none => failAtEnd
  | some .identifier =>
    let name ← identifier
    return .name name
  | some (.symbol .leftBrace) =>
    let b ← block expression bound
    return .block b
  | some (.symbol .leftParen) => parenthesized expression
  | some _ => literal

/-- The type of the value in the place of a type, where a literal shows that it is none. -/
def misplacedLiteral : Expr → Option Ty
  | .literal (.type _) _ => none
  | .literal value _ => some value.ty
  | _ => none

/-- Takes a primary expression that can denote a type. -/
def typeExpr (expression : Parser Expr) (bound : Nat) : Parser Expr := do
  let e ← primary expression bound
  match misplacedLiteral e with
  | some t => fail ⟨.notAType t, e.span⟩
  | none => return e

/-- Takes an argument and the comma behind it. -/
def argument (expression : Parser Expr) : Parser Expr := do
  let e ← expression
  optionalComma
  return e

/-- Takes a primary expression and the arguments it is called with, if any follow. -/
def called (expression : Parser Expr) (bound : Nat) : Parser Expr := do
  let callee ← primary expression bound
  if ← sees (.symbol .leftParen) then
    let paren ← next
    let args ← untilSymbol .rightParen (argument expression) bound
    let close ← expect (.symbol .rightParen) .closeParen
    return .call callee args paren.span close.span
  else
    return callee

/-- Takes a call and the type it is coerced to, if one follows. -/
def coerced (expression : Parser Expr) (bound : Nat) : Parser Expr := do
  let value ← called expression bound
  if ← accept .as then
    let type ← typeExpr expression bound
    return .coerce value type
  else
    return value

/-- Takes operands and the operators of the higher level between them. -/
def factor (expression : Parser Expr) (bound : Nat) : Parser Expr := do
  let first ← coerced expression bound
  chain multiplicative (coerced expression bound) bound first

/-- Takes an expression, given how to take those nested in it. -/
def sum (expression : Parser Expr) (bound : Nat) : Parser Expr := do
  let first ← factor expression bound
  chain additive (factor expression bound) bound first

/-- Takes an expression of at most `bound` lexemes. -/
def expression : Nat → Parser Expr
  | 0 => failAtEnd
  | bound + 1 => sum (expression bound) bound

/-! ## Items -/

/-- Takes a parameter, its type and the comma behind it. -/
def param (bound : Nat) : Parser Param := do
  let name ← identifier
  let _ ← expect (.symbol .colon) .colon
  let type ← typeExpr (expression bound) bound
  optionalComma
  return ⟨name, type⟩

/-- Takes the definition of a function. -/
def function (bound : Nat) : Parser Item := do
  let ret ← typeExpr (expression bound) bound
  let name ← identifier
  let _ ← expect (.symbol .leftParen) .paramsStart
  let params ← untilSymbol .rightParen (param bound) bound
  let _ ← expect (.symbol .rightParen) .paramsEnd
  let body ← block (expression bound) bound
  let unit ← unit
  return ⟨name, .function ⟨unit, ret, params, body⟩⟩

/-- Takes the declaration of a constant. -/
def constant (bound : Nat) : Parser Item := do
  let (_, name, value) ← binding (expression bound)
  return ⟨name, value⟩

/-- Takes an item. There is none at the end of the text. -/
def item : Parser (Option Item) := fun source ls =>
  let bound := ls.length
  let parser : Parser (Option Item) := do
    match ← peekKind with
    | none => return none
    | some .const =>
      let i ← constant bound
      return some i
    | some _ =>
      let i ← function bound
      return some i
  parser source ls

/-- The results of asking for an item a number of times, problem or not. -/
def items (source : Source) : Nat → List Lexeme → List (Except Diagnostic (Option Item))
  | 0, _ => []
  | calls + 1, ls =>
    let (result, rest) := item source ls
    result :: items source calls rest

end Parser

/-- What parsing a text came to: the items, each with the lexemes behind it, and the problem that
ended the parse, if one did, with the lexemes behind that. -/
structure Parse where
  items : List (Item × List Lexeme)
  problem : Option (Diagnostic × List Lexeme)

namespace Parse

/-- Parses lexemes, of which there are at most `bound`. -/
def ofLexemes (source : Source) : Nat → List Lexeme → Parse
  | 0, _ => ⟨[], none⟩
  | bound + 1, ls =>
    match Parser.item source ls with
    | (.ok none, _) => ⟨[], none⟩
    | (.ok (some i), rest) =>
      let p := ofLexemes source bound rest
      ⟨(i, rest) :: p.items, p.problem⟩
    | (.error d, rest) => ⟨[], some (d, rest)⟩

/-- The program, or the problem that keeps the text from being one. -/
def program (p : Parse) : Except Diagnostic (List Item) :=
  match p.problem with
  | some (d, _) => .error d
  | none => .ok (p.items.map Prod.fst)

end Parse

/-- The end of a text and its number, as the parser needs them. -/
def Source.ofText (unit : Nat) (text : String) : Source := ⟨unit, text.utf8ByteSize⟩

/-- Parses a text. -/
def Parse.ofText (unit : Nat) (text : String) : Parse :=
  let lexemes := Lexeme.ofText text
  ofLexemes (Source.ofText unit text) lexemes.length lexemes

/-- The items of a text, or its first problem. -/
def Item.ofText (unit : Nat) (text : String) : Except Diagnostic (List Item) :=
  (Parse.ofText unit text).program

end ExprLang
