import ExprLang.Span
import ExprLang.Ty
import ExprLang.Operator

/-!
# Diagnostics

A diagnostic is a problem and the span it points at. A `Problem` names its cause; the kind it counts
as, the message and the note beside the marked text all follow from the cause (`Problem.kind`,
`Problem.message`, `Problem.note`). The functions of a host report problems of their own
making, with a kind and their own words (`Problem.reported`).
-/

namespace ExprLang

/-- The kinds of problems. -/
inductive Kind where
  | eof
  | invalidNumber
  | unknownCharacter
  | expectedLiteral
  | expectedIdentifier
  | expectedParamsStart
  | expectedParamsEnd
  | expectedColon
  | expectedOpenBrace
  | expectedCloseBrace
  | expectedComma
  | expectedCloseParen
  | expectedEquals
  | mismatchedTypes
  | cantOperate
  | wrongType
  | coercionFailure
  | expectedType
  | expectedFunction
  | arithmeticError
  | variableNotFound
  | variableUninitialized
  | missingArgument
  | extraArgument
  | alreadyDeclared
  | immutableVariable
  | missingMain
  | hostError
deriving DecidableEq, Repr

/-- What a problem of a kind is called where nothing more is known about it. -/
def Kind.message : Kind → String
  | eof => "unexpected end of file"
  | invalidNumber => "invalid integer literal"
  | unknownCharacter => "unknown character"
  | expectedLiteral => "expected literal"
  | expectedIdentifier => "expected identifier"
  | expectedParamsStart => "expected beginning of function params"
  | expectedParamsEnd => "expected ending of function params"
  | expectedColon => "expected colon"
  | expectedOpenBrace => "expected opening brace"
  | expectedCloseBrace => "expected closing brace"
  | expectedComma => "expected comma"
  | expectedCloseParen => "expected closing parenthesis"
  | expectedEquals => "expected equals"
  | mismatchedTypes => "mismatched types"
  | cantOperate => "can't operate on type"
  | wrongType => "wrong type"
  | coercionFailure => "failed to coerce"
  | expectedType => "expected type"
  | expectedFunction => "expected function value"
  | arithmeticError => "arithmetic error"
  | variableNotFound => "variable not found"
  | variableUninitialized => "variable not initialized"
  | missingArgument => "missing argument"
  | extraArgument => "extra argument"
  | alreadyDeclared => "name already declared in this scope"
  | immutableVariable => "cannot assign to this binding"
  | missingMain => "missing main function"
  | hostError => "native function failed"

/-- What the grammar asks for next at a token that does not fit. -/
inductive Wanted where
  | literal
  | identifier
  | paramsStart
  | paramsEnd
  | colon
  | openBrace
  | closeBrace
  | closeParen
  | equals
deriving DecidableEq, Repr

/-- The kind of the problem that a token does not fit. -/
def Wanted.kind : Wanted → Kind
  | literal => .expectedLiteral
  | identifier => .expectedIdentifier
  | paramsStart => .expectedParamsStart
  | paramsEnd => .expectedParamsEnd
  | colon => .expectedColon
  | openBrace => .expectedOpenBrace
  | closeBrace => .expectedCloseBrace
  | closeParen => .expectedCloseParen
  | equals => .expectedEquals

/-- The cause of a diagnostic. -/
inductive Problem where
  /-- The text ended inside a string literal. -/
  | unclosedString
  /-- A text that starts like a number and is none. -/
  | malformedNumber
  /-- A character that starts no token. -/
  | unknownCharacter (c : Char)
  /-- The text ended where a token was required. -/
  | unexpectedEnd
  /-- A token other than the one required. -/
  | unexpected (wanted : Wanted) (found : String)
  /-- A value other than a type where a type is required. -/
  | notAType (found : Ty)
  /-- A value other than a function where a function is required. -/
  | notAFunction (found : Ty)
  /-- A name that no scope declares. -/
  | unbound (name : String)
  /-- A variable without a value. -/
  | unset (name : String)
  /-- Operands of unlike types. -/
  | mismatched (op : Operator) (left right : Ty)
  /-- Operands of a type the operator does not take. -/
  | inoperable (op : Operator) (operand : Ty)
  /-- An integer divided by zero. -/
  | divisionByZero
  /-- An integer result that its type does not hold. -/
  | overflow (op : Operator)
  /-- A value that cannot become one of the type asked for. -/
  | notCoercible (found target : Ty)
  /-- A parameter without an argument. -/
  | missingArgument (param : String)
  /-- An argument without a parameter. -/
  | extraArgument
  /-- An argument that cannot become one of the parameter's type. -/
  | wrongArgument (expected found : Ty)
  /-- A result that cannot become one of the function's return type. -/
  | wrongResult (expected found : Ty)
  /-- A name declared twice in a scope. -/
  | redeclared (name : String)
  /-- An assigned value that cannot become one of the variable's type. -/
  | wrongAssignment (name : String) (expected found : Ty)
  /-- An assignment to a constant. -/
  | assignedConstant (name : String)
  /-- An assignment to a name of an enclosing scope. -/
  | assignedOuter (name : String)
  /-- A program without `main`. -/
  | noMain
  /-- A function `main` with parameters. -/
  | mainHasParams
  /-- A `main` that is no function of the program. -/
  | mainNotDefined (found : Option Ty)
  /-- No function of the name to start from. -/
  | noSuchFunction (name : String)
  /-- An output that refused what was written to it. -/
  | printFailed (reason : String)
  /-- A problem reported by a host, in its own words if it has any. -/
  | reported (kind : Kind) (message : Option String) (note : Option String)
deriving DecidableEq, Repr

namespace Problem

/-- What a problem counts as. -/
def kind : Problem → Kind
  | unclosedString => .eof
  | malformedNumber => .invalidNumber
  | unknownCharacter _ => .unknownCharacter
  | unexpectedEnd => .eof
  | unexpected wanted _ => wanted.kind
  | notAType _ => .expectedType
  | notAFunction _ => .expectedFunction
  | unbound _ => .variableNotFound
  | unset _ => .variableUninitialized
  | mismatched _ _ _ => .mismatchedTypes
  | inoperable _ _ => .cantOperate
  | divisionByZero => .arithmeticError
  | overflow _ => .arithmeticError
  | notCoercible _ _ => .coercionFailure
  | missingArgument _ => .missingArgument
  | extraArgument => .extraArgument
  | wrongArgument _ _ => .wrongType
  | wrongResult _ _ => .wrongType
  | redeclared _ => .alreadyDeclared
  | wrongAssignment _ _ _ => .wrongType
  | assignedConstant _ => .immutableVariable
  | assignedOuter _ => .immutableVariable
  | noMain => .missingMain
  | mainHasParams => .wrongType
  | mainNotDefined _ => .wrongType
  | noSuchFunction _ => .variableNotFound
  | printFailed _ => .hostError
  | reported k _ _ => k

/-- The headline of a problem. -/
def message : Problem → String
  | unknownCharacter c => "unknown character '" ++ c.toString ++ "'"
  | unexpected wanted found => wanted.kind.message ++ ", found '" ++ found ++ "'"
  | notAType found => "expected type, found " ++ found.name
  | notAFunction found => "expected function, found " ++ found.name
  | unbound name => "variable '" ++ name ++ "' not found"
  | unset name => "variable '" ++ name ++ "' is uninitialized"
  | mismatched op _ _ => "mismatched types in operator '" ++ op.symbol ++ "'"
  | inoperable op operand => "operator '" ++ op.symbol ++ "' can't operate on type " ++ operand.name
  | divisionByZero => "attempt to divide by zero"
  | overflow op => "arithmetic overflow in operator '" ++ op.symbol ++ "'"
  | notCoercible found target => "cannot coerce " ++ found.name ++ " to " ++ target.name
  | missingArgument param => "missing argument " ++ param
  | wrongResult _ _ => "wrong return type"
  | redeclared name => "'" ++ name ++ "' is already declared in this scope"
  | wrongAssignment name expected found =>
    "cannot assign " ++ found.name ++ " to '" ++ name ++ "' of type " ++ expected.name
  | assignedConstant name => "cannot assign to constant '" ++ name ++ "'"
  | assignedOuter name =>
    "'" ++ name ++ "' belongs to an enclosing scope and cannot be assigned here"
  | mainHasParams => "wrong signature for main function"
  | mainNotDefined _ => "wrong type for main function"
  | noSuchFunction name => "function '" ++ name ++ "' not found"
  | printFailed reason => "println failed: " ++ reason
  | reported k message _ => message.getD k.message
  | p => p.kind.message

/-- What was expected and what was found instead. -/
def expectedFound (expected found : String) : String :=
  "expected " ++ expected ++ ", found " ++ found

/-- The note beside the marked text. -/
def note : Problem → Option String
  | unclosedString => some "string literal is never closed"
  | mismatched _ left right => some ("found " ++ left.name ++ " and " ++ right.name)
  | wrongArgument expected found => some (expectedFound expected.name found.name)
  | wrongResult expected found => some (expectedFound expected.name found.name)
  | wrongAssignment _ expected found => some (expectedFound expected.name found.name)
  | mainHasParams => some "main takes no parameters"
  | mainNotDefined found => some (expectedFound "function" ((found.map Ty.name).getD "nothing"))
  | reported _ _ note => note
  | _ => none

end Problem

/-- A problem and where it lies. -/
structure Diagnostic where
  problem : Problem
  span : Span
deriving DecidableEq, Repr

namespace Diagnostic

/-- What the problem counts as. -/
def kind (d : Diagnostic) : Kind := d.problem.kind

/-- The headline of the problem. -/
def message (d : Diagnostic) : String := d.problem.message

/-- The note beside the marked text. -/
def note (d : Diagnostic) : Option String := d.problem.note

end Diagnostic

end ExprLang
