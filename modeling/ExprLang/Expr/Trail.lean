import ExprLang.Expr.Parser
import ExprLang.Event

/-!
# The trail of a parse

The events of a parse, in the order in which a parser that looks at most one token ahead meets
them: a token when it is first looked at, an item when it is complete. Behind a constant one token
has been looked at already, to see that the expression does not go on; a function ends with its
brace.
-/

namespace ExprLang

namespace Parse

/-- The events of looking at lexemes. Those that read as a problem leave none. -/
def lexedEvents (ls : List Lexeme) : List Event :=
  (ls.filterMap Lexeme.token?).map fun t => .lexed t.kind t.span

/-- The number of lexemes behind an item that have been looked at when it is complete. -/
def lookahead (i : Item) : Nat := if i.isFunction then 0 else 1

/-- The events of items and what follows them, where `unseen` are the lexemes not yet looked at. -/
def trailFrom (problem : Option (Diagnostic × List Lexeme)) (total : Nat) :
    List (Item × List Lexeme) → List Lexeme → List Event
  | [], unseen =>
    match problem with
    | some (_, rest) => lexedEvents (unseen.take (unseen.length - rest.length))
    | none => lexedEvents unseen ++ [.parsedProgram total]
  | (i, rest) :: items, unseen =>
    let left := rest.length - lookahead i
    lexedEvents (unseen.take (unseen.length - left)) ++ [.parsedItem i.name.name] ++
      trailFrom problem total items (unseen.drop (unseen.length - left))

/-- The events of parsing lexemes. -/
def trail (p : Parse) (ls : List Lexeme) : List Event :=
  trailFrom p.problem p.items.length p.items ls

end Parse

end ExprLang
