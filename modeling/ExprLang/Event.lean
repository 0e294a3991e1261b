import ExprLang.Token
import ExprLang.Diagnostic

/-!
# Events

What happens while a program is read, resolved and run. Events are recorded in the order in which
they happen, and a reader selects those up to a level of detail.
-/

namespace ExprLang

/-- How much detail an event is. -/
inductive Level where
  | error
  | debug
  | trace
deriving DecidableEq, Repr

namespace Level

/-- The rank of a level, the most urgent first. -/
def rank : Level → Nat
  | error => 0
  | debug => 1
  | trace => 2

/-- The name of a level in a record. -/
def name : Level → String
  | error => "ERROR"
  | debug => "DEBUG"
  | trace => "TRACE"

end Level

/-- Something that happened. -/
inductive Event where
  | lexed (kind : Token.Kind) (span : Span)
  | parsedItem (name : String)
  | parsedProgram (items : Nat)
  | registered (name : String)
  | deferred (pass : Nat) (name : String) (problem : Problem)
  | passEnded (pass resolved left : Nat)
  | calledDefined (args : Nat)
  | calledNative (name : String)
  | mainReturned (text : String)
  | reportLost (reason : String)
deriving DecidableEq, Repr

namespace Event

/-- How much detail an event is. -/
def level : Event → Level
  | lexed _ _ => .trace
  | parsedItem _ => .trace
  | parsedProgram _ => .debug
  | registered _ => .debug
  | deferred _ _ _ => .debug
  | passEnded _ _ _ => .debug
  | calledDefined _ => .trace
  | calledNative _ => .trace
  | mainReturned _ => .debug
  | reportLost _ => .error

/-- An event in words. -/
def message : Event → String
  | lexed kind span =>
    "lexed " ++ kind.listing ++ " at " ++ toString span.start ++ ".." ++ toString span.stop
  | parsedItem name => "parsed item '" ++ name ++ "'"
  | parsedProgram items => "parsed " ++ toString items ++ " top-level item(s)"
  | registered name => "registering native '" ++ name ++ "'"
  | deferred pass name problem =>
    "pass " ++ toString pass ++ ": deferring '" ++ name ++ "': " ++ problem.message
  | passEnded pass resolved left =>
    "pass " ++ toString pass ++ ": resolved " ++ toString resolved ++ " constant(s), " ++
      toString left ++ " left"
  | calledDefined args => "calling interpreted function with " ++ toString args ++ " argument(s)"
  | calledNative name => "calling native function " ++ name
  | mainReturned text => "main returned " ++ text
  | reportLost reason => "could not write diagnostic: " ++ reason

/-- An event as a line of a record. -/
def line (e : Event) : String := e.level.name ++ " " ++ e.message

/-- The lines of the events up to a level. -/
def lines (level : Level) (events : List Event) : List String :=
  (events.filter fun e => e.level.rank ≤ level.rank).map line

end Event

end ExprLang
