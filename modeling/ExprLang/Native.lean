import ExprLang.Run

/-!
# Native functions

The native functions that the library provides. `println` is the one every program starts with; the
others are small building blocks for a host: constants, counters, functions that fail, and functions
that look at their arguments, at the environment of the call or call another function.

A table of natives is a host: the handle of a function is its place in the table, and the table
counts the calls of each.
-/

namespace ExprLang

/-- A native function. -/
inductive Native where
  /-- Prints its arguments, each on a line. -/
  | println
  /-- Gives a value. -/
  | constant (value : Value)
  /-- Fails with a problem. -/
  | fail (problem : Problem)
  /-- Gives the number of its calls. -/
  | counter
  /-- Fails a number of times and then gives a value. -/
  | failFirst (times : Nat) (value : Value)
  /-- Gives a text that describes its arguments. -/
  | describe
  /-- Gives the value of a name where the call stands, or `void`. -/
  | lookup
  /-- Gives the value of a name in the root, or `void`. -/
  | rootLookup
  /-- Calls its first argument with the others. -/
  | apply
  /-- Gives one of its arguments. -/
  | argument (index : Nat)

/-- Native functions with the numbers of their calls. -/
abbrev Natives := List (Native × Nat)

namespace Native

variable {σ : Type}

/-- A problem of a kind, in the words of the kind. -/
def plain (kind : Kind) : Problem := .reported kind none none

/-- Prints arguments up to the first that the output refuses. -/
def printAll : List Argument → Sink → Except Diagnostic Value × Sink
  | [], sink => (.ok .void, sink)
  | a :: rest, sink =>
    match sink.writeLine a.value.pieces with
    | (true, sink) => printAll rest sink
    | (false, sink) => (.error ⟨.printFailed Sink.refusal, a.span⟩, sink)

/-- A span as the offsets of its ends. -/
def spanText (s : Span) : String := toString s.start ++ ".." ++ toString s.stop

/-- An argument as its type, its text and its span. -/
def describeArgument (a : Argument) : String :=
  a.value.ty.name ++ ":" ++ a.value.text ++ "@" ++ spanText a.span

/-- Arguments and the opening parenthesis, separated by spaces. -/
def describeAll (args : List Argument) (paren : Span) : String :=
  " ".intercalate (args.map describeArgument ++ ["paren@" ++ spanText paren])

/-- The value of the name that the first argument is. -/
def lookupIn (env : Env) (args : List Argument) (paren : Span) : Except Diagnostic Value :=
  match args with
  | ⟨.string name, _⟩ :: _ => .ok (((env.get? name).bind Slot.value?).getD .void)
  | _ => .error ⟨plain .wrongType, paren⟩

/-- What a native function does at its call number `calls`. -/
def reply (native : Native) (calls : Nat) (args : List Argument) (env : Env) (paren : Span)
    (w : World σ) : Reply σ :=
  match native with
  | println =>
    let (outcome, sink) := printAll args w.sink
    .done outcome { w with sink }
  | constant v => .done (.ok v) w
  | fail problem => .done (.error ⟨problem, paren⟩) w
  | counter => .done (.ok (.int (.sized .unsigned .w32) (Integer.wrap _ calls))) w
  | failFirst times v =>
    if calls ≤ times then
      let message := "not ready (" ++ toString calls ++ ")"
      .done (.error ⟨.reported .hostError (some message) none, paren⟩) w
    else .done (.ok v) w
  | describe => .done (.ok (.string (describeAll args paren))) w
  | lookup => .done (lookupIn env args paren) w
  | rootLookup => .done (lookupIn env.atRoot args paren) w
  | apply =>
    match args with
    | ⟨.function f, _⟩ :: rest => .call f rest env paren w .done
    | _ => .done (.error ⟨plain .expectedFunction, paren⟩) w
  | argument index =>
    match args[index]? with
    | some a => .done (.ok a.value) w
    | none => .done (.error ⟨plain .missingArgument, paren⟩) w

end Native

namespace Natives

/-- The table of `println` alone. -/
def initial : Natives := [(.println, 0)]

/-- Adds a native function, and gives its handle. -/
def add (natives : Natives) (native : Native) : Nat × Natives :=
  (natives.length, natives ++ [(native, 0)])

/-- Counts a call. -/
def count (handle : Nat) (natives : Natives) : Natives :=
  natives.modify handle fun (native, calls) => (native, calls + 1)

/-- The host of a table. -/
def host : Host Natives where
  invoke handle args env paren w :=
    match w.host[handle]? with
    | some (native, calls) =>
      native.reply (calls + 1) args env paren { w with host := w.host.count handle }
    | none => .done (.error ⟨Native.plain .hostError, paren⟩) w

end Natives

end ExprLang
