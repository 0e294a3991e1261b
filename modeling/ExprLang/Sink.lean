/-!
# Output

A sink takes the text that a program writes. It may have room for a number of lines only: once it
has taken that many it refuses everything.
-/

namespace ExprLang

/-- Where text is written: how many lines there is room for, how many were taken, and the text. -/
structure Sink where
  limit : Option Nat
  lines : Nat
  written : String
deriving DecidableEq, Repr

namespace Sink

/-- A sink that has taken nothing yet. -/
def empty (limit : Option Nat) : Sink := ⟨limit, 0, ""⟩

/-- What a sink says when it refuses. -/
def refusal : String := "sink full"

/-- Whether a sink has no room left. -/
def isFull (s : Sink) : Bool :=
  match s.limit with
  | some limit => limit ≤ s.lines
  | none => false

/-- The number of line ends in a text. -/
def lineEnds (text : String) : Nat := text.toList.count '\n'

/-- Writes a text, all of it or nothing. There is always room for the empty text. -/
def write? (s : Sink) (text : String) : Option Sink :=
  if text.isEmpty then some s
  else if s.isFull then none
  else some { s with lines := s.lines + lineEnds text, written := s.written ++ text }

/-- Writes texts one after the other, up to the first that is refused. What was taken before stays
written, so the sink after a failure is given too. -/
def writeAll (s : Sink) : List String → Bool × Sink
  | [] => (true, s)
  | text :: rest =>
    match s.write? text with
    | none => (false, s)
    | some s => s.writeAll rest

/-- Writes the pieces of a line and then a line end. -/
def writeLine (s : Sink) (pieces : List String) : Bool × Sink := s.writeAll (pieces ++ ["\n"])

/-- Takes the text out of a sink, which still counts its lines. -/
def drain (s : Sink) : String × Sink := (s.written, { s with written := "" })

end Sink

end ExprLang
