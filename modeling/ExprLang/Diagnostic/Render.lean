import ExprLang.Diagnostic
import ExprLang.Text.Blank
import ExprLang.Text.Column

/-!
# Diagnostics as text

A diagnostic is shown with the lines of the source that its span covers, and carets under the marked
characters:

    Error: variable 'x' not found
     --> demo:1:12
      |
    1 | u8 main() { x }
      |             ^

Lines are counted from one and columns from zero, in characters. Of the lines between the first and
the last one the blank ones are left out, and the note stands behind the last carets.
-/

namespace ExprLang

/-- A text to point into, and where it came from. -/
structure Document where
  path : String
  text : String
deriving DecidableEq, Repr

/-- The end of a text. -/
def Document.eof (d : Document) : Span := Span.point d.text.utf8ByteSize

/-- Whether output is highlighted for a terminal. -/
inductive Style where
  | plain
  | coloured
deriving DecidableEq, Repr

namespace Style

/-- A text in bold and in a colour, between the codes that switch both on and off. -/
def highlight (colour : String) (text : String) : String :=
  "\x1b[1m\x1b[" ++ colour ++ "m" ++ text ++ "\x1b[39m\x1b[0m"

/-- What went wrong: red. -/
def alert : Style → String → String
  | plain, text => text
  | coloured, text => highlight "31" text

/-- What is important: white. -/
def strong : Style → String → String
  | plain, text => text
  | coloured, text => highlight "37" text

end Style

/-- A line of a text, without its end, and the byte at which it starts. -/
structure Line where
  start : Nat
  text : List Char
deriving DecidableEq, Repr

namespace Line

/-- The byte behind the last character. -/
def stop (l : Line) : Nat := l.start + Text.byteSize l.text

/-- The lines of a text whose first character stands at the byte `start`. -/
def split (start : Nat) : List Char → List Line
  | [] => [⟨start, []⟩]
  | c :: cs =>
    if c = '\n' then ⟨start, []⟩ :: split (start + 1) cs
    else
      match split (start + c.utf8Size) cs with
      | first :: rest => ⟨start, c :: first.text⟩ :: rest
      | [] => [⟨start, [c]⟩]

/-- The index of the line that holds an offset. An offset past the end belongs to the last line. -/
def indexOf (lines : List Line) (offset : Nat) : Nat :=
  (lines.takeWhile fun l => l.start ≤ offset).length - 1

/-- Whether a line holds white space alone. -/
def isBlank (l : Line) : Bool := l.text.all Text.isBlank

/-- The characters shown of a line: all but the carriage returns at its end. -/
def shown (l : Line) : List Char := (l.text.reverse.dropWhile (· == '\r')).reverse

end Line

/-- The number of characters before a byte offset, which past the end is that of all. -/
def column (text : List Char) (offset : Nat) : Nat :=
  let offset := min offset (Text.byteSize text)
  match Text.splitAtByte offset text with
  | some (before, _) => before.length
  | none => offset

namespace Diagnostic

/-- The characters of a line before the carets, and the carets: at least one. -/
def marks (span : Span) (l : Line) : Nat × Nat :=
  let start := max span.start l.start
  let stop := max (min span.stop l.stop) start
  let lead := column l.shown (start - l.start)
  (lead, max (column l.shown (stop - l.start) - lead) 1)

/-- A line under its number, and a run of carets below it behind `lead` spaces. -/
def drawn (style : Style) (width : Nat) (l : Line) (index lead carets : Nat) : String :=
  "\n" ++ Text.alignRight width (toString (index + 1)) ++ " | " ++ String.ofList l.shown ++
    "\n" ++ Text.repeated width ' ' ++ " | " ++ Text.repeated lead ' ' ++
    style.alert (Text.repeated carets '^')

/-- The rows for a line: its number and text, and the carets below it. -/
def rows (style : Style) (span : Span) (width : Nat) (l : Line) (index : Nat) : String :=
  let (lead, carets) := marks span l
  drawn style width l index lead carets

/-- The lines a diagnostic shows, with their indices. -/
def coveredLines (lines : List Line) (first last : Nat) : List (Line × Nat) :=
  lines.zipIdx.filter fun (l, i) =>
    i == first || i == last || (first < i && i < last && !l.isBlank)

/-- The index of the last line a span covers. -/
def lastIndex (lines : List Line) (span : Span) (first : Nat) : Nat :=
  if span.isEmpty then first else max (Line.indexOf lines (span.stop - 1)) first

/-- The three rows above the source lines. -/
def header (style : Style) (path message : String) (width line col : Nat) : String :=
  let pad := Text.repeated width ' '
  style.alert "Error" ++ style.strong ":" ++ " " ++ style.strong message ++
    "\n" ++ pad ++ "--> " ++ path ++ ":" ++ toString line ++ ":" ++ toString col ++
    "\n" ++ pad ++ " |"

/-- The note behind the last carets. -/
def noteText (style : Style) (note : Option String) : String :=
  match note with
  | some text => " " ++ style.alert text
  | none => ""

/-- The text of a diagnostic about a document. -/
def render (style : Style) (doc : Document) (d : Diagnostic) : String :=
  let lines := Line.split 0 doc.text.toList
  let first := Line.indexOf lines d.span.start
  let last := lastIndex lines d.span first
  let firstLine := lines.getD first ⟨0, []⟩
  let col := column firstLine.text (d.span.start - firstLine.start)
  let width := (toString (last + 1)).length
  let shown := (coveredLines lines first last).map fun (l, i) => rows style d.span width l i
  header style doc.path d.message width (first + 1) col ++ String.join shown ++
    noteText style d.note

end Diagnostic

end ExprLang
