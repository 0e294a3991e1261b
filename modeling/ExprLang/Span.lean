import ExprLang.Text.Bytes

/-!
# Spans

A span is a half-open range of byte offsets into a source text. Everything that is read from a
source carries one, and a diagnostic points at one.
-/

namespace ExprLang

/-- The bytes from `start` up to, not including, `stop`. -/
structure Span where
  start : Nat
  stop : Nat
deriving DecidableEq, Repr, Inhabited

namespace Span

/-- The span of width zero at an offset. -/
def point (offset : Nat) : Span := ⟨offset, offset⟩

/-- The start of the text, where problems of the program as a whole are reported. -/
def origin : Span := point 0

/-- The number of bytes. -/
def length (s : Span) : Nat := s.stop - s.start

/-- Whether the span has width zero. -/
def isEmpty (s : Span) : Bool := s.start == s.stop

/-- The least span that holds both. -/
def merge (a b : Span) : Span := ⟨min a.start b.start, max a.stop b.stop⟩

/-- The text a span denotes, where it denotes one: both ends lie in the text and between two of its
characters, in this order. -/
def slice? (s : Span) (text : List Char) : Option (List Char) :=
  if s.start ≤ s.stop then
    (Text.splitAtByte s.start text).bind fun (_, rest) =>
      (Text.splitAtByte s.length rest).map Prod.fst
  else none

/-- The text a span denotes, empty where it denotes none. -/
def apply (s : Span) (text : String) : String :=
  String.ofList ((s.slice? text.toList).getD [])

@[simp] theorem merge_start (a b : Span) : (a.merge b).start = min a.start b.start := rfl

@[simp] theorem merge_stop (a b : Span) : (a.merge b).stop = max a.stop b.stop := rfl

/-- A piece in the middle of a text is what its span denotes. -/
theorem slice?_append (before piece after : List Char) :
    slice? ⟨Text.byteSize before, Text.byteSize before + Text.byteSize piece⟩
      (before ++ piece ++ after) = some piece := by
  have hcut : Text.splitAtByte (Text.byteSize before) (before ++ (piece ++ after))
      = some (before, piece ++ after) := Text.splitAtByte_append _ _
  simp [slice?, length, hcut, Text.splitAtByte_append]

end Span

end ExprLang
