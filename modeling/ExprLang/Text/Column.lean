/-!
# Padding to a column

`alignRight` and `alignLeft` fill text with spaces up to a width counted in characters. Text that is
already as wide is kept as it is.
-/

namespace ExprLang.Text

/-- `n` times the same character. -/
def repeated (n : Nat) (c : Char) : String := String.ofList (List.replicate n c)

/-- Fills up with spaces on the left. -/
def alignRight (width : Nat) (s : String) : String := repeated (width - s.length) ' ' ++ s

/-- Fills up with spaces on the right. -/
def alignLeft (width : Nat) (s : String) : String := s ++ repeated (width - s.length) ' '

end ExprLang.Text
