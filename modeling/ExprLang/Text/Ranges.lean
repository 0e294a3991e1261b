/-!
# Character classes as range tables

A class of characters is given by the closed ranges of code points it holds. `Ranges.has` is
membership; the tables themselves stand in the modules named for each class.
-/

namespace ExprLang.Text

/-- A class of characters, as closed ranges of code points in increasing order. -/
abbrev Ranges := List (Nat × Nat)

/-- Whether some range of the class holds the character. -/
def Ranges.has (ranges : Ranges) (c : Char) : Bool :=
  ranges.any fun (first, last) => first ≤ c.toNat && c.toNat ≤ last

theorem Ranges.has_iff {ranges : Ranges} {c : Char} :
    ranges.has c = true ↔ ∃ r ∈ ranges, r.1 ≤ c.toNat ∧ c.toNat ≤ r.2 := by
  simp [Ranges.has]

end ExprLang.Text
