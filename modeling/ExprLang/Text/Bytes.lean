/-!
# Text measured in bytes

Positions in a source text are byte offsets into its UTF-8 form. `byteSize` measures text in bytes,
`splitAtByte` cuts it at an offset, which only an offset between two characters allows, and
`leadByte` is the first byte of a character.
-/

namespace ExprLang.Text

/-- The number of bytes the characters take in UTF-8. -/
def byteSize : List Char → Nat
  | [] => 0
  | c :: cs => c.utf8Size + byteSize cs

/-- Cuts the text before byte `n`. There is no cut inside a character or past the end. -/
def splitAtByte : Nat → List Char → Option (List Char × List Char)
  | 0, cs => some ([], cs)
  | _ + 1, [] => none
  | n + 1, c :: cs =>
    if c.utf8Size ≤ n + 1 then
      (splitAtByte (n + 1 - c.utf8Size) cs).map fun (before, after) => (c :: before, after)
    else none

/-- The first byte of a character's UTF-8 form. -/
def leadByte (c : Char) : Nat :=
  let n := c.toNat
  if n < 0x80 then n
  else if n < 0x800 then 0xC0 + n / 0x40
  else if n < 0x10000 then 0xE0 + n / 0x1000
  else 0xF0 + n / 0x40000

@[simp] theorem byteSize_nil : byteSize [] = 0 := rfl

@[simp] theorem byteSize_cons (c : Char) (cs : List Char) :
    byteSize (c :: cs) = c.utf8Size + byteSize cs := rfl

@[simp] theorem byteSize_append (cs ds : List Char) :
    byteSize (cs ++ ds) = byteSize cs + byteSize ds := by
  induction cs with
  | nil => simp
  | cons c cs ih => simp [ih, Nat.add_assoc]

theorem byteSize_take_lt {cs : List Char} {i : Nat} (hi : i < cs.length) :
    byteSize (cs.take i) < byteSize cs := by
  have hsplit := congrArg byteSize (List.take_append_drop i cs)
  rw [byteSize_append, List.drop_eq_getElem_cons hi, byteSize_cons] at hsplit
  have hpos := cs[i].utf8Size_pos
  omega

/-- Text can be cut behind any of its beginnings. -/
theorem splitAtByte_append (cs ds : List Char) :
    splitAtByte (byteSize cs) (cs ++ ds) = some (cs, ds) := by
  induction cs with
  | nil => simp [splitAtByte]
  | cons c cs ih =>
    have hpos : 0 < c.utf8Size := c.utf8Size_pos
    obtain ⟨k, hk⟩ : ∃ k, byteSize (c :: cs) = k + 1 := ⟨byteSize (c :: cs) - 1, by simp; omega⟩
    rw [hk, List.cons_append, splitAtByte, if_pos (by simp at hk; omega)]
    have hrest : k + 1 - c.utf8Size = byteSize cs := by simp at hk; omega
    rw [hrest, ih]
    rfl

end ExprLang.Text
