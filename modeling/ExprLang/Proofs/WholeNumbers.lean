import ExprLang.Proofs.Numbers
import ExprLang.Proofs.Placement
import ExprLang.Proofs.Rounding

/-!
# Whole numbers

A whole number that is written with digits alone is read as a floating-point number, whatever its
suffix, and then becomes an integer: by way of the integer type that the suffix names, or directly.
Up to `2 ^ 53` nothing is lost on any of these ways. The floating-point number is the number itself
(`Binary.toRat?_toBinary`), so is the literal (`WrittenNumber.integer?_toValue`), and a type of 64
bits holds it, while a narrower one keeps it modulo the number of its values
(`Lexeme.ofText_wholeNumber`).
-/

namespace ExprLang

/-! ## Reading digits -/

/-- Digits alone are a decimal without a fraction and without an exponent. -/
theorem Decimal.parse?_of_digits {cs : List Char} (hne : cs ≠ [])
    (hdigits : ∀ c ∈ cs, c.isDigit = true) : parse? cs = some ⟨Nat.ofDigitChars 10 cs 0, 0⟩ := by
  have htake : cs.takeWhile Char.isDigit = cs := List.takeWhile_eq_self_iff.2 hdigits
  have hdrop : cs.dropWhile Char.isDigit = [] := List.dropWhile_eq_nil_iff.2 hdigits
  rw [parse?_eq, htake, hdrop, if_neg hne]
  simp [splitFraction, parseExponent?, ofDigits, Nat.ofDigitChars]

namespace Binary

variable {f : Format}

/-- No number up to `2 ^ 53` has more digits than are looked at. -/
theorem digitCount_le {n : ℕ} (hn : n ≤ 2 ^ 53) : Decimal.digitCount n ≤ 17 := by
  refine (Nat.length_toDigits_le_iff (by decide) (by decide)).2 ?_
  omega

theorem toBinary_natural {n : ℕ} (hn : n ≤ 2 ^ 53) :
    Decimal.toBinary f ⟨n, 0⟩ = round f false n 1 := by
  have hcount := digitCount_le hn
  by_cases hzero : n = 0
  · subst hzero
    rfl
  · have hsmall : ¬(Decimal.digitCount n : ℤ) < -400 := by omega
    have hlarge : ¬400 < Decimal.digitCount n := by omega
    simp [Decimal.toBinary, hzero, hsmall, hlarge]

/-- An integer that the format has is read exactly. -/
theorem toRat?_toBinary {n : ℕ} (hn : n ≤ 2 ^ 53) (hf : n ≤ 2 ^ f.precision) :
    (Decimal.toBinary f ⟨n, 0⟩).toRat? = some (n : ℚ) := by
  have hhas : f.Has ((n : ℚ) / (1 : ℕ)) := by
    rw [Nat.cast_one, div_one]
    exact Format.has_natCast hf
  rw [toBinary_natural hn, toRat?_round one_ne_zero hhas]
  simp

theorem toIntWithin_natCast {x : Binary f} {n : ℕ} (h : x.toRat? = some (n : ℚ))
    {least greatest : ℤ} (hleast : least ≤ n) (hgreatest : n ≤ greatest) :
    x.toIntWithin least greatest = n := by
  have hpart : towardZero (n : ℚ) = n := towardZero_intCast n
  rw [toIntWithin_of_toRat? h, hpart, min_eq_left hgreatest, max_eq_right hleast]

end Binary

/-! ## Literals -/

theorem Integer.clamp_val {t : IntType} {n : ℤ} (hleast : t.least ≤ n)
    (hgreatest : n ≤ t.greatest) : (clamp t n).val = n := by
  change max t.least (min n t.greatest) = n
  rw [min_eq_left hgreatest, max_eq_right hleast]

theorem WrittenNumber.isUntyped_toValue (n : WrittenNumber) : n.toValue.ty.isUntyped = true := by
  rcases n with ⟨x, _ | s⟩
  · rfl
  · cases s <;> rfl

/-- The widest types hold the numbers of at most 63 bits. -/
theorem IntType.holds_of_bits {t : IntType} (hbits : t.bits = 64) {n : ℕ} (hn : n < 2 ^ 63) :
    t.least ≤ n ∧ n ≤ t.greatest := by
  unfold least greatest
  rw [hbits]
  cases t.sign <;> norm_num [pow2] <;> omega

/-- Whatever its suffix, a literal that is written as a number of at most 63 bits is this number. -/
theorem WrittenNumber.integer?_toValue {x : Binary .double} {n : ℕ} (h : x.toRat? = some (n : ℚ))
    (hn : n < 2 ^ 63) (suffix : Option Suffix) :
    (WrittenNumber.toValue ⟨x, suffix⟩).integer? = some (n : ℤ) := by
  have htruncated : Value.truncated x = n :=
    Binary.toIntWithin_natCast h (by norm_num [pow2]) (by norm_num [pow2]; omega)
  have hclamped (sign : Sign) : (Integer.clamp (.literal sign) (x.toIntWithin
      (IntType.literal sign).least (IntType.literal sign).greatest)).val = n := by
    obtain ⟨hleast, hgreatest⟩ := IntType.holds_of_bits (t := .literal sign) rfl hn
    rw [Binary.toIntWithin_natCast h hleast hgreatest, Integer.clamp_val hleast hgreatest]
  rcases suffix with _ | _ | _ | _
  · exact congrArg some htruncated
  · exact congrArg some (hclamped .unsigned)
  · exact congrArg some (hclamped .signed)
  · exact congrArg some htruncated

/-- What an untyped number of at most 63 bits is coerced to: a value that agrees with it modulo the
number of values, and the number itself in a type of 64 bits. -/
theorem Value.coerce_natural {v : Value} {n : ℕ} (hty : v.ty.isUntyped = true)
    (hv : v.integer? = some (n : ℤ)) (hn : n < 2 ^ 63) (sign : Sign) (w : Width) :
    ∃ m : Integer (.sized sign w), v.coerce (.int (.sized sign w)) = some (.int _ m) ∧
      m.val ≡ n [ZMOD 2 ^ w.bits] ∧ (w = .w64 → m.val = n) := by
  refine ⟨.wrap _ n, coerce_sized (untyped_adapts hty sign w) hv,
    Integer.wrapped_modEq (.sized sign w) n, ?_⟩
  rintro rfl
  obtain ⟨hleast, hgreatest⟩ := IntType.holds_of_bits (t := .sized sign .w64) rfl hn
  have hwrap := Integer.wrap_val_self (t := .sized sign .w64) ⟨n, hleast, hgreatest⟩
  exact congrArg Integer.val hwrap

namespace Lexeme

/-! ## Lexing digits -/

/-- White space is no digit. -/
theorem isBlank_of_isDigit {c : Char} (hc : c.isDigit = true) : Text.isBlank c = false := by
  by_contra hblank
  have hnumber := (of_isBlank (by simpa using hblank)).2.1
  rw [isNumberChar_of_isDigit hc] at hnumber
  cases hnumber

/-- Digits are all of a number, with the suffix behind them if there is one. -/
theorem cutNumber_of_digits {c : Char} {cs letter : List Char} (hcs : ∀ x ∈ cs, x.isDigit = true)
    (hletter : letter = [] ∨ ∃ x s, letter = [x] ∧ Suffix.ofChar? x = some s) :
    ∃ suffix, cutNumber c (cs ++ letter) =
      ⟨c :: (cs ++ letter), [], numberReading (c :: cs) suffix⟩ := by
  have hbody : ∀ x ∈ cs, isNumberChar x = true := fun x hx => isNumberChar_of_isDigit (hcs x hx)
  rcases hletter with rfl | ⟨x, s, rfl, hx⟩
  · have hend : EndsNumber [] := nofun
    rw [cutNumber_of_ends hbody hend, List.append_nil]
    exact ⟨none, rfl⟩
  · exact ⟨some s, cutNumber_of_suffix hbody hx⟩

/-- Digits with a suffix or without one are one number, which has the value of the digits. -/
theorem ofText_digits {digits suffix : String} (hne : digits ≠ "")
    (hdigits : ∀ c ∈ digits.toList, c.isDigit = true)
    (hsuffix : suffix ∈ ["", "u", "i", "f", "d"]) :
    ∃ s, ofText (digits ++ suffix) = [⟨⟨0, (digits ++ suffix).utf8ByteSize⟩, digits ++ suffix,
      .ok (.number ⟨Decimal.toBinary .double ⟨Nat.ofDigitChars 10 digits.toList 0, 0⟩, s⟩)⟩] := by
  have hletter : suffix.toList = [] ∨
      ∃ x s, suffix.toList = [x] ∧ Suffix.ofChar? x = some s := by
    simp only [List.mem_cons, List.not_mem_nil, or_false] at hsuffix
    rcases hsuffix with rfl | rfl | rfl | rfl | rfl
    · exact .inl rfl
    all_goals exact .inr ⟨_, _, rfl, rfl⟩
  have hne' : digits.toList ≠ [] := by simpa using hne
  obtain ⟨c, cs, hlist⟩ := List.exists_cons_of_ne_nil hne'
  have hparse := Decimal.parse?_of_digits hne' hdigits
  rw [hlist] at hdigits hparse
  obtain ⟨hc, hcs⟩ := List.forall_mem_cons.1 hdigits
  obtain ⟨s, hcut⟩ := cutNumber_of_digits (c := c) hcs hletter
  have hwhole : (digits ++ suffix).toList = c :: (cs ++ suffix.toList) := by
    rw [String.toList_append, hlist, List.cons_append]
  have hreading : numberReading (c :: cs) s =
      .ok (.number ⟨Decimal.toBinary .double ⟨Nat.ofDigitChars 10 (c :: cs) 0, 0⟩, s⟩) := by
    rw [numberReading, hparse]
  have htext : String.ofList (c :: (cs ++ suffix.toList)) = digits ++ suffix := by
    rw [← hwhole, String.ofList_toList]
  refine ⟨s, ?_⟩
  rw [ofText, hwhole, scan_of_not_blank (isBlank_of_isDigit hc), cut_digit hc, hcut, hreading,
    ofCut_zero rfl, htext, hlist, scan]

/-- **Whole numbers up to `2 ^ 53` are exact.** The digits of such a number, leading zeros included,
are one token whatever suffix is behind them, and what it denotes becomes the number itself in an
integer type of 64 bits and agrees with it modulo the number of values in a narrower one. -/
theorem ofText_wholeNumber {n : ℕ} (hn : n ≤ 2 ^ 53) {digits : String} (hne : digits ≠ "")
    (hdigits : ∀ c ∈ digits.toList, c.isDigit = true)
    (hvalue : Nat.ofDigitChars 10 digits.toList 0 = n) {suffix : String}
    (hsuffix : suffix ∈ ["", "u", "i", "f", "d"]) :
    ∃ number : WrittenNumber,
      ofText (digits ++ suffix) = [⟨⟨0, (digits ++ suffix).utf8ByteSize⟩, digits ++ suffix,
        .ok (.number number)⟩] ∧
      ∀ sign w, ∃ m : Integer (.sized sign w),
        number.toValue.coerce (.int (.sized sign w)) = some (.int _ m) ∧
        m.val ≡ n [ZMOD 2 ^ w.bits] ∧ (w = .w64 → m.val = n) := by
  obtain ⟨s, hlexemes⟩ := ofText_digits hne hdigits hsuffix
  rw [hvalue] at hlexemes
  have hexact := Binary.toRat?_toBinary (f := .double) hn hn
  have hsmall : n < 2 ^ 63 := by omega
  refine ⟨_, hlexemes, Value.coerce_natural (WrittenNumber.isUntyped_toValue _) ?_ hsmall⟩
  exact WrittenNumber.integer?_toValue hexact hsmall s

/-- The greatest of these numbers, with leading zeros and a suffix. -/
theorem ofText_wholeNumber_leadingZeros :
    ∃ number : WrittenNumber,
      ofText "009007199254740992i" = [⟨⟨0, 19⟩, "009007199254740992i", .ok (.number number)⟩] ∧
      (∃ m : Integer (.sized .signed .w64),
        number.toValue.coerce (.int (.sized .signed .w64)) = some (.int _ m) ∧
        m.val = 9007199254740992) ∧
      ∃ m : Integer (.sized .unsigned .w8),
        number.toValue.coerce (.int (.sized .unsigned .w8)) = some (.int _ m) ∧
        m.val ≡ 0 [ZMOD 2 ^ 8] := by
  have hdigits : ∀ c ∈ "009007199254740992".toList, c.isDigit = true :=
    List.all_eq_true.1 rfl
  have hvalue : Nat.ofDigitChars 10 "009007199254740992".toList 0 = 9007199254740992 := by decide
  have hsuffix : "i" ∈ ["", "u", "i", "f", "d"] := by decide
  obtain ⟨number, hlexemes, hcoerce⟩ :=
    ofText_wholeNumber (n := 9007199254740992) (by decide) (by decide) hdigits hvalue hsuffix
  obtain ⟨m, hm, -, hexact⟩ := hcoerce .signed .w64
  obtain ⟨m', hm', hagrees, -⟩ := hcoerce .unsigned .w8
  have hmultiple : (9007199254740992 : ℤ) ≡ 0 [ZMOD 2 ^ 8] := rfl
  exact ⟨number, hlexemes, ⟨m, hm, hexact rfl⟩, m', hm', hagrees.trans hmultiple⟩

end Lexeme

end ExprLang
