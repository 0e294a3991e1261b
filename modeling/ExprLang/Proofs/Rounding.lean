import ExprLang.Proofs.Truncation
import Mathlib.Algebra.Order.Field.Power
import Mathlib.Tactic.Positivity

/-!
# Rounding what a format has

A format has the numbers `m · 2 ^ e` whose significand `m` is no longer than the precision and whose
exponent is in range (`Format.Has`); among them are all integers up to `2 ^ precision`
(`Format.has_natCast`). Rounding changes none of them (`Binary.toRat?_round`): the last place that
`Binary.roundMagnitude` chooses is never above the exponent of such a number, so that the quotient
that is rounded to an integer is one (`Binary.exists_roundMagnitude`), and the bits of a significand
and a last place are read back as both (`Binary.datum_ofMagnitude`).
-/

namespace ExprLang

/-- The exponent of the last place of the greatest numbers. -/
def Format.greatestExponent : Format → ℤ
  | single => 104
  | double => 971

/-- The numbers of a format that are not negative. -/
def Format.Has (f : Format) (q : ℚ) : Prop :=
  ∃ (m : ℕ) (e : ℤ), m < 2 ^ f.precision ∧ f.leastExponent ≤ e ∧ e ≤ f.greatestExponent ∧
    q = m * 2 ^ e

/-- A format has the integers without a gap up to the power of two that is one bit too long. -/
theorem Format.has_natCast {f : Format} {n : ℕ} (h : n ≤ 2 ^ f.precision) : f.Has n := by
  rcases h.lt_or_eq with h | rfl
  · exact ⟨n, 0, h, by cases f <;> decide, by cases f <;> decide, by simp⟩
  · refine ⟨2 ^ (f.precision - 1), 1, ?_, by cases f <;> decide, by cases f <;> decide, ?_⟩
    · exact Nat.pow_lt_pow_right one_lt_two (by cases f <;> decide)
    · cases f <;> norm_num [Format.precision]

/-- A significand and its last place, counted from the least one, as bits hold them: only at the
least place is a significand shorter than the precision. -/
structure Format.Fits (f : Format) (m k : ℕ) : Prop where
  lt : m < 2 ^ f.precision
  normal : k = 0 ∨ pow2 (f.precision - 1) ≤ m
  le : f.leastExponent + k ≤ f.greatestExponent

/-! ## Quotients and their leading digit -/

theorem scaleDown_spec (num : ℕ) {den : ℕ} (hden : den ≠ 0) (e : ℤ) :
    (scaleDown num den e).2 ≠ 0 ∧
      ((scaleDown num den e).1 : ℚ) / (scaleDown num den e).2 = num / den / 2 ^ e := by
  unfold scaleDown
  split
  · rename_i he
    obtain ⟨k, rfl⟩ := Int.eq_ofNat_of_zero_le he
    rw [Int.toNat_natCast, Nat.shiftLeft_eq, zpow_natCast]
    push_cast
    exact ⟨by positivity, by rw [div_div]⟩
  · rename_i he
    obtain ⟨k, hk⟩ := Int.eq_ofNat_of_zero_le (show 0 ≤ -e by omega)
    obtain rfl : e = -(k : ℤ) := by omega
    rw [neg_neg, Int.toNat_natCast, Nat.shiftLeft_eq, zpow_neg, zpow_natCast, div_inv_eq_mul]
    push_cast
    exact ⟨hden, by rw [div_mul_eq_mul_div]⟩

theorem two_zpow_log2_le {n : ℕ} (hn : n ≠ 0) : (2 : ℚ) ^ (n.log2 : ℤ) ≤ n := by
  rw [zpow_natCast]
  exact_mod_cast Nat.log2_self_le hn

theorem lt_two_zpow_log2 (n : ℕ) : (n : ℚ) < 2 ^ ((n.log2 : ℤ) + 1) := by
  exact_mod_cast Nat.lt_log2_self (n := n)

theorem floorLog2_spec {num den : ℕ} (hnum : num ≠ 0) (hden : den ≠ 0) :
    (2 : ℚ) ^ floorLog2 num den ≤ num / den ∧ (num / den : ℚ) < 2 ^ (floorLog2 num den + 1) := by
  have htwo : (2 : ℚ) ≠ 0 := two_ne_zero
  have hpos : (0 : ℚ) < den := by positivity
  -- the two logarithms bound the quotient up to one binary place
  have hlow : (2 : ℚ) ^ ((num.log2 : ℤ) - den.log2 - 1) ≤ num / den := by
    rw [le_div_iff₀ hpos]
    calc (2 : ℚ) ^ ((num.log2 : ℤ) - den.log2 - 1) * den
        ≤ 2 ^ ((num.log2 : ℤ) - den.log2 - 1) * 2 ^ ((den.log2 : ℤ) + 1) := by
          gcongr
          exact (lt_two_zpow_log2 den).le
      _ = 2 ^ (num.log2 : ℤ) := by rw [← zpow_add₀ htwo]; congr 1; omega
      _ ≤ num := two_zpow_log2_le hnum
  have hhigh : (num / den : ℚ) < 2 ^ ((num.log2 : ℤ) - den.log2 + 1) := by
    rw [div_lt_iff₀ hpos]
    calc (num : ℚ) < 2 ^ ((num.log2 : ℤ) + 1) := lt_two_zpow_log2 num
      _ = 2 ^ ((num.log2 : ℤ) - den.log2 + 1) * 2 ^ (den.log2 : ℤ) := by
          rw [← zpow_add₀ htwo]; congr 1; omega
      _ ≤ 2 ^ ((num.log2 : ℤ) - den.log2 + 1) * den := by
          gcongr
          exact two_zpow_log2_le hden
  obtain ⟨hscaled, hquotient⟩ := scaleDown_spec num hden ((num.log2 : ℤ) - den.log2)
  have hpow : (0 : ℚ) < 2 ^ ((num.log2 : ℤ) - den.log2) := by positivity
  have hcompare : (scaleDown num den ((num.log2 : ℤ) - den.log2)).2 ≤
      (scaleDown num den ((num.log2 : ℤ) - den.log2)).1 ↔
        (2 : ℚ) ^ ((num.log2 : ℤ) - den.log2) ≤ num / den := by
    rw [← one_le_div₀ hpow, ← hquotient, one_le_div₀ (by positivity)]
    norm_cast
  unfold floorLog2
  by_cases hle : (2 : ℚ) ^ ((num.log2 : ℤ) - den.log2) ≤ num / den
  · simp only [hcompare.2 hle, if_true]
    exact ⟨hle, hhigh⟩
  · simp only [mt hcompare.1 hle, if_false, sub_add_cancel]
    exact ⟨hlow, not_le.1 hle⟩

theorem nearestEven_of_eq {num den m : ℕ} (hden : den ≠ 0) (h : (num / den : ℚ) = m) :
    nearestEven num den = m := by
  have hden' : (den : ℚ) ≠ 0 := by exact_mod_cast hden
  obtain rfl : num = m * den := by
    rw [div_eq_iff hden'] at h
    exact_mod_cast h
  have hpos := Nat.pos_of_ne_zero hden
  have hquotient : m * den / den = m := Nat.mul_div_cancel m hpos
  have hremainder : m * den % den = 0 := Nat.mul_mod_left m den
  have hexact : ¬(den < 2 * 0 ∨ (2 * 0 = den ∧ m % 2 = 1)) := by omega
  simp only [nearestEven, hquotient, hremainder, if_neg hexact]

namespace Binary

variable {f : Format}

/-- The leading digit of a significand is within the precision. -/
theorem floorLog2_lt {num den m : ℕ} {e : ℤ} (hnum : num ≠ 0) (hden : den ≠ 0)
    (hm : m < 2 ^ f.precision) (h : (num / den : ℚ) = m * 2 ^ e) :
    floorLog2 num den < f.precision + e := by
  have hm' : (m : ℚ) < 2 ^ f.precision := by exact_mod_cast hm
  rw [← zpow_lt_zpow_iff_right₀ (one_lt_two (α := ℚ)), zpow_add₀ two_ne_zero, zpow_natCast]
  refine (floorLog2_spec hnum hden).1.trans_lt ?_
  rw [h]
  gcongr

/-- A number that the format has is rounded to a significand and a last place that make it up. -/
theorem exists_roundMagnitude {num den : ℕ} (hden : den ≠ 0) (h : f.Has (num / den)) :
    ∃ m k : ℕ, f.Fits m k ∧ roundMagnitude f num den = m + k * pow2 (f.precision - 1) ∧
      (num / den : ℚ) = m * 2 ^ (f.leastExponent + k) := by
  obtain ⟨m, e, hm, hleast, hgreatest, hq⟩ := h
  by_cases hnum : num = 0
  · subst hnum
    exact ⟨0, 0, ⟨by positivity, .inl rfl, by omega⟩, by simp [roundMagnitude], by simp⟩
  obtain ⟨hlow, hhigh⟩ := floorLog2_spec hnum hden
  have htwo : (2 : ℚ) ≠ 0 := two_ne_zero
  have hprecision : f.precision = f.precision - 1 + 1 := by cases f <;> rfl
  set leading := floorLog2 num den
  set place := max f.leastExponent (leading - (f.precision - 1 : ℕ)) with hplace
  -- the last place is not above the exponent, so that the quotient is an integer there
  have hbelow : leading < f.precision + e := floorLog2_lt hnum hden hm hq
  obtain ⟨k, hk⟩ := Int.eq_ofNat_of_zero_le (show 0 ≤ place - f.leastExponent by omega)
  obtain ⟨j, hj⟩ := Int.eq_ofNat_of_zero_le (show 0 ≤ e - place by omega)
  have hvalue : (num / den : ℚ) / 2 ^ place = (m * 2 ^ j : ℕ) := by
    rw [hq, mul_div_assoc, ← zpow_sub₀ htwo, hj]
    push_cast
    rw [zpow_natCast]
  have hkplace : f.leastExponent + k = place := by omega
  refine ⟨m * 2 ^ j, k, ⟨?_, ?_, by omega⟩, ?_, ?_⟩
  · have hlt : ((m * 2 ^ j : ℕ) : ℚ) < 2 ^ (f.precision : ℤ) := by
      rw [← hvalue, div_lt_iff₀ (by positivity), ← zpow_add₀ htwo]
      refine hhigh.trans_le (zpow_le_zpow_right₀ one_le_two ?_)
      omega
    exact_mod_cast hlt
  · by_cases hzero : k = 0
    · exact .inl hzero
    · right
      have hplace' : place = leading - (f.precision - 1 : ℕ) := by omega
      have hle : (2 : ℚ) ^ ((f.precision - 1 : ℕ) : ℤ) ≤ (m * 2 ^ j : ℕ) := by
        rw [← hvalue, le_div_iff₀ (by positivity), ← zpow_add₀ htwo, hplace', add_sub_cancel]
        exact hlow
      exact_mod_cast hle
  · obtain ⟨hscaled, hquotient⟩ := scaleDown_spec num hden place
    rw [roundMagnitude, if_neg hnum]
    simp only
    rw [nearestEven_of_eq hscaled (hquotient.trans hvalue), hk, Int.toNat_natCast]
  · rw [hkplace, ← hvalue, div_mul_cancel₀]
    positivity

/-- The bits of a significand and a last place, sign aside, are less than those of infinity. -/
theorem magnitude_lt {m k : ℕ} (h : f.Fits m k) :
    m + k * pow2 (f.precision - 1) < f.infinityBits := by
  obtain ⟨hm, -, hk⟩ := h
  cases f with
  | single =>
    change m + k * 8388608 < 2139095040
    change m < 16777216 at hm
    change (-149 : ℤ) + k ≤ 104 at hk
    omega
  | double =>
    change m + k * 4503599627370496 < 9218868437227405312
    change m < 9007199254740992 at hm
    change (-1074 : ℤ) + k ≤ 971 at hk
    omega

/-- The bits of a significand and a last place are read back as both. -/
theorem datum_ofMagnitude (negative : Bool) {m k : ℕ} (h : f.Fits m k) :
    (ofMagnitude f negative (m + k * pow2 (f.precision - 1))).datum =
      .finite negative m (f.leastExponent + k) := by
  have hfinite := magnitude_lt h
  set unit := pow2 (f.precision - 1) with hunit
  set half := pow2 (f.width - 1) with hhalf
  have hpos : 0 < unit := pow2_pos _
  have hhalf_eq : half = pow2 f.exponentBits * unit := by cases f <;> rfl
  have hwidth : 2 ^ f.width = 2 * half := by cases f <;> rfl
  have hinfinity : f.infinityBits = half - unit := by
    rw [hhalf_eq, Format.infinityBits, Nat.sub_mul, Nat.one_mul]
  have hbits : (ofMagnitude f negative (m + k * unit)).bits.toNat =
      (if negative then half else 0) + (m + k * unit) := by
    rw [ofMagnitude, BitVec.toNat_ofNat, Nat.min_eq_left hfinite.le, Nat.mod_eq_of_lt]
    rw [hwidth]
    split <;> omega
  have hmagnitude : ((if negative then half else 0) + (m + k * unit)) % half = m + k * unit := by
    have hlt : m + k * unit < half := by omega
    split
    · rw [Nat.add_mod_left, Nat.mod_eq_of_lt hlt]
    · rw [Nat.zero_add, Nat.mod_eq_of_lt hlt]
  have hfraction : ((if negative then half else 0) + (m + k * unit)) % unit = m % unit := by
    rw [← Nat.mod_mod_of_dvd _ (hhalf_eq ▸ Nat.dvd_mul_left unit _ : unit ∣ half), hmagnitude,
      Nat.add_mul_mod_self_right]
  have hsign : decide (half ≤ (if negative then half else 0) + (m + k * unit)) = negative := by
    cases negative with
    | false =>
      rw [if_neg Bool.false_ne_true, decide_eq_false_iff_not]
      omega
    | true =>
      rw [if_pos rfl, decide_eq_true_iff]
      omega
  have hfield : (m + k * unit) / unit = m / unit + k := Nat.add_mul_div_right m k hpos
  have hlong : m < 2 * unit := two_pow_precision f ▸ h.lt
  have hshort : m / unit + k < pow2 f.exponentBits - 1 := by
    rw [← hfield, Nat.div_lt_iff_lt_mul hpos]
    exact hfinite
  simp only [datum, ← hunit, ← hhalf, hbits, hmagnitude, hfraction, hsign, hfield,
    if_neg hshort.ne]
  by_cases hsub : m < unit
  -- no leading bit is left out of a short significand, which stands at the least exponent
  · have hzero : k = 0 := h.normal.resolve_right (by omega)
    rw [Nat.div_eq_of_lt hsub, Nat.mod_eq_of_lt hsub, hzero, if_pos rfl, Nat.cast_zero, add_zero]
  · have hone : m / unit = 1 := Nat.div_eq_of_lt_le (by omega) (by omega)
    have hrest : m % unit = m - unit := by
      rw [Nat.mod_eq_sub_mod (by omega), Nat.mod_eq_of_lt (by omega)]
    rw [hone, hrest, if_neg (by omega), Nat.add_sub_cancel_left, Nat.add_sub_cancel' (by omega)]

/-- **Rounding changes no number that the format has.** -/
theorem toRat?_round {num den : ℕ} (hden : den ≠ 0) (h : f.Has (num / den)) (negative : Bool) :
    (round f negative num den).toRat? =
      some ((if negative then -1 else 1) * (num / den : ℚ)) := by
  obtain ⟨m, k, hfits, hbits, hvalue⟩ := exists_roundMagnitude hden h
  rw [round, hbits, toRat?, datum_ofMagnitude negative hfits, hvalue]
  rfl

end Binary

end ExprLang
