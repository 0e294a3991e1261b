import ExprLang.Proofs.Coercion
import Mathlib.Data.Rat.Floor
import Mathlib.Tactic.NormNum
import Mathlib.Tactic.Linarith

/-!
# Truncation of floating-point literals

An untyped literal becomes an integer in two steps: it is truncated toward zero, and what comes out
is taken modulo the number of values of the type. The exact number that the bits stand for is a
rational (`Binary.toRat?`), and the first step is said of it (`towardZero`).

The truncated number is brought into the range of 128 bits before it is wrapped. That changes no
number below `2 ^ 127`: those below the range are multiples of every number of values there is, and
so is its lower end. From `2 ^ 127` on it does: every bit of the result is set
(`Value.coerce_towardZero_iff`).
-/

namespace ExprLang

/-! ## The number that bits stand for -/

/-- The number that a datum is, if it is finite. -/
def Datum.toRat? : Datum → Option ℚ
  | .finite negative significand exponent =>
    some ((if negative then -1 else 1) * (significand * 2 ^ exponent))
  | _ => none

/-- The number that bits stand for, if it is finite. -/
def Binary.toRat? {f : Format} (x : Binary f) : Option ℚ := x.datum.toRat?

/-- The integer part of a rational number. -/
def towardZero (q : ℚ) : ℤ := if q < 0 then ⌈q⌉ else ⌊q⌋

theorem towardZero_of_nonneg {q : ℚ} (h : 0 ≤ q) : towardZero q = ⌊q⌋ := if_neg (not_lt.2 h)

theorem towardZero_neg {q : ℚ} (h : 0 ≤ q) : towardZero (-q) = -⌊q⌋ := by
  unfold towardZero
  split
  · exact Int.ceil_neg
  · obtain rfl : q = 0 := by linarith
    simp

theorem towardZero_intCast (n : ℤ) : towardZero n = n := by
  unfold towardZero
  split <;> simp

theorem towardZero_mono {p q : ℚ} (h : p ≤ q) : towardZero p ≤ towardZero q := by
  unfold towardZero
  by_cases hp : p < 0
  · rw [if_pos hp]
    by_cases hq : q < 0
    · rw [if_pos hq]
      exact Int.ceil_mono h
    · rw [if_neg hq]
      exact (Int.ceil_nonpos.2 hp.le).trans (Int.floor_nonneg.2 (not_lt.1 hq))
  · rw [if_neg hp, if_neg (by linarith)]
    exact Int.floor_mono h

theorem le_towardZero {q : ℚ} {n : ℤ} (h : n ≤ q) : n ≤ towardZero q :=
  (towardZero_intCast n).symm.trans_le (towardZero_mono h)

theorem towardZero_le {q : ℚ} {n : ℤ} (h : q ≤ n) : towardZero q ≤ n :=
  (towardZero_mono h).trans_eq (towardZero_intCast n)

theorem towardZero_lt {q : ℚ} {n : ℤ} (hn : 0 < n) (h : q < n) : towardZero q < n := by
  unfold towardZero
  by_cases hq : q < 0
  · rw [if_pos hq]
    exact (Int.ceil_nonpos.2 hq.le).trans_lt hn
  · rw [if_neg hq]
    exact Int.floor_lt.2 h

namespace Binary

variable {f : Format}

/-- Shifting gives the integer part, in either direction. -/
theorem floor_scaled (m : ℕ) (e : ℤ) :
    ⌊(m : ℚ) * 2 ^ e⌋ = ((if 0 ≤ e then m <<< e.toNat else m >>> (-e).toNat : ℕ) : ℤ) := by
  split
  · rename_i he
    obtain ⟨k, rfl⟩ := Int.eq_ofNat_of_zero_le he
    rw [Int.toNat_natCast, Nat.shiftLeft_eq, zpow_natCast]
    exact_mod_cast Int.floor_natCast (R := ℚ) (m * 2 ^ k)
  · rename_i he
    obtain ⟨k, hk⟩ := Int.eq_ofNat_of_zero_le (show 0 ≤ -e by omega)
    obtain rfl : e = -(k : ℤ) := by omega
    rw [neg_neg, Int.toNat_natCast, Nat.shiftRight_eq_div_pow, zpow_neg, zpow_natCast,
      ← div_eq_mul_inv]
    exact_mod_cast Rat.floor_natCast_div_natCast m (2 ^ k)

theorem truncate_eq_towardZero (negative : Bool) (m : ℕ) (e : ℤ) :
    truncate negative m e =
      towardZero ((if negative then -1 else 1) * ((m : ℚ) * 2 ^ e)) := by
  have hnonneg : 0 ≤ (m : ℚ) * 2 ^ e := mul_nonneg m.cast_nonneg (zpow_nonneg (by norm_num) e)
  unfold truncate
  cases negative with
  | false => simp [towardZero_of_nonneg hnonneg, floor_scaled]
  | true => simp [towardZero_neg hnonneg, floor_scaled]

theorem two_pow_precision (f : Format) : 2 ^ f.precision = 2 * pow2 (f.precision - 1) := by
  cases f <;> rfl

/-- A significand has no more bits than the precision. -/
theorem significand_lt {x : Binary f} {negative : Bool} {m : ℕ} {e : ℤ}
    (h : x.datum = .finite negative m e) : m < 2 ^ f.precision := by
  have hunit := two_pow_precision f
  have hfraction := Nat.mod_lt x.bits.toNat (pow2_pos (f.precision - 1))
  unfold datum at h
  dsimp only at h
  split at h
  · split at h <;> cases h
  split at h
  · cases h
    omega
  · cases h
    omega

theorem exists_of_toRat? {x : Binary f} {q : ℚ} (h : x.toRat? = some q) :
    ∃ negative m e, x.datum = .finite negative m e ∧ m < 2 ^ f.precision ∧
      q = (if negative then -1 else 1) * ((m : ℚ) * 2 ^ e) := by
  unfold toRat? Datum.toRat? at h
  split at h
  · rename_i negative m e hdatum
    cases h
    exact ⟨negative, m, e, hdatum, significand_lt hdatum, rfl⟩
  · cases h

theorem toIntWithin_of_toRat? {x : Binary f} {q : ℚ} (h : x.toRat? = some q) (least greatest : ℤ) :
    x.toIntWithin least greatest = max least (min (towardZero q) greatest) := by
  obtain ⟨negative, m, e, hdatum, -, rfl⟩ := exists_of_toRat? h
  rw [toIntWithin, hdatum, ← truncate_eq_towardZero]

/-- With 53 bits, `2 ^ 127` is reached by a large exponent only. -/
theorem le_exponent_of_large {m : ℕ} {e : ℤ} (hm : m < 2 ^ 53)
    (hlarge : 2 ^ 127 ≤ (m : ℚ) * 2 ^ e) : 64 ≤ e := by
  by_contra he
  have hexponent : (2 : ℚ) ^ e ≤ 2 ^ (63 : ℤ) := zpow_le_zpow_right₀ (by norm_num) (by omega)
  have hsignificand : (m : ℚ) ≤ 2 ^ 53 := by exact_mod_cast hm.le
  have hpow : (0 : ℚ) ≤ 2 ^ e := zpow_nonneg (by norm_num) e
  have hsmall := mul_le_mul hsignificand hexponent hpow (by norm_num)
  norm_num at hsmall hlarge
  linarith

theorem dvd_truncate {e : ℤ} (he : 64 ≤ e) (negative : Bool) (m : ℕ) :
    2 ^ 64 ∣ truncate negative m e := by
  have hwhole : (2 : ℤ) ^ 64 ∣ ((m <<< e.toNat : ℕ) : ℤ) := by
    have hshift : 64 ≤ e.toNat := by omega
    rw [Nat.shiftLeft_eq]
    push_cast
    exact (pow_dvd_pow 2 hshift).mul_left _
  have hnonneg : 0 ≤ e := by omega
  simp only [truncate, if_pos hnonneg]
  cases negative with
  | false => exact hwhole
  | true => exact hwhole.neg_right

/-- The numbers whose magnitude reaches `2 ^ 127` are multiples of `2 ^ 64`. -/
theorem dvd_towardZero {x : Binary .double} {q : ℚ} (h : x.toRat? = some q)
    (hlarge : 2 ^ 127 ≤ |q|) : 2 ^ 64 ∣ towardZero q := by
  obtain ⟨negative, m, e, -, hm, rfl⟩ := exists_of_toRat? h
  have hnonneg : 0 ≤ (m : ℚ) * 2 ^ e := mul_nonneg m.cast_nonneg (zpow_nonneg (by norm_num) e)
  have habs : |(if negative then -1 else 1) * ((m : ℚ) * 2 ^ e)| = m * 2 ^ e := by
    cases negative <;> simp [abs_of_nonneg hnonneg]
  rw [habs] at hlarge
  rw [← truncate_eq_towardZero]
  exact dvd_truncate (le_exponent_of_large hm hlarge) negative m

end Binary

namespace Value

/-! ## Wrapping after truncation -/

variable {x : Binary .double} {q : ℚ}

theorem truncated_of_toRat? (h : x.toRat? = some q) :
    truncated x = max (-2 ^ 127) (min (towardZero q) (2 ^ 127 - 1)) := by
  rw [truncated, Binary.toIntWithin_of_toRat? h]
  rfl

/-- Below `2 ^ 127` the range of 128 bits does not show after wrapping. -/
theorem truncated_modEq_of_lt (h : x.toRat? = some q) (hq : q < 2 ^ 127) :
    truncated x ≡ towardZero q [ZMOD 2 ^ 64] := by
  have hgreatest : towardZero q < 2 ^ 127 :=
    towardZero_lt (by norm_num) (by exact_mod_cast hq)
  rw [truncated_of_toRat? h, min_eq_left (by omega)]
  by_cases hlow : -2 ^ 127 ≤ q
  -- in the range nothing is changed, and below it both sides are multiples of `2 ^ 64`
  · have hleast : -2 ^ 127 ≤ towardZero q := le_towardZero (by push_cast; exact hlow)
    rw [max_eq_right hleast]
  · have hless : q < -2 ^ 127 := not_le.1 hlow
    have hleast : towardZero q ≤ -2 ^ 127 := towardZero_le (by push_cast; exact hless.le)
    have hlarge : 2 ^ 127 ≤ |q| := by
      rw [abs_of_nonpos (by linarith)]
      linarith
    rw [max_eq_left hleast]
    have hzero : (-2 ^ 127 : ℤ) ≡ 0 [ZMOD 2 ^ 64] := rfl
    exact hzero.trans (Int.modEq_zero_iff_dvd.2 (Binary.dvd_towardZero h hlarge)).symm

/-- From `2 ^ 127` on it does: all bits of the greatest number in that range are set, but for the
sign. -/
theorem truncated_modEq_of_le (h : x.toRat? = some q) (hq : 2 ^ 127 ≤ q) :
    truncated x ≡ -1 [ZMOD 2 ^ 64] := by
  have hleast : 2 ^ 127 ≤ towardZero q := le_towardZero (by push_cast; exact hq)
  rw [truncated_of_toRat? h, min_eq_right (by omega), max_eq_right (by norm_num)]
  rfl

/-- An untyped floating-point literal becomes the value of an integer type that agrees with its
integer part modulo the number of values, exactly if it is less than `2 ^ 127`. A greater one
becomes the value with all bits set. -/
theorem coerce_towardZero_iff {v : Value} (hv : v = .real .compnum x ∨ v = .real .compfloat x)
    (h : x.toRat? = some q) (sign : Sign) (w : Width) :
    ∃ m : Integer (.sized sign w), v.coerce (.int (.sized sign w)) = some (.int _ m) ∧
      (m.val ≡ towardZero q [ZMOD 2 ^ w.bits] ↔ q < 2 ^ 127) ∧
      (2 ^ 127 ≤ q → m.val ≡ -1 [ZMOD 2 ^ w.bits]) := by
  have hty : v.ty.isUntyped = true ∧ v.integer? = some (truncated x) := by
    rcases hv with rfl | rfl <;> exact ⟨rfl, rfl⟩
  have hwidth : (2 : ℤ) ^ w.bits ∣ 2 ^ 64 := pow_dvd_pow 2 (by cases w <;> decide)
  have hwrap : Integer.wrapped (.sized sign w) (truncated x) ≡ truncated x [ZMOD 2 ^ w.bits] :=
    Integer.wrapped_modEq (.sized sign w) _
  have hset : 2 ^ 127 ≤ q →
      Integer.wrapped (.sized sign w) (truncated x) ≡ -1 [ZMOD 2 ^ w.bits] :=
    fun hq => hwrap.trans ((truncated_modEq_of_le h hq).of_dvd hwidth)
  refine ⟨.wrap _ (truncated x), coerce_sized (untyped_adapts hty.1 sign w) hty.2, ?_, hset⟩
  constructor
  -- past the range the integer part is a multiple of the number of values, and the result is not
  · intro hagrees
    by_contra hq
    have hlarge : 2 ^ 127 ≤ q := not_lt.1 hq
    have hzero : towardZero q ≡ 0 [ZMOD 2 ^ w.bits] := by
      refine Int.ModEq.of_dvd hwidth (Int.modEq_zero_iff_dvd.2 (Binary.dvd_towardZero h ?_))
      exact hlarge.trans (le_abs_self q)
    have hone : (-1 : ℤ) ≡ 0 [ZMOD 2 ^ w.bits] := (hset hlarge).symm.trans (hagrees.trans hzero)
    cases w <;> cases hone
  · exact fun hq => hwrap.trans ((truncated_modEq_of_lt h hq).of_dvd hwidth)

/-- The least number that is not wrapped, of a literal without a suffix: as `u8` it is 255 and
not 0. -/
theorem coerce_towardZero_iff_largeLiteral :
    let x : Binary .double := ⟨0x47e0000000000000#64⟩
    x.toRat? = some (2 ^ 127) ∧ towardZero (2 ^ 127) ≡ 0 [ZMOD 2 ^ 8] ∧
      ∃ m : Integer (.sized .unsigned .w8),
        (Value.real .compnum x).coerce (.int (.sized .unsigned .w8)) = some (.int _ m) ∧
          ¬m.val ≡ towardZero (2 ^ 127) [ZMOD 2 ^ 8] ∧ m.val = 255 := by
  intro x
  have hx : x.toRat? = some (2 ^ 127) := by
    have hdatum : x.datum = .finite false (2 ^ 52) 75 := by decide
    rw [Binary.toRat?, hdatum]
    norm_num [Datum.toRat?]
  have hpart : towardZero (2 ^ 127) ≡ 0 [ZMOD 2 ^ 8] := by
    have hcast : ((2 ^ 127 : ℤ) : ℚ) = 2 ^ 127 := by push_cast; rfl
    rw [← hcast, towardZero_intCast]
    rfl
  obtain ⟨m, hm, hiff, hset⟩ := coerce_towardZero_iff (.inl rfl) hx .unsigned .w8
  have hall : m = ⟨255, by decide, by decide⟩ := Integer.eq_of_modEq ((hset le_rfl).trans rfl)
  exact ⟨hx, hpart, m, hm, fun hagrees => absurd (hiff.1 hagrees) (lt_irrefl _), by rw [hall]⟩

end Value

end ExprLang
