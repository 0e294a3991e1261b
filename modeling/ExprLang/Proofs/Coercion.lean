import ExprLang.Eval
import Mathlib.Data.Int.ModEq

/-!
# Coercion

Which types a number can be coerced to (`Ty.Adapts`), and what becomes of an integer on the way: the
one value of the target that agrees with it modulo the number of values (`Integer.eq_wrap_iff`).

* A coercion succeeds exactly between such types, gives a value of the type asked for, and changes
  nothing when it is repeated (`Value.coerce_exact`).
* Between integer types of one signedness, what a value becomes does not depend on the wider types
  it goes through (`Value.coerce_narrower`).
-/

namespace ExprLang

/-! ## Integers modulo the number of values -/

namespace Integer

variable {t : IntType}

theorem modulus_eq_two_pow (t : IntType) : (t.modulus : Int) = 2 ^ t.bits :=
  Nat.cast_pow 2 t.bits

theorem wrapped_modEq (t : IntType) (n : Int) : wrapped t n ≡ n [ZMOD 2 ^ t.bits] := by
  rw [← modulus_eq_two_pow]
  exact wrapped_emod t n

/-- Two values of a type that agree modulo the number of values are one. -/
theorem eq_of_modEq {a b : Integer t} (h : a.val ≡ b.val [ZMOD 2 ^ t.bits]) : a = b := by
  rw [← modulus_eq_two_pow] at h
  have hgreatest := t.greatest_eq
  have ha := a.least_le
  have ha' := a.le_greatest
  have hb := b.least_le
  have hb' := b.le_greatest
  -- the range of the type is as long as its modulus, so no two of its values are a multiple apart
  have hdiff : |a.val - b.val| < t.modulus := by
    rw [abs_lt]
    omega
  have hzero := Int.eq_zero_of_abs_lt_dvd h.symm.dvd hdiff
  exact ext (by omega)

/-- Wrapping gives the value of the type that agrees with a number modulo the number of values. -/
theorem eq_wrap_iff {a : Integer t} {n : Int} : a = wrap t n ↔ a.val ≡ n [ZMOD 2 ^ t.bits] := by
  constructor
  · rintro rfl
    exact wrapped_modEq t n
  · exact fun h => eq_of_modEq (h.trans (wrapped_modEq t n).symm)

@[simp] theorem wrap_val_self (a : Integer t) : wrap t a.val = a :=
  (eq_wrap_iff.2 (Int.ModEq.refl _)).symm

/-- A type that is not wider drops no less, so that wrapping to a wider one first is no loss. -/
theorem wrap_wrap {narrow wide : IntType} (h : narrow.bits ≤ wide.bits) (n : Int) :
    wrap narrow (wrap wide n).val = wrap narrow n := by
  refine eq_wrap_iff.2 ((wrapped_modEq narrow _).trans ?_)
  exact (wrapped_modEq wide n).of_dvd (pow_dvd_pow 2 h)

end Integer

/-! ## Types that coerce to each other -/

/-- The types that the numbers of a type can be coerced to: from an untyped literal all concrete
ones, from a concrete number those of its family. -/
inductive Ty.Adapts (s t : Ty) : Prop
  | untyped (hs : s.isUntyped) (ht : t.isUnsigned ∨ t.isSigned ∨ t.isFloat)
  | unsigned (hs : s.isUnsigned) (ht : t.isUnsigned)
  | signed (hs : s.isSigned) (ht : t.isSigned)
  | float (hs : s.isFloat) (ht : t.isFloat)

theorem Ty.Adapts.concrete {s t : Ty} (h : s.Adapts t) :
    t.isUnsigned ∨ t.isSigned ∨ t.isFloat := by
  cases h with
  | untyped _ ht => exact ht
  | unsigned _ ht => exact .inl ht
  | signed _ ht => exact .inr (.inl ht)
  | float _ ht => exact .inr (.inr ht)

namespace Value

theorem admits_of_untyped {s : Ty} (hs : s.isUntyped = true) (t : Ty) :
    admits s t = (t.isUnsigned || t.isSigned || t.isFloat) := by
  rw [admits, if_pos hs]

theorem admits_of_unsigned {s : Ty} (hs : s.isUnsigned = true) (t : Ty) :
    admits s t = t.isUnsigned := by
  rcases s with (⟨_ | _, w⟩ | _) | _ | _ | _ | _ | _ <;> cases hs
  rcases t with (⟨_ | _, w'⟩ | _) | _ | _ | _ | _ | _ <;> rfl

theorem admits_of_signed {s : Ty} (hs : s.isSigned = true) (t : Ty) :
    admits s t = t.isSigned := by
  rcases s with (⟨_ | _, w⟩ | _) | _ | _ | _ | _ | _ <;> cases hs
  rcases t with (⟨_ | _, w'⟩ | _) | _ | _ | _ | _ | _ <;> rfl

theorem admits_of_float {s : Ty} (hs : s.isFloat = true) (t : Ty) :
    admits s t = t.isFloat := by
  rcases s with _ | (_ | _ | _ | _) | _ | _ | _ | _ <;> cases hs
  all_goals rcases t with _ | (_ | _ | _ | _) | _ | _ | _ | _ <;> rfl

theorem admits_of_not_numeric {s : Ty} (hs : s.isNumeric = false) (t : Ty) :
    admits s t = false := by
  have huntyped : s.isUntyped = false := by simp_all [Ty.isNumeric]
  simp [admits, huntyped, hs]

theorem admits_iff {s t : Ty} : admits s t = true ↔ s.Adapts t := by
  constructor
  · intro h
    by_cases huntyped : s.isUntyped = true
    · rw [admits_of_untyped huntyped] at h
      exact .untyped huntyped (by simpa [or_assoc] using h)
    by_cases hunsigned : s.isUnsigned = true
    · exact .unsigned hunsigned (admits_of_unsigned hunsigned t ▸ h)
    by_cases hsigned : s.isSigned = true
    · exact .signed hsigned (admits_of_signed hsigned t ▸ h)
    by_cases hfloat : s.isFloat = true
    · exact .float hfloat (admits_of_float hfloat t ▸ h)
    · rw [admits_of_not_numeric (by simp_all [Ty.isNumeric])] at h
      cases h
  · intro h
    cases h with
    | untyped hs ht =>
      rw [admits_of_untyped hs]
      simpa [or_assoc] using ht
    | unsigned hs ht => rwa [admits_of_unsigned hs]
    | signed hs ht => rwa [admits_of_signed hs]
    | float hs ht => rwa [admits_of_float hs]

/-- A number that may become one of another type is converted. -/
theorem exists_convert?_of_adapts {v : Value} {t : Ty} (h : v.ty.Adapts t) :
    ∃ v', v.convert? t = some v' := by
  have hconcrete := h.concrete
  rw [← admits_iff] at h
  cases t with
  | int t =>
    cases v with
    | int s n => exact ⟨_, rfl⟩
    | real s x => exact ⟨_, rfl⟩
    | _ => cases h
  | real t =>
    cases v with
    | int s n => exact ⟨_, rfl⟩
    | real s x => exact ⟨_, rfl⟩
    | _ => cases h
  | _ => rcases hconcrete with h | h | h <;> cases h

theorem coerce_ty_self (v : Value) : v.coerce v.ty = some v := by
  unfold coerce
  split
  · rename_i hvoid
    cases v <;> cases hvoid
    rfl
  · rw [if_pos rfl]

theorem coerce_of_adapts {v : Value} {t : Ty} (h : v.ty.Adapts t) (hty : v.ty ≠ t) :
    v.coerce t = v.convert? t := by
  have hvoid : t ≠ .void := by
    rintro rfl
    rcases h.concrete with h | h | h <;> cases h
  rw [coerce, if_neg hvoid, if_neg hty, if_pos (admits_iff.2 h)]

theorem exists_coerce_iff (v : Value) (t : Ty) :
    (∃ v', v.coerce t = some v') ↔ t = .void ∨ t = v.ty ∨ v.ty.Adapts t := by
  constructor
  · rintro ⟨v', h⟩
    unfold coerce at h
    split at h
    · exact .inl ‹_›
    split at h
    · exact .inr (.inl (Eq.symm ‹_›))
    split at h
    · exact .inr (.inr (admits_iff.1 ‹_›))
    · cases h
  · intro h
    by_cases hty : v.ty = t
    · exact ⟨v, hty ▸ v.coerce_ty_self⟩
    rcases h with rfl | rfl | h
    · exact ⟨.void, if_pos rfl⟩
    · exact absurd rfl hty
    · rw [coerce_of_adapts h hty]
      exact exists_convert?_of_adapts h

/-! ## Integers -/

/-- The integer that a number is, or is truncated to. -/
def integer? : Value → Option Int
  | int _ n => some n.val
  | real _ x => some (truncated x)
  | _ => none

theorem convert?_int (v : Value) (t : IntType) :
    v.convert? (.int t) = v.integer?.map fun n => .int t (.wrap t n) := by
  cases v <;> rfl

/-- A coercion to an integer type keeps the integer modulo the number of values, also where it
leaves the value as it is. -/
theorem coerce_int_eq_some {v v' : Value} {t : IntType} (h : v.coerce (.int t) = some v') :
    ∃ n, v.integer? = some n ∧ v' = .int t (.wrap t n) := by
  by_cases hty : v.ty = .int t
  -- a value that stays as it is has been wrapped to its own type
  · rw [← hty, coerce_ty_self] at h
    cases h
    cases v with
    | int s n =>
      cases hty
      exact ⟨n.val, rfl, by rw [Integer.wrap_val_self]⟩
    | _ => cases hty
  · have hadapts := (exists_coerce_iff v (.int t)).1 ⟨v', h⟩
    rcases hadapts with hvoid | hsame | hadapts
    · cases hvoid
    · exact absurd hsame.symm hty
    · rw [coerce_of_adapts hadapts hty, convert?_int] at h
      obtain ⟨n, hn, rfl⟩ := Option.map_eq_some_iff.1 h
      exact ⟨n, hn, rfl⟩

/-- Coercion is decided by the types: to `void`, to the type of the value, and between numbers that
adapt. The result is of the type asked for and is left as it is by the same coercion. An integer
becomes the one value of an integer type that agrees with it modulo the number of values, and so
stays what it is where the type holds it. -/
theorem coerce_exact (v : Value) (t : Ty) :
    ((∃ v', v.coerce t = some v') ↔ t = .void ∨ t = v.ty ∨ v.ty.Adapts t) ∧
      ∀ v', v.coerce t = some v' →
        v'.ty = t ∧ v'.coerce t = some v' ∧
        ∀ (s u : IntType) (n : Integer s), v = .int s n → t = .int u →
          ∃ m : Integer u, v' = .int u m ∧
            (∀ k : Integer u, k = m ↔ k.val ≡ n.val [ZMOD 2 ^ u.bits]) ∧
            (u.least ≤ n.val → n.val ≤ u.greatest → m.val = n.val) := by
  refine ⟨v.exists_coerce_iff t, fun v' h => ⟨ty_of_coerce h, ?_, ?_⟩⟩
  · rw [← ty_of_coerce h, coerce_ty_self]
  · rintro s u n rfl rfl
    obtain ⟨k, hk, rfl⟩ := coerce_int_eq_some h
    cases hk
    refine ⟨.wrap u n.val, rfl, fun k => Integer.eq_wrap_iff, fun hleast hgreatest => ?_⟩
    have hfits : (⟨n.val, hleast, hgreatest⟩ : Integer u) = .wrap u n.val :=
      Integer.eq_wrap_iff.2 (Int.ModEq.refl _)
    rw [← hfits]

/-- A signed integer of 64 bits that one of 8 bits cannot hold. -/
theorem coerce_exact_narrowed :
    let v : Value := .int (.sized .signed .w64) ⟨-129, by decide, by decide⟩
    let v' : Value := .int (.sized .signed .w8) ⟨127, by decide, by decide⟩
    v.coerce (.int (.sized .signed .w8)) = some v' ∧
      v'.coerce (.int (.sized .signed .w8)) = some v' ∧
      ∃ m : Integer (.sized .signed .w8), v' = .int _ m ∧ m.val ≡ -129 [ZMOD 2 ^ 8] := by
  intro v v'
  have hv : v.coerce (.int (.sized .signed .w8)) = some v' := rfl
  obtain ⟨-, hagain, hinteger⟩ := (coerce_exact v (.int (.sized .signed .w8))).2 v' hv
  obtain ⟨m, hm, hmod, -⟩ := hinteger (.sized .signed .w64) _ _ rfl rfl
  exact ⟨hv, hagain, m, hm, (hmod m).1 rfl⟩

/-! ## Wider types on the way -/

/-- The width of a concrete integer type does not decide what can be coerced to it. -/
theorem adapts_sized_iff {s : Ty} {sign : Sign} (w w' : Width) :
    s.Adapts (.int (.sized sign w)) ↔ s.Adapts (.int (.sized sign w')) := by
  rw [← admits_iff, ← admits_iff]
  cases sign <;> cases s <;> rfl

theorem sized_adapts (sign : Sign) (w w' : Width) :
    (Ty.int (.sized sign w)).Adapts (.int (.sized sign w')) := by
  cases sign with
  | unsigned => exact .unsigned rfl rfl
  | signed => exact .signed rfl rfl

theorem untyped_adapts {s : Ty} (h : s.isUntyped = true) (sign : Sign) (w : Width) :
    s.Adapts (.int (.sized sign w)) := by
  cases sign with
  | unsigned => exact .untyped h (.inl rfl)
  | signed => exact .untyped h (.inr (.inl rfl))

theorem adapts_of_coerce {v v' : Value} {sign : Sign} {w : Width}
    (h : v.coerce (.int (.sized sign w)) = some v') : v.ty.Adapts (.int (.sized sign w)) := by
  rcases (exists_coerce_iff v _).1 ⟨v', h⟩ with hvoid | hsame | hadapts
  · cases hvoid
  · rw [← hsame]
    exact sized_adapts sign w w
  · exact hadapts

theorem coerce_sized {v : Value} {sign : Sign} {w : Width} {n : Int}
    (h : v.ty.Adapts (.int (.sized sign w))) (hn : v.integer? = some n) :
    v.coerce (.int (.sized sign w)) = some (.int (.sized sign w) (.wrap _ n)) := by
  obtain ⟨v', hv'⟩ := (exists_coerce_iff v _).2 (.inr (.inr h))
  obtain ⟨m, hm, rfl⟩ := coerce_int_eq_some hv'
  rw [hn] at hm
  cases hm
  exact hv'

/-- The wider type keeps all that the narrower one does. -/
theorem coerce_of_coerce {v a : Value} {sign : Sign} {wide narrow : Width}
    (hwidth : narrow.bits ≤ wide.bits) (ha : v.coerce (.int (.sized sign wide)) = some a) :
    a.coerce (.int (.sized sign narrow)) = v.coerce (.int (.sized sign narrow)) := by
  have hadapts := (adapts_sized_iff wide narrow).1 (adapts_of_coerce ha)
  obtain ⟨n, hn, rfl⟩ := coerce_int_eq_some ha
  have hback := coerce_sized (v := .int (.sized sign wide) (.wrap _ n))
    (sized_adapts sign wide narrow) rfl
  have hbits : (IntType.sized sign narrow).bits ≤ (IntType.sized sign wide).bits := hwidth
  rw [coerce_sized hadapts hn, hback, Integer.wrap_wrap hbits]

end Value

/-- The function of one parameter that gives its argument back. -/
def Lambda.passing (param ret : Ty) : Lambda where
  unit := 0
  ret := .literal (.type ret) Span.origin
  params := [⟨⟨"x", Span.origin⟩, .literal (.type param) Span.origin⟩]
  body := ⟨[.expr (.name ⟨"x", Span.origin⟩)], Span.origin⟩

/-- Such a function coerces its argument twice, to the type of the parameter and to that of the
result. -/
theorem Eval.call_passing {σ : Type} (host : Host σ) (depth : Nat) {param ret : Ty} {v a b : Value}
    (ha : v.coerce param = some a) (hb : a.coerce ret = some b) (env : Env) (span paren : Span)
    (w : World σ) :
    call host (depth + 2) (.defined (.passing param ret)) [⟨v, span⟩] env paren w =
      some (.ok b, { w with events := .calledDefined 1 :: w.events }) := by
  let f : Lambda := .passing param ret
  let after : World σ := { w with events := .calledDefined 1 :: w.events }
  let scope : Env := ⟨[[("x", .ofConstant a span)]], env.root⟩
  have hret : typeValue (value host (depth + 1)) f.ret env after = some (.ok ret, after) := rfl
  have hcount : checkCount f.params [⟨v, span⟩] paren after = some (.ok (), after) := rfl
  have hparams : bindParams (value host (depth + 1)) (f.params.zip [⟨v, span⟩]) env.atRoot.enter
      after = some (.ok scope, after) := by
    have harg : (Run.ofOption (.wrongArgument param v.ty) span (v.coerce param) : Run σ Value)
        after = some (.ok a, after) := by rw [ha]; rfl
    refine Run.bind_of_ok (x := bindParam _ _ _ _) (a := scope) ?_
    refine (Run.bind_of_ok (a := param) rfl).trans ?_
    exact Run.bind_of_ok harg
  have hbody : block (value host (depth + 1)) f.body scope after = some (.ok a, after) := rfl
  have hresult : (Run.ofOption (.wrongResult ret a.ty) f.body.resultSpan (a.coerce ret) :
      Run σ Value) after = some (.ok b, after) := by rw [hb]; rfl
  calc call host (depth + 2) (.defined f) [⟨v, span⟩] env paren w
      = callDefined (value host (depth + 1)) f [⟨v, span⟩] env paren after := Run.bind_of_ok rfl
    _ = some (.ok b, after) := by
      rw [callDefined, Run.bind_of_ok hret, Run.bind_of_ok hcount, Run.bind_of_ok hparams,
        Run.bind_of_ok hbody, hresult]

/-- A value that becomes one of a concrete integer type becomes the same in a type of the same
signedness that is not wider, whether it is coerced directly or from there. So an integer that is
widened comes back, and an untyped literal loses nothing in a wider parameter. -/
theorem Value.coerce_narrower {sign : Sign} {wide narrow : Width}
    (hwidth : narrow.bits ≤ wide.bits) :
    (∀ v a : Value, v.coerce (.int (.sized sign wide)) = some a →
      a.coerce (.int (.sized sign narrow)) = v.coerce (.int (.sized sign narrow))) ∧
    (∀ n : Integer (.sized sign narrow), ∃ a : Value,
      (Value.int _ n).coerce (.int (.sized sign wide)) = some a ∧
        a.coerce (.int (.sized sign narrow)) = some (.int _ n)) ∧
    (∀ v : Value, v.ty.isUntyped = true → ∃ a b : Value,
      v.coerce (.int (.sized sign wide)) = some a ∧
        a.coerce (.int (.sized sign narrow)) = some b ∧
        v.coerce (.int (.sized sign narrow)) = some b ∧
        ∀ (σ : Type) (host : Host σ) (depth : Nat) (env : Env) (span paren : Span) (w : World σ),
          ∃ w', Eval.call host (depth + 2)
            (.defined (.passing (.int (.sized sign wide)) (.int (.sized sign narrow))))
            [⟨v, span⟩] env paren w = some (.ok b, w')) := by
  refine ⟨fun v a => coerce_of_coerce hwidth, fun n => ?_, fun v hv => ?_⟩
  · obtain ⟨a, ha⟩ := (exists_coerce_iff (.int _ n) (.int (.sized sign wide))).2
      (.inr (.inr (sized_adapts sign narrow wide)))
    refine ⟨a, ha, ?_⟩
    rw [coerce_of_coerce hwidth ha]
    exact coerce_ty_self (.int _ n)
  · obtain ⟨a, ha⟩ := (exists_coerce_iff v _).2 (.inr (.inr (untyped_adapts hv sign wide)))
    obtain ⟨b, hb⟩ := (exists_coerce_iff v _).2 (.inr (.inr (untyped_adapts hv sign narrow)))
    have hab := (coerce_of_coerce hwidth ha).trans hb
    refine ⟨a, b, ha, hab, hb, fun σ host depth env span paren w => ?_⟩
    exact ⟨_, Eval.call_passing host depth ha hab env span paren w⟩

/-- The literal 70000 of 17 bits, in 16 bits on its way to 8. -/
theorem Value.coerce_narrower_literal :
    let v : Value := .int (.literal .signed) ⟨70000, by decide, by decide⟩
    let a : Value := .int (.sized .signed .w16) ⟨4464, by decide, by decide⟩
    Width.w8.bits ≤ Width.w16.bits ∧
      v.coerce (.int (.sized .signed .w16)) = some a ∧
      a.coerce (.int (.sized .signed .w8)) = v.coerce (.int (.sized .signed .w8)) := by
  intro v a
  have hwidth : Width.w8.bits ≤ Width.w16.bits := by decide
  have ha : v.coerce (.int (.sized .signed .w16)) = some a := rfl
  exact ⟨hwidth, ha, (Value.coerce_narrower hwidth).1 v a ha⟩

end ExprLang
