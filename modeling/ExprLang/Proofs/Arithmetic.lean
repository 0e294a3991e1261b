import Mathlib.Data.Int.ConditionallyCompleteOrder
import ExprLang.Eval
import ExprLang.Proofs.Truncation

/-!
# Arithmetic that is exact or fails

What an operator is on numbers (`Operator.result?`) is said without a type: division truncates the
quotient toward zero, and by zero there is none. On two integers of one type an operator gives this
number where the type holds it, and otherwise a problem of arithmetic (`Operator.apply_exact`).

There are rules for two integers of one type, for two floating-point numbers of one type and, for
`+`, for two texts (`Operator.combine?`). The check before an operator lets no other operands
through (`Operator.Operands.of_check`), so that a rule is always found, and what the check says is
what becomes of the operation, arithmetic aside.
-/

namespace ExprLang

theorem tdiv_eq_towardZero (l r : ℤ) : l.tdiv r = towardZero (l / r) := by
  have hquotient : ∀ m n : ℕ, ⌊(m : ℚ) / n⌋ = (m : ℤ) / n :=
    fun m n => Rat.floor_natCast_div_natCast m n
  have hnonneg : ∀ m n : ℕ, (0 : ℚ) ≤ m / n := fun m n => by positivity
  obtain ⟨m, rfl | rfl⟩ := l.eq_nat_or_neg
  · obtain ⟨n, rfl | rfl⟩ := r.eq_nat_or_neg
    · simp [towardZero_of_nonneg (hnonneg m n), hquotient]
    · simp [div_neg, towardZero_neg (hnonneg m n), hquotient]
  · obtain ⟨n, rfl | rfl⟩ := r.eq_nat_or_neg
    · simp [neg_div, towardZero_neg (hnonneg m n), hquotient]
    · simp [towardZero_of_nonneg (hnonneg m n), hquotient]

namespace Operator

/-! ## Operators on numbers -/

/-- The number that an operator gives. Division leaves the integer part of the quotient, and nothing
is divided by zero. -/
def result? (op : Operator) (l r : ℤ) : Option ℤ :=
  match op with
  | add => some (l + r)
  | sub => some (l - r)
  | mul => some (l * r)
  | div => if r = 0 then none else some (towardZero (l / r))

/-- On integers of a type an operator is the one on numbers, where the type holds the result. -/
theorem onIntegers_eq (op : Operator) {t : IntType} (m n : Integer t) :
    op.onIntegers m n = (op.result? m.val n.val).bind (Integer.ofInt? t) := by
  cases op with
  | add => rfl
  | sub => rfl
  | mul => rfl
  | div =>
    simp only [onIntegers, Integer.div?, result?, tdiv_eq_towardZero]
    split <;> rfl

theorem onIntegers_eq_some_iff {op : Operator} {t : IntType} {m n r : Integer t} :
    op.onIntegers m n = some r ↔ op.result? m.val n.val = some r.val := by
  rw [onIntegers_eq, Option.bind_eq_some_iff]
  constructor
  · rintro ⟨k, hk, hr⟩
    rw [hk, Integer.ofInt?_eq_some_iff.1 hr]
  · exact fun h => ⟨r.val, h, Integer.ofInt?_val r⟩

theorem onIntegers_eq_none_iff {op : Operator} {t : IntType} {m n : Integer t} :
    op.onIntegers m n = none ↔
      ¬∃ k ∈ Set.Icc t.least t.greatest, op.result? m.val n.val = some k := by
  rw [Option.eq_none_iff_forall_ne_some]
  constructor
  · rintro h ⟨k, hk, hresult⟩
    exact h ⟨k, hk.1, hk.2⟩ (onIntegers_eq_some_iff.2 hresult)
  · exact fun h r hr => h ⟨r.val, ⟨r.least_le, r.le_greatest⟩, onIntegers_eq_some_iff.1 hr⟩

theorem kind_integerProblem (op : Operator) (r : ℤ) :
    (op.integerProblem r).kind = .arithmeticError := by
  unfold integerProblem
  split <;> rfl

theorem message_integerProblem (op : Operator) (r : ℤ) :
    (op.integerProblem r).message =
      if op = .div ∧ r = 0 then "attempt to divide by zero"
      else "arithmetic overflow in operator '" ++ op.symbol ++ "'" := by
  unfold integerProblem
  split <;> rfl

/-- The two messages of arithmetic differ. -/
theorem message_integerProblem_eq_iff (op : Operator) (r : ℤ) :
    (op.integerProblem r).message = "attempt to divide by zero" ↔ op = .div ∧ r = 0 := by
  rw [message_integerProblem]
  constructor
  · intro h
    by_contra hneg
    rw [if_neg hneg] at h
    cases op <;> exact absurd h (by decide)
  · exact fun h => if_pos h

/-! ## Operands that pass the check -/

/-- The operands that an operator has a rule for. -/
inductive Operands : Operator → Value → Value → Prop
  | integers {op : Operator} {t : IntType} (m n : Integer t) : Operands op (.int t m) (.int t n)
  | reals {op : Operator} {t : RealType} (x y : Binary t.format) :
    Operands op (.real t x) (.real t y)
  | texts (a b : String) : Operands .add (.string a) (.string b)

theorem check_eq_ok_iff {op : Operator} {left right : Value} {t : Ty} :
    op.check left right = .ok t ↔ left.ty = t ∧ right.ty = t ∧ op.takes t = true := by
  unfold check
  split
  · rename_i hne
    exact ⟨fun h => (nomatch h), fun ⟨hl, hr, _⟩ => absurd (hl.trans hr.symm) hne⟩
  · rename_i hty
    have hty : left.ty = right.ty := Decidable.not_not.1 hty
    split
    · rename_i htakes
      constructor
      · rintro ⟨⟩
        exact ⟨rfl, hty.symm, htakes⟩
      · rintro ⟨rfl, -, -⟩
        rfl
    · rename_i htakes
      constructor
      · exact fun h => nomatch h
      · rintro ⟨rfl, -, h⟩
        exact absurd h htakes

theorem Operands.of_check {op : Operator} {left right : Value} {t : Ty}
    (h : op.check left right = .ok t) : op.Operands left right := by
  obtain ⟨hleft, hright, htakes⟩ := check_eq_ok_iff.1 h
  cases left with
  | int s m =>
    subst hleft
    cases right <;> cases hright
    exact .integers m _
  | real s x =>
    subst hleft
    cases right <;> cases hright
    exact .reals x _
  | string a =>
    subst hleft
    cases right <;> cases hright
    -- of the operators only `+` takes texts
    cases op with
    | add => exact .texts a _
    | _ => cases htakes
  | _ =>
    subst hleft
    cases op <;> cases htakes

/-- What is wrong with operands that do not pass the check. -/
theorem kind_of_check {op : Operator} {left right : Value} {p : Problem}
    (h : op.check left right = .error p) : p.kind = .mismatchedTypes ∨ p.kind = .cantOperate := by
  unfold check at h
  split at h
  · cases h
    exact .inl rfl
  split at h
  · cases h
  · cases h
    exact .inr rfl

theorem apply_of_check {op : Operator} {left right : Value} {t : Ty}
    (h : op.check left right = .ok t) : op.apply left right = op.combine left right := by
  rw [apply, h]
  rfl

theorem apply_of_check_error {op : Operator} {left right : Value} {p : Problem}
    (h : op.check left right = .error p) : op.apply left right = .error p := by
  rw [apply, h]
  rfl

/-! ## Rules for operands -/

/-- The operator by the rule for its operands, if there is one. -/
def combine? (op : Operator) : Value → Value → Option (Except Problem Value)
  | .int s m, .int t n =>
    if h : t = s then
      match op.onIntegers m (h ▸ n) with
      | some r => some (.ok (.int s r))
      | none => some (.error (op.integerProblem n.val))
    else none
  | .real s x, .real t y =>
    if h : t = s then some (.ok (.real s (op.onReals x (h ▸ y)))) else none
  | .string a, .string b => if op = .add then some (.ok (.string (a ++ b))) else none
  | _, _ => none

/-- The operator on any two values, which after the check are left to the rules. -/
def applied? (op : Operator) (left right : Value) : Option (Except Problem Value) :=
  match op.check left right with
  | .ok _ => op.combine? left right
  | .error p => some (.error p)

theorem combine?_eq_some {op : Operator} {left right : Value} (h : op.Operands left right) :
    op.combine? left right = some (op.combine left right) := by
  cases h with
  | integers m n =>
    simp only [combine?, combine, dite_true]
    cases op.onIntegers m n <;> rfl
  | reals x y => simp [combine?, combine]
  | texts a b => rfl

/-- The check leaves no operands without a rule. -/
theorem applied?_eq_some (op : Operator) (left right : Value) :
    op.applied? left right = some (op.apply left right) := by
  unfold applied?
  split
  · rename_i t hcheck
    rw [apply_of_check hcheck, combine?_eq_some (Operands.of_check hcheck)]
  · rename_i p hcheck
    rw [apply_of_check_error hcheck]

/-- What the check says happens, but for arithmetic. -/
theorem check_eq_error_iff {op : Operator} {left right : Value} {p : Problem} :
    op.check left right = .error p ↔ op.apply left right = .error p ∧
      (p.kind = .mismatchedTypes ∨ p.kind = .cantOperate) := by
  constructor
  · exact fun h => ⟨apply_of_check_error h, kind_of_check h⟩
  · rintro ⟨happly, hkind⟩
    cases hcheck : op.check left right with
    | error q =>
      rw [apply_of_check_error hcheck] at happly
      cases happly
      rfl
    | ok t =>
      rw [kind_of_apply hcheck happly] at hkind
      rcases hkind with h | h <;> cases h

theorem exists_check_iff {op : Operator} {left right : Value} :
    (∃ t, op.check left right = .ok t) ↔ (∃ v, op.apply left right = .ok v) ∨
      ∃ p, op.apply left right = .error p ∧ p.kind = .arithmeticError := by
  constructor
  · rintro ⟨t, hcheck⟩
    cases happly : op.apply left right with
    | ok v => exact .inl ⟨v, rfl⟩
    | error p => exact .inr ⟨p, rfl, kind_of_apply hcheck happly⟩
  · rintro (⟨v, happly⟩ | ⟨p, happly, hkind⟩)
    · exact ⟨v.ty, check_of_apply happly⟩
    · cases hcheck : op.check left right with
      | ok t => exact ⟨t, rfl⟩
      | error q =>
        rw [apply_of_check_error hcheck] at happly
        cases happly
        rcases kind_of_check hcheck with h | h <;> rw [hkind] at h <;> cases h

/-! ## Integers of one type -/

theorem check_int (op : Operator) {t : IntType} (m n : Integer t) :
    op.check (.int t m) (.int t n) = .ok (.int t) := by
  refine check_eq_ok_iff.2 ⟨rfl, rfl, ?_⟩
  rcases t with ⟨_ | _, w⟩ | _ <;> rfl

theorem apply_int_of_some {op : Operator} {t : IntType} {m n r : Integer t}
    (h : op.onIntegers m n = some r) : op.apply (.int t m) (.int t n) = .ok (.int t r) := by
  rw [apply_of_check (check_int op m n)]
  simp only [combine, dite_true, h]

theorem apply_int_of_none {op : Operator} {t : IntType} {m n : Integer t}
    (h : op.onIntegers m n = none) :
    op.apply (.int t m) (.int t n) = .error (op.integerProblem n.val) := by
  rw [apply_of_check (check_int op m n)]
  simp only [combine, dite_true, h]

/-- **An operator is exact or fails.** On any two values there is a rule for it or the check stops
it. Two integers of one type give the exact result, if there is one and the type holds it, and
otherwise stop with a problem of arithmetic at the span of the operation, which speaks of zero
exactly if they are divided and the right one is zero. Texts are joined. And an operation is stopped
by its operands exactly as the check says. -/
theorem apply_exact (op : Operator) :
    (∀ left right : Value, op.applied? left right = some (op.apply left right)) ∧
    (∀ (t : IntType) (m n : Integer t),
      (∀ k ∈ Set.Icc t.least t.greatest, op.result? m.val n.val = some k →
        ∃ r : Integer t, r.val = k ∧ op.apply (.int t m) (.int t n) = .ok (.int t r)) ∧
      ((¬∃ k ∈ Set.Icc t.least t.greatest, op.result? m.val n.val = some k) →
        ∃ p : Problem, p.kind = .arithmeticError ∧
          (p.message = "attempt to divide by zero" ↔ op = .div ∧ n.val = 0) ∧
          (¬(op = .div ∧ n.val = 0) →
            p.message = "arithmetic overflow in operator '" ++ op.symbol ++ "'") ∧
          ∀ (σ : Type) (span : Span) (w : World σ),
            Run.ofExcept span (op.apply (.int t m) (.int t n)) w = some (.error ⟨p, span⟩, w))) ∧
    (∀ a b : String, Operator.add.apply (.string a) (.string b) = .ok (.string (a ++ b))) ∧
    ∀ left right : Value,
      (∀ p, op.check left right = .error p ↔ op.apply left right = .error p ∧
        (p.kind = .mismatchedTypes ∨ p.kind = .cantOperate)) ∧
      (∀ t, op.check left right = .ok t → ∀ v, op.apply left right = .ok v → v.ty = t) ∧
      ((∃ t, op.check left right = .ok t) ↔ (∃ v, op.apply left right = .ok v) ∨
        ∃ p, op.apply left right = .error p ∧ p.kind = .arithmeticError) := by
  refine ⟨op.applied?_eq_some, fun t m n => ⟨fun k hk hresult => ?_, fun hnone => ?_⟩,
    fun a b => rfl, ?_⟩
  · have hsome : op.onIntegers m n = some ⟨k, hk.1, hk.2⟩ := onIntegers_eq_some_iff.2 hresult
    exact ⟨⟨k, hk.1, hk.2⟩, rfl, apply_int_of_some hsome⟩
  · refine ⟨op.integerProblem n.val, op.kind_integerProblem n.val,
      op.message_integerProblem_eq_iff n.val, fun hdiv => ?_, fun σ span w => ?_⟩
    · rw [message_integerProblem, if_neg hdiv]
    · rw [apply_int_of_none (onIntegers_eq_none_iff.2 hnone)]
      rfl
  · refine fun left right => ⟨fun p => check_eq_error_iff, fun t hcheck v happly => ?_,
      exists_check_iff⟩
    have hpromised := check_of_apply happly
    rw [hcheck] at hpromised
    cases hpromised
    rfl

/-- The least integer of 8 bits divided by -1, which is one more than the greatest. -/
theorem apply_exact_quotient :
    let m : Integer (.sized .signed .w8) := ⟨-128, by decide, by decide⟩
    let n : Integer (.sized .signed .w8) := ⟨-1, by decide, by decide⟩
    Operator.div.result? m.val n.val = some 128 ∧
      ∃ p : Problem, p.kind = .arithmeticError ∧
        p.message = "arithmetic overflow in operator '/'" ∧
        ∀ (σ : Type) (span : Span) (w : World σ),
          Run.ofExcept span (Operator.div.apply (.int _ m) (.int _ n)) w =
            some (.error ⟨p, span⟩, w) := by
  intro m n
  have hresult : Operator.div.result? m.val n.val = some 128 := by
    rw [result?, if_neg (by decide), ← tdiv_eq_towardZero]
    rfl
  have hnone : ¬∃ k ∈ Set.Icc (IntType.sized .signed .w8).least
      (IntType.sized .signed .w8).greatest, Operator.div.result? m.val n.val = some k := by
    rintro ⟨k, hk, h⟩
    rw [hresult] at h
    cases h
    exact absurd hk.2 (by decide)
  obtain ⟨p, hkind, -, hmessage, hrun⟩ := ((apply_exact .div).2.1 _ m n).2 hnone
  exact ⟨hresult, p, hkind, hmessage (by decide), hrun⟩

end Operator

end ExprLang
