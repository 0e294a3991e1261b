import ExprLang.Value.Coerce
import ExprLang.Diagnostic

/-!
# Arithmetic on values

An operator takes two values of the same type, which is the type of its result (`Operator.check`).
`Operator.align` brings two operands to one type beforehand, where a coercion of either does.
Integers are combined exactly or not at all, floating-point numbers with one rounding, and `+` joins
texts.
-/

namespace ExprLang

namespace Operator

/-- Whether an operator takes operands of a type. -/
def takes (op : Operator) (t : Ty) : Bool := t.isNumeric || (op == .add && t == .string)

/-- The type of `left op right`, or why there is none. -/
def check (op : Operator) (left right : Value) : Except Problem Ty :=
  if left.ty ≠ right.ty then .error (.mismatched op left.ty right.ty)
  else if op.takes left.ty then .ok left.ty
  else .error (.inoperable op left.ty)

/-- The operator on integers. -/
def onIntegers {t : IntType} : Operator → Integer t → Integer t → Option (Integer t)
  | add => Integer.add?
  | sub => Integer.sub?
  | mul => Integer.mul?
  | div => Integer.div?

/-- The operator on floating-point numbers. -/
def onReals {f : Format} : Operator → Binary f → Binary f → Binary f
  | add => Binary.add
  | sub => Binary.sub
  | mul => Binary.mul
  | div => Binary.div

/-- Why an operator has no result on two integers of a type. -/
def integerProblem (op : Operator) (right : Int) : Problem :=
  if op = .div ∧ right = 0 then .divisionByZero else .overflow op

/-- The operator on two values that it takes. -/
def combine (op : Operator) : Value → Value → Except Problem Value
  | .int s m, .int t n =>
    if h : t = s then
      match op.onIntegers m (h ▸ n) with
      | some r => .ok (.int s r)
      | none => .error (op.integerProblem n.val)
    else .error (.mismatched op (.int s) (.int t))
  | .real s x, .real t y =>
    if h : t = s then .ok (.real s (op.onReals x (h ▸ y)))
    else .error (.mismatched op (.real s) (.real t))
  | .string a, .string b =>
    if op = .add then .ok (.string (a ++ b)) else .error (.inoperable op .string)
  | left, _ => .error (.inoperable op left.ty)

/-- The value of `left op right`, or why there is none. -/
def apply (op : Operator) (left right : Value) : Except Problem Value := do
  let _ ← op.check left right
  op.combine left right

/-- An operator keeps the type of its left operand. -/
theorem ty_of_combine {op : Operator} {left right v : Value} (h : op.combine left right = .ok v) :
    v.ty = left.ty := by
  cases left with
  | int s m =>
    cases right with
    | int t n =>
      simp only [combine] at h
      split at h
      · split at h
        · cases h; rfl
        · cases h
      · cases h
    | _ => cases h
  | real s x =>
    cases right with
    | real t y =>
      simp only [combine] at h
      split at h
      · cases h; rfl
      · cases h
    | _ => cases h
  | string a =>
    cases right with
    | string b =>
      simp only [combine] at h
      split at h
      · cases h; rfl
      · cases h
    | _ => cases h
  | _ => cases right <;> cases h

theorem eq_ty_of_check {op : Operator} {left right : Value} {t : Ty}
    (h : op.check left right = .ok t) : t = left.ty := by
  unfold check at h
  split at h
  · cases h
  split at h
  · cases h; rfl
  · cases h

/-- An operator that has a result was promised one of that type. -/
theorem check_of_apply {op : Operator} {left right v : Value} (h : op.apply left right = .ok v) :
    op.check left right = .ok v.ty := by
  unfold apply at h
  cases hcheck : op.check left right with
  | error p => rw [hcheck] at h; cases h
  | ok t =>
    rw [hcheck] at h
    rw [eq_ty_of_check hcheck, ty_of_combine h]

/-- On values that it takes, an operator fails in its arithmetic only. -/
theorem kind_of_apply {op : Operator} {left right : Value} {t : Ty} {p : Problem}
    (hcheck : op.check left right = .ok t) (h : op.apply left right = .error p) :
    p.kind = .arithmeticError := by
  have hcombine : op.combine left right = .error p := by
    unfold apply at h
    rw [hcheck] at h
    exact h
  unfold check at hcheck
  split at hcheck
  · cases hcheck
  rename_i hne
  have hty : left.ty = right.ty := Decidable.not_not.1 hne
  split at hcheck
  · rename_i htakes
    cases left with
    | int s m =>
      cases right with
      | int t n =>
        cases hty
        simp only [combine, dite_true] at hcombine
        split at hcombine
        · cases hcombine
        · cases hcombine
          unfold integerProblem
          split <;> rfl
      | _ => cases hty
    | real s x =>
      cases right with
      | real t y =>
        cases hty
        simp [combine] at hcombine
      | _ => cases hty
    | string a =>
      cases right with
      | string b =>
        cases op with
        | add => simp [combine] at hcombine
        | _ => cases htakes
      | _ => cases hty
    | _ => cases op <;> cases htakes
  · cases hcheck

end Operator

/-- Brings two operands to one type: the right one to the type of the left one, or else the left one
to the type of the right one, or else they stay as they are. -/
def Value.align (left right : Value) : Value × Value :=
  match right.coerce left.ty with
  | some right => (left, right)
  | none =>
    match left.coerce right.ty with
    | some left => (left, right)
    | none => (left, right)

end ExprLang
