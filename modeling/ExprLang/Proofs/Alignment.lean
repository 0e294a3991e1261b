import ExprLang.Proofs.Arithmetic

/-!
# Operands brought to one type

Alignment coerces the right operand to the type of the left one, or else the left one to the type of
the right one. Whether either coercion exists is decided by the types (`Ty.Fits`), so the two orders
of the operands are aligned alike: only which of two numeric types is taken depends on the order
(`Value.ty_align_of_fits`, `Value.ty_align_of_fits_left`). Where the types are equal or one operand
is an untyped literal, aligning the operands the other way round gives the same pair turned round
(`Value.align_swap`), and sums and products do not depend on the order of the operands
(`Operator.align_symmetric`).
-/

namespace ExprLang

/-! ## Types -/

namespace Ty

/-- The concrete types of numbers. -/
def isConcrete (t : Ty) : Bool := t.isUnsigned || t.isSigned || t.isFloat

/-- Two concrete types of numbers of which the one is coerced to the other. -/
inductive OneFamily (s t : Ty) : Prop
  | unsigned (hs : s.isUnsigned = true) (ht : t.isUnsigned = true)
  | signed (hs : s.isSigned = true) (ht : t.isSigned = true)
  | float (hs : s.isFloat = true) (ht : t.isFloat = true)

/-- The type that two numeric operands are brought to: that of the left one if the types are equal
or of one family, and the concrete one if the other is that of an untyped literal. -/
inductive Common (l r : Ty) : Ty → Prop
  | equal (h : l = r) (hnumeric : l.isNumeric = true) : Common l r l
  | family (h : OneFamily l r) : Common l r l
  | literalLeft (hl : l.isUntyped = true) (hr : r.isConcrete = true) : Common l r r
  | literalRight (hl : l.isConcrete = true) (hr : r.isUntyped = true) : Common l r l

/-- The values of the first type can be coerced to the second. -/
def Fits (s t : Ty) : Prop := t = .void ∨ t = s ∨ s.Adapts t

theorem OneFamily.symm {s t : Ty} (h : OneFamily s t) : OneFamily t s := by
  cases h with
  | unsigned hs ht => exact .unsigned ht hs
  | signed hs ht => exact .signed ht hs
  | float hs ht => exact .float ht hs

theorem isConcrete_iff {t : Ty} :
    t.isConcrete = true ↔ t.isUnsigned = true ∨ t.isSigned = true ∨ t.isFloat = true := by
  simp [isConcrete, or_assoc]

theorem isNumeric_eq (t : Ty) : t.isNumeric = (t.isConcrete || t.isUntyped) := rfl

theorem not_isUntyped_of_isConcrete {t : Ty} (h : t.isConcrete = true) : t.isUntyped = false := by
  rcases t with (_ | _) | (_ | _ | _ | _) | _ | _ | _ | _
  case int.sized => rfl
  case real.float => rfl
  case real.double => rfl
  all_goals cases h

theorem ne_void_of_isNumeric {t : Ty} (h : t.isNumeric = true) : t ≠ .void := by
  rintro rfl
  cases h

/-- A number adapts to the types of its family, and an untyped literal to all concrete types. -/
theorem adapts_iff {s t : Ty} :
    s.Adapts t ↔ s.isUntyped = true ∧ t.isConcrete = true ∨ OneFamily s t := by
  constructor
  · intro h
    cases h with
    | untyped hs ht => exact .inl ⟨hs, isConcrete_iff.2 ht⟩
    | unsigned hs ht => exact .inr (.unsigned hs ht)
    | signed hs ht => exact .inr (.signed hs ht)
    | float hs ht => exact .inr (.float hs ht)
  · rintro (⟨hs, ht⟩ | ⟨hs, ht⟩ | ⟨hs, ht⟩ | ⟨hs, ht⟩)
    · exact .untyped hs (isConcrete_iff.1 ht)
    · exact .unsigned hs ht
    · exact .signed hs ht
    · exact .float hs ht

theorem OneFamily.isConcrete {s t : Ty} (h : OneFamily s t) : t.isConcrete = true :=
  isConcrete_iff.2 (adapts_iff.2 (.inr h)).concrete

theorem Adapts.isNumeric {s t : Ty} (h : s.Adapts t) : s.isNumeric = true ∧ t.isNumeric = true := by
  rcases adapts_iff.1 h with ⟨hs, ht⟩ | hfamily
  · simp [isNumeric_eq, hs, ht]
  · simp [isNumeric_eq, hfamily.isConcrete, hfamily.symm.isConcrete]

/-- Nothing but an untyped literal becomes one. -/
theorem not_fits_of_isUntyped {s t : Ty} (ht : t.isUntyped = true) (hs : s.isUntyped = false) :
    ¬s.Fits t := by
  rintro (rfl | rfl | h)
  · cases ht
  · rw [hs] at ht
    cases ht
  · rw [not_isUntyped_of_isConcrete (isConcrete_iff.2 h.concrete)] at ht
    cases ht

/-- An operator takes both of two types that fit each other, or neither. -/
theorem takes_eq_of_fits {s t : Ty} (op : Operator) (h : s.Fits t) (h' : t.Fits s) :
    op.takes s = op.takes t := by
  rcases h with rfl | rfl | h
  · rcases h' with rfl | rfl | h'
    · rfl
    · rfl
    · exact absurd rfl (ne_void_of_isNumeric h'.isNumeric.1)
  · rfl
  · simp [Operator.takes, h.isNumeric.1, h.isNumeric.2]

end Ty

/-! ## Aligned values -/

namespace Value

theorem fits_iff {v : Value} {t : Ty} : v.ty.Fits t ↔ ∃ v', v.coerce t = some v' :=
  (exists_coerce_iff v t).symm

theorem coerce_of_not_fits {v : Value} {t : Ty} (h : ¬v.ty.Fits t) : v.coerce t = none := by
  rw [fits_iff] at h
  exact Option.eq_none_iff_forall_ne_some.2 fun v' hv' => h ⟨v', hv'⟩

variable {l r : Value}

theorem align_of_right {r' : Value} (h : r.coerce l.ty = some r') : l.align r = (l, r') := by
  simp only [align, h]

theorem align_of_left {l' : Value} (hr : r.coerce l.ty = none) (hl : l.coerce r.ty = some l') :
    l.align r = (l', r) := by
  simp only [align, hr, hl]

theorem align_of_none (hr : r.coerce l.ty = none) (hl : l.coerce r.ty = none) :
    l.align r = (l, r) := by
  simp only [align, hr, hl]

theorem ty_align_of_fits (h : r.ty.Fits l.ty) :
    (l.align r).1.ty = l.ty ∧ (l.align r).2.ty = l.ty := by
  obtain ⟨r', hr'⟩ := fits_iff.1 h
  rw [align_of_right hr']
  exact ⟨rfl, ty_of_coerce hr'⟩

theorem ty_align_of_fits_left (hr : ¬r.ty.Fits l.ty) (hl : l.ty.Fits r.ty) :
    (l.align r).1.ty = r.ty ∧ (l.align r).2.ty = r.ty := by
  obtain ⟨l', hl'⟩ := fits_iff.1 hl
  rw [align_of_left (coerce_of_not_fits hr) hl']
  exact ⟨ty_of_coerce hl', rfl⟩

theorem align_of_not_fits (hr : ¬r.ty.Fits l.ty) (hl : ¬l.ty.Fits r.ty) : l.align r = (l, r) :=
  align_of_none (coerce_of_not_fits hr) (coerce_of_not_fits hl)

/-- An untyped literal on the left is what is coerced, if anything is. -/
theorem align_of_literal_left (hl : l.ty.isUntyped = true) (hr : r.ty.isUntyped = false) :
    l.align r = ((l.coerce r.ty).getD l, r) := by
  have hnone := coerce_of_not_fits (Ty.not_fits_of_isUntyped hl hr)
  cases hcoerce : l.coerce r.ty with
  | some l' => exact align_of_left hnone hcoerce
  | none => exact align_of_none hnone hcoerce

theorem align_of_literal_right (hl : l.ty.isUntyped = false) (hr : r.ty.isUntyped = true) :
    l.align r = (l, (r.coerce l.ty).getD r) := by
  have hnone := coerce_of_not_fits (Ty.not_fits_of_isUntyped hr hl)
  cases hcoerce : r.coerce l.ty with
  | some r' => exact align_of_right hcoerce
  | none => exact align_of_none hcoerce hnone

/-- Operands of one type, or an untyped literal and another operand, are aligned to the same two
values in either order. -/
theorem align_swap (h : l.ty = r.ty ∨ l.ty.isUntyped ≠ r.ty.isUntyped) :
    r.align l = (l.align r).swap := by
  rcases h with hty | hliteral
  · have hr : r.coerce l.ty = some r := by rw [hty, coerce_ty_self]
    have hl : l.coerce r.ty = some l := by rw [← hty, coerce_ty_self]
    rw [align_of_right hr, align_of_right hl]
    rfl
  · cases hl : l.ty.isUntyped with
    | true =>
      have hr : r.ty.isUntyped = false := by simpa [hl] using hliteral
      rw [align_of_literal_left hl hr, align_of_literal_right hr hl]
      rfl
    | false =>
      have hr : r.ty.isUntyped = true := by simpa [hl] using hliteral
      rw [align_of_literal_right hl hr, align_of_literal_left hr hl]
      rfl

end Value

/-! ## Operators on aligned values -/

namespace Operator

/-- The type of `left op right` once the operands are aligned, or why there is none. -/
def checkAligned (op : Operator) (left right : Value) : Except Problem Ty :=
  op.check (left.align right).1 (left.align right).2

/-- The value of `left op right` once the operands are aligned, or why there is none. -/
def applyAligned (op : Operator) (left right : Value) : Except Problem Value :=
  op.apply (left.align right).1 (left.align right).2

/-- Why operands of two types are refused, if they are. -/
def refusal? (op : Operator) (s t : Ty) : Option Kind :=
  if s ≠ t then some .mismatchedTypes else if op.takes s then none else some .cantOperate

theorem exists_check_error_iff {op : Operator} {left right : Value} {k : Kind} :
    (∃ p, op.check left right = .error p ∧ p.kind = k) ↔ op.refusal? left.ty right.ty = some k := by
  unfold check refusal?
  split
  · simp [Problem.kind]
  split
  · simp
  · simp [Problem.kind]

/-- The order of the operands does not decide whether and why they are refused. -/
theorem refusal?_align (op : Operator) (l r : Value) :
    op.refusal? (l.align r).1.ty (l.align r).2.ty =
      op.refusal? (r.align l).1.ty (r.align l).2.ty := by
  by_cases hr : r.ty.Fits l.ty
  · obtain ⟨h₁, h₂⟩ := Value.ty_align_of_fits hr
    by_cases hl : l.ty.Fits r.ty
    -- each operand could be coerced: the types differ, but not in whether the operator takes them
    · obtain ⟨h₃, h₄⟩ := Value.ty_align_of_fits hl
      rw [h₁, h₂, h₃, h₄, refusal?, refusal?, Ty.takes_eq_of_fits op hl hr]
      simp
    · obtain ⟨h₃, h₄⟩ := Value.ty_align_of_fits_left hl hr
      rw [h₁, h₂, h₃, h₄]
  · by_cases hl : l.ty.Fits r.ty
    · obtain ⟨h₁, h₂⟩ := Value.ty_align_of_fits_left hr hl
      obtain ⟨h₃, h₄⟩ := Value.ty_align_of_fits hl
      rw [h₁, h₂, h₃, h₄]
    · have hne : l.ty ≠ r.ty := fun h => hr (.inr (.inl h))
      rw [Value.align_of_not_fits hr hl, Value.align_of_not_fits hl hr, refusal?, refusal?,
        if_pos hne, if_pos hne.symm]

/-- Numeric operands are brought to their common type, and no others to a numeric type. -/
theorem checkAligned_eq_ok_iff {op : Operator} {l r : Value} {t : Ty} :
    op.checkAligned l r = .ok t ∧ t.isNumeric = true ↔ Ty.Common l.ty r.ty t := by
  have htakes : t.isNumeric = true → op.takes t = true := fun h => by simp [takes, h]
  rw [checkAligned, check_eq_ok_iff]
  constructor
  · rintro ⟨⟨h₁, h₂, -⟩, hnumeric⟩
    by_cases hr : r.ty.Fits l.ty
    · obtain rfl := (Value.ty_align_of_fits hr).1.symm.trans h₁
      rcases hr with hvoid | hsame | hadapts
      · exact absurd hvoid (Ty.ne_void_of_isNumeric hnumeric)
      · exact .equal hsame hnumeric
      · rcases Ty.adapts_iff.1 hadapts with ⟨hliteral, hconcrete⟩ | hfamily
        · exact .literalRight hconcrete hliteral
        · exact .family hfamily.symm
    by_cases hl : l.ty.Fits r.ty
    · obtain rfl := (Value.ty_align_of_fits_left hr hl).1.symm.trans h₁
      rcases hl with hvoid | hsame | hadapts
      · exact absurd hvoid (Ty.ne_void_of_isNumeric hnumeric)
      · exact absurd (.inr (.inl hsame.symm)) hr
      · rcases Ty.adapts_iff.1 hadapts with ⟨hliteral, hconcrete⟩ | hfamily
        · exact .literalLeft hliteral hconcrete
        · exact absurd (.inr (.inr (Ty.adapts_iff.2 (.inr hfamily.symm)))) hr
    · rw [Value.align_of_not_fits hr hl] at h₁ h₂
      exact absurd (.inr (.inl (h₁.trans h₂.symm))) hr
  · intro hcommon
    -- every case but that of a literal on the left coerces the right operand
    have hright : r.ty.Fits l.ty → l.ty.isNumeric = true →
        ((l.align r).1.ty = l.ty ∧ (l.align r).2.ty = l.ty ∧ op.takes l.ty = true) ∧
          l.ty.isNumeric = true := fun hfits hnumeric =>
      ⟨⟨(Value.ty_align_of_fits hfits).1, (Value.ty_align_of_fits hfits).2,
        by simp [takes, hnumeric]⟩, hnumeric⟩
    cases hcommon with
    | equal h hnumeric => exact hright (.inr (.inl h)) hnumeric
    | family h =>
      have hadapts : r.ty.Adapts l.ty := Ty.adapts_iff.2 (.inr h.symm)
      exact hright (.inr (.inr hadapts)) hadapts.isNumeric.2
    | literalRight hl hr =>
      have hadapts : r.ty.Adapts l.ty := Ty.adapts_iff.2 (.inl ⟨hr, hl⟩)
      exact hright (.inr (.inr hadapts)) hadapts.isNumeric.2
    | literalLeft hl hr =>
      have hadapts : l.ty.Adapts r.ty := Ty.adapts_iff.2 (.inl ⟨hl, hr⟩)
      have hnot := Ty.not_fits_of_isUntyped hl (Ty.not_isUntyped_of_isConcrete hr)
      obtain ⟨h₁, h₂⟩ := Value.ty_align_of_fits_left hnot (.inr (.inr hadapts))
      have hnumeric := hadapts.isNumeric.2
      exact ⟨⟨h₁, h₂, htakes hnumeric⟩, hnumeric⟩

/-- Sums and products of integers do not depend on the order. -/
theorem apply_int_comm {op : Operator} (hop : op = .add ∨ op = .mul) {t : IntType}
    (m n : Integer t) : op.apply (.int t m) (.int t n) = op.apply (.int t n) (.int t m) := by
  have hresult : op.result? m.val n.val = op.result? n.val m.val := by
    rcases hop with rfl | rfl
    · simp only [result?, add_comm]
    · simp only [result?, mul_comm]
  have hcomm : op.onIntegers m n = op.onIntegers n m := by
    rw [onIntegers_eq, onIntegers_eq, hresult]
  cases hsome : op.onIntegers m n with
  | some k => rw [apply_int_of_some hsome, apply_int_of_some (hcomm ▸ hsome)]
  | none =>
    rw [apply_int_of_none hsome, apply_int_of_none (hcomm ▸ hsome)]
    rcases hop with rfl | rfl <;> rfl

theorem apply_comm_of_ty {op : Operator} (hop : op = .add ∨ op = .mul) {t : IntType} {a b : Value}
    (ha : a.ty = .int t) (hb : b.ty = .int t) : op.apply a b = op.apply b a := by
  cases a <;> cases ha
  cases b <;> cases hb
  exact apply_int_comm hop _ _

/-- **Alignment is symmetric.** The two orders of two operands are refused together and for the same
kind of problem. What they are brought to, if it is numeric, is the common type of the two. Sums and
products of integers come to the same in both orders, if the operands are of one type or exactly one
of them is an untyped literal. -/
theorem align_symmetric (op : Operator) (l r : Value) :
    (∀ k : Kind, (∃ p, op.checkAligned l r = .error p ∧ p.kind = k) ↔
      ∃ p, op.checkAligned r l = .error p ∧ p.kind = k) ∧
    (∀ t : Ty, op.checkAligned l r = .ok t ∧ t.isNumeric = true ↔ Ty.Common l.ty r.ty t) ∧
    (op = .add ∨ op = .mul → l.ty = r.ty ∨ l.ty.isUntyped ≠ r.ty.isUntyped →
      ∀ t : IntType, op.checkAligned l r = .ok (.int t) →
        op.applyAligned l r = op.applyAligned r l) := by
  refine ⟨fun k => ?_, fun t => checkAligned_eq_ok_iff, fun hop h t hcheck => ?_⟩
  · rw [checkAligned, checkAligned, exists_check_error_iff, exists_check_error_iff, refusal?_align]
  · obtain ⟨hl, hr, -⟩ := check_eq_ok_iff.1 hcheck
    rw [applyAligned, applyAligned, Value.align_swap h]
    exact apply_comm_of_ty hop hl hr

/-- A byte and the literal 300, which becomes the byte 44: in both orders the sum is 244. -/
theorem align_symmetric_byte :
    let l : Value := .int (.sized .unsigned .w8) ⟨200, by decide, by decide⟩
    let r : Value := .int (.literal .signed) ⟨300, by decide, by decide⟩
    l.ty.isUntyped ≠ r.ty.isUntyped ∧
      Operator.add.checkAligned l r = .ok (.int (.sized .unsigned .w8)) ∧
      Operator.add.applyAligned r l =
        .ok (.int (.sized .unsigned .w8) ⟨244, by decide, by decide⟩) := by
  intro l r
  have hliteral : l.ty.isUntyped ≠ r.ty.isUntyped := by decide
  have hcheck : Operator.add.checkAligned l r = .ok (.int (.sized .unsigned .w8)) := rfl
  refine ⟨hliteral, hcheck, ?_⟩
  rw [← (align_symmetric .add l r).2.2 (.inl rfl) (.inr hliteral) _ hcheck]
  rfl

end Operator

end ExprLang
