import ExprLang.Proofs.Inference

/-!
# Validity and evaluation

An expression that has a value is valid (`Eval.valid_of_value`). The converse holds for every form
of expression but two, since validity evaluates their parts and leaves nothing out
(`Eval.value_of_valid`). The two are the forms whose last step is not tried: an operator is asked
only whether it takes the operands, and a function is not called. So a valid expression that fails
is an operation that fails in its arithmetic, a call whose function fails, or a call with an
argument of that kind (`Eval.Overlooked`, `Eval.overlooked_of_valid`).

Validity is asked in another world than the one in which the expression is evaluated, and to another
depth. The native functions have to be deterministic for the two to speak of the same values.
-/

namespace ExprLang

variable {σ : Type}

open Comparison

/-- The forms of expressions that end with a step of their own, behind the evaluation of the parts:
operations and calls. -/
def Expr.combines : Expr → Bool
  | .binary _ _ _ => true
  | .call _ _ _ _ => true
  | _ => false

namespace Eval

/-! ## What validity says about the parts -/

/-- Arguments fail at the first of them that does. -/
theorem arguments_eq_error {value : Evaluator σ} {es : List Expr} {env : Env} {w w₁ : World σ}
    {d : Diagnostic} (h : arguments value es env w = some (.error d, w₁)) :
    ∃ before e after as w₂, es = before ++ e :: after ∧
      arguments value before env w = some (.ok as, w₂) ∧
      value e env w₂ = some (.error d, w₁) := by
  induction es generalizing w with
  | nil => cases h
  | cons e es ih =>
    rcases Run.bind_eq_some h with ⟨v, w₂, hv, hes⟩ | ⟨d', w₂, hv, hend⟩
    · rcases Run.bind_eq_some hes with ⟨rest, w₃, -, hend⟩ | ⟨d', w₃, hrest, hend⟩
      · cases hend
      · cases hend
        obtain ⟨before, e', after, as, w₄, rfl, hbefore, hvalue⟩ := ih hrest
        refine ⟨e :: before, e', after, ⟨v, e.span⟩ :: as, w₄, rfl, ?_, hvalue⟩
        rw [arguments, Run.bind_of_ok hv, Run.bind_of_ok hbefore]
        rfl
    · cases hend
      exact ⟨[], e, es, [], w, rfl, rfl, hv⟩

/-- An operation is valid if its operands evaluate to values that the operator takes. -/
theorem valid_binary_eq_true {value : Evaluator σ} {op : Operator} {left right : Expr} {env : Env}
    {w w₁ : World σ} (h : valid value (.binary op left right) env w = some (.ok true, w₁)) :
    ∃ l r t, operands value left right env w = some (.ok (l, r), w₁) ∧ op.check l r = .ok t := by
  rw [valid] at h
  obtain ⟨o, w₂, hoperands, h⟩ := Run.bind_attempt_eq_some h
  cases o with
  | error d => cases h
  | ok operands =>
    obtain ⟨l, r⟩ := operands
    cases hcheck : op.check l r with
    | error p => simp [hcheck, Except.toOption] at h
    | ok t =>
      simp only [hcheck, Run.pure_apply, Option.some.injEq, Prod.mk.injEq] at h
      rw [h.2] at hoperands
      exact ⟨l, r, t, hoperands, hcheck⟩

/-- A call is valid if its callee evaluates to a function and its arguments are valid. -/
theorem valid_call_eq_true {value : Evaluator σ} {callee : Expr} {args : List Expr}
    {paren close : Span} {env : Env} {w w₁ : World σ}
    (h : valid value (.call callee args paren close) env w = some (.ok true, w₁)) :
    ∃ f w₂, value callee env w = some (.ok (.function f), w₂) ∧
      allValid value args env w₂ = some (.ok true, w₁) := by
  rw [valid] at h
  obtain ⟨o, w₂, hcallee, h⟩ := Run.bind_attempt_eq_some h
  cases o with
  | error d => cases h
  | ok v =>
    cases v with
    | function f => exact ⟨f, w₂, hcallee, h⟩
    | _ => cases h

/-- The forms that validity tries to the end have a value, one step deeper, if they are valid. -/
theorem value_of_valid {host : Host σ} {n : Nat} {e : Expr} (hplain : e.combines = false)
    {env : Env} {w w₁ : World σ} (h : valid (value host n) e env w = some (.ok true, w₁)) :
    ∃ v w₂, value host (n + 1) e env w = some (.ok v, w₂) := by
  cases e with
  | literal l span => exact ⟨_, _, rfl⟩
  | function f => exact ⟨_, _, rfl⟩
  | name id =>
    have hany : (env.get? id.name).any (fun slot => slot.content.isSome) = true := by
      simpa [valid] using congrArg (Option.map Prod.fst) h
    cases hslot : env.get? id.name with
    | none => simp [hslot] at hany
    | some slot =>
      rw [hslot, Option.any_some] at hany
      obtain ⟨⟨v, origin⟩, hcontent⟩ := Option.isSome_iff_exists.1 hany
      refine ⟨v, w, ?_⟩
      simp only [value, step, lookup, hslot, Slot.value?, hcontent]
      rfl
  | binary op left right => cases hplain
  | coerce source type =>
    rw [valid] at h
    obtain ⟨o, w₂, hsource, h⟩ := Run.bind_attempt_eq_some h
    obtain ⟨o', w₃, htarget, h⟩ := Run.bind_attempt_eq_some h
    cases o with
    | error d => cases h
    | ok v =>
      cases o' with
      | error d => cases h
      | ok target =>
        cases hcoerce : v.coerce target with
        | none => simp [hcoerce] at h
        | some u =>
          refine ⟨u, w₃, ?_⟩
          rw [value, step, Run.bind_of_ok hsource, Run.bind_of_ok htarget, hcoerce]
          rfl
  | call callee args paren close => cases hplain
  | block b =>
    rw [valid] at h
    obtain ⟨o, w₂, hblock, h⟩ := Run.bind_attempt_eq_some h
    cases o with
    | error d => cases h
    | ok v => exact ⟨v, w₂, hblock⟩

/-! ## Failures that validity overlooks -/

/-- A diagnostic that evaluation may give in a world although the expression is valid: an arithmetic
error of an operation, at the operation; what the function of a call gives for arguments that
evaluate; or such a diagnostic of a valid argument, behind arguments that evaluate. -/
inductive Overlooked (host : Host σ) (calm : Sink → σ → Prop) :
    Expr → Env → World σ → Diagnostic → Prop
  | arithmetic {op : Operator} {left right : Expr} {env : Env} {w : World σ} {d : Diagnostic}
      (kind : d.kind = .arithmeticError) (span : d.span = (Expr.binary op left right).span) :
    Overlooked host calm (.binary op left right) env w d
  | call {callee : Expr} {args : List Expr} {paren close : Span} {env : Env} {d : Diagnostic}
      {f : Function} {as : List Argument} {depth : Nat} {w w₁ w₂ w₃ : World σ}
      (function : value host depth callee env w = some (.ok (.function f), w₁))
      (evaluate : arguments (value host depth) args env w₁ = some (.ok as, w₂))
      (fails : call host depth f as env paren w₂ = some (.error d, w₃)) :
    Overlooked host calm (.call callee args paren close) env w d
  | argument {callee : Expr} {before after : List Expr} {a : Expr} {paren close : Span} {env : Env}
      {d : Diagnostic} {f : Function} {as : List Argument} {depth depth' : Nat}
      {w w₁ w₂ w₃ w' w₁' : World σ}
      (function : value host depth callee env w = some (.ok (.function f), w₁))
      (evaluate : arguments (value host depth) before env w₁ = some (.ok as, w₂))
      (fails : value host depth a env w₂ = some (.error d, w₃)) (meets : w'.Meets calm)
      (isValid : valid (value host depth') a env w' = some (.ok true, w₁'))
      (overlooked : Overlooked host calm a env w₂ d) :
    Overlooked host calm (.call callee (before ++ a :: after) paren close) env w d

section Relation

variable {host : Host σ} {calm : Sink → σ → Prop} (hdet : host.Deterministic calm)

include hdet

theorem valid_of_allValid {n : Nat} {es : List Expr} {env : Env} {w w₁ : World σ}
    (hw : w.Meets calm) (h : allValid (value host n) es env w = some (.ok true, w₁)) :
    ∀ e ∈ es, ∃ w₂ w₃, w₂.Meets calm ∧ valid (value host n) e env w₂ = some (.ok true, w₃) := by
  induction es generalizing w with
  | nil => simp
  | cons e es ih =>
    rw [allValid] at h
    obtain ⟨ok, w₂, hvalid, hes⟩ := Run.bind_eq_ok h
    cases ok with
    | false => cases hes
    | true =>
      have hw₂ : w₂.Meets calm :=
        ((valid_runs id (value_runs hdet n) e (steady_envs calm env)).of_steady hw hw hvalid).1
      intro e' he'
      rcases List.mem_cons.1 he' with rfl | he'
      · exact ⟨w, w₂, hw, hvalid⟩
      · exact ih hw₂ hes e' he'

/-- A valid operation that fails does so in its arithmetic. -/
theorem overlooked_of_valid_binary {m n : Nat} (hmn : m ≤ n) {op : Operator} {left right : Expr}
    {env : Env} {d : Diagnostic} {w w₁ w' w₁' : World σ} (hw : w.Meets calm) (hw' : w'.Meets calm)
    (hvalid : valid (value host n) (.binary op left right) env w' = some (.ok true, w₁'))
    (h : value host (m + 1) (.binary op left right) env w = some (.error d, w₁)) :
    Overlooked host calm (.binary op left right) env w d := by
  obtain ⟨l, r, t, hoperands', hcheck⟩ := valid_binary_eq_true hvalid
  have hruns := operands_runs (lasting_evaluators hdet hmn) left right (lasting_envs calm env)
  rcases Run.bind_eq_some h with ⟨⟨l', r'⟩, w₂, hoperands, happly⟩ | ⟨d', w₂, hoperands, -⟩
  · obtain ⟨hsame, -⟩ := hruns.eq_of_lasting hw hw' hoperands hoperands'
    cases hsame
    cases hresult : op.apply l r with
    | ok v => simp [hresult, Run.ofExcept, Run.ret] at happly
    | error p =>
      simp only [hresult, Run.ofExcept, Run.fail_apply, Option.some.injEq, Prod.mk.injEq,
        Except.error.injEq] at happly
      obtain ⟨rfl, -⟩ := happly
      exact .arithmetic (Operator.kind_of_apply hcheck hresult) rfl
  · obtain ⟨hsame, -⟩ := hruns.eq_of_lasting hw hw' hoperands hoperands'
    cases hsame

-- The callee is a function in both runs. What is left to fail are the arguments, the first of which
-- is followed by the hypothesis, and the call.
theorem overlooked_of_valid_call {m n : Nat} (hmn : m ≤ n) {callee : Expr} {args : List Expr}
    {paren close : Span} {env : Env} {d : Diagnostic} {w w₁ w' w₁' : World σ} (hw : w.Meets calm)
    (hw' : w'.Meets calm)
    (hvalid : valid (value host n) (.call callee args paren close) env w' = some (.ok true, w₁'))
    (h : value host (m + 1) (.call callee args paren close) env w = some (.error d, w₁))
    (hargument : ∀ a ∈ args, ∀ {d w w₁ w' w₁'}, w.Meets calm → w'.Meets calm →
      valid (value host n) a env w' = some (.ok true, w₁') →
      value host m a env w = some (.error d, w₁) → Overlooked host calm a env w d) :
    Overlooked host calm (.call callee args paren close) env w d := by
  obtain ⟨f, w₂', hcallee', hargs'⟩ := valid_call_eq_true hvalid
  have hparts := lasting_evaluators hdet hmn
  have henv := lasting_envs calm env
  rcases Run.bind_eq_some h with ⟨u, w₂, hcallee, h⟩ | ⟨d', w₂, hcallee, -⟩
  · obtain ⟨hsame, hw₂, hw₂'⟩ := (hparts callee henv).eq_of_lasting hw hw' hcallee hcallee'
    cases hsame
    rcases Run.bind_eq_some h with ⟨g, w₃, hg, h⟩ | ⟨_, _, hg, -⟩
    · cases hg
      rcases Run.bind_eq_some h with ⟨as, w₄, has, hcall⟩ | ⟨d', w₄, has, hend⟩
      · exact .call hcallee has hcall
      · cases hend
        obtain ⟨before, a, after, as, w₅, rfl, hbefore, ha⟩ := arguments_eq_error has
        have ha' : a ∈ before ++ a :: after := by simp
        obtain ⟨hw₅, -⟩ := (arguments_runs hparts before henv).of_lasting_some hw₂ hw₂' hbefore
        obtain ⟨w₆, w₇, hw₆, hva⟩ := valid_of_allValid hdet hw₂' hargs' a ha'
        exact .argument hcallee hbefore ha hw₆ hva (hargument a ha' hw₅ hw₆ hva ha)
    · cases hg
  · obtain ⟨hsame, -⟩ := (hparts callee henv).eq_of_lasting hw hw' hcallee hcallee'
    cases hsame

/-- A valid expression that fails does so with a diagnostic that validity overlooks. -/
theorem overlooked_of_valid {n : Nat} (m : Nat) (hmn : m ≤ n) (e : Expr) {env : Env}
    {d : Diagnostic} {w w₁ w' w₁' : World σ} (hw : w.Meets calm) (hw' : w'.Meets calm)
    (hvalid : valid (value host n) e env w' = some (.ok true, w₁'))
    (h : value host m e env w = some (.error d, w₁)) : Overlooked host calm e env w d := by
  induction m generalizing e d w w₁ w' w₁' with
  | zero => cases h
  | succ m ih =>
    have hmn' : m ≤ n := Nat.le_of_succ_le hmn
    cases hplain : e.combines with
    | false =>
      obtain ⟨v, w₂, hv⟩ := value_of_valid hplain hvalid
      cases value_agrees hdet hw hw' h hv
    | true =>
      cases e with
      | binary op left right => exact overlooked_of_valid_binary hdet hmn' hw hw' hvalid h
      | call callee args paren close =>
        exact overlooked_of_valid_call hdet hmn' hw hw' hvalid h fun a _ => ih hmn' a
      | _ => cases hplain

/-- **Validity and evaluation.** An expression with a value is valid. A valid expression that fails
does so with a diagnostic that validity overlooks. For expressions that are neither operations nor
calls, being valid and having a value are the same. The two questions may be asked in any two worlds
of the kind. -/
theorem valid_agrees (e : Expr) (env : Env) {w w' : World σ} (hw : w.Meets calm)
    (hw' : w'.Meets calm) :
    (∀ depth v w₁, value host depth e env w = some (.ok v, w₁) →
      (∃ depth' w₁', valid (value host depth') e env w' = some (.ok true, w₁')) ∧
        ∀ depth' o w₁', valid (value host depth') e env w' = some (o, w₁') → o = .ok true) ∧
    (∀ depth depth' d w₁ w₁', valid (value host depth') e env w' = some (.ok true, w₁') →
      value host depth e env w = some (.error d, w₁) → Overlooked host calm e env w d) ∧
    (e.combines = false →
      ((∃ depth w₁', valid (value host depth) e env w' = some (.ok true, w₁')) ↔
        ∃ depth v w₁, value host depth e env w = some (.ok v, w₁))) := by
  have hvalid : ∀ depth v w₁, value host depth e env w = some (.ok v, w₁) → ∀ n, depth ≤ n →
      ∃ w₁', valid (value host n) e env w' = some (.ok true, w₁') := by
    intro depth v w₁ h n hn
    obtain ⟨w₁', hvalid, -⟩ := valid_of_value hdet depth (Nat.le_succ_of_le hn) e hw hw' h
    exact ⟨w₁', hvalid⟩
  refine ⟨fun depth v w₁ h => ⟨?_, fun depth' o w₁' h' => ?_⟩, ?_, fun hplain => ⟨?_, ?_⟩⟩
  · exact ⟨depth, hvalid depth v w₁ h depth (Nat.le_refl depth)⟩
  · obtain ⟨w₂, htrue⟩ := hvalid depth v w₁ h _ (Nat.le_max_left depth depth')
    rw [valid_of_le (Nat.le_max_right depth depth') h'] at htrue
    cases htrue
    rfl
  · intro depth depth' d w₁ w₁' htrue h
    exact overlooked_of_valid hdet depth (Nat.le_max_left depth depth') e hw hw'
      (valid_of_le (Nat.le_max_right depth depth') htrue) h
  · rintro ⟨depth, w₁', htrue⟩
    obtain ⟨v, w₂, hv⟩ := value_of_valid hplain htrue
    obtain ⟨-, w₃, hv', -⟩ :=
      (value_runs hdet (depth + 1) e (steady_envs calm env)).of_steady hw' hw hv
    exact ⟨depth + 1, v, w₃, hv'⟩
  · rintro ⟨depth, v, w₁, h⟩
    exact ⟨depth, hvalid depth v w₁ h depth (Nat.le_refl depth)⟩

end Relation

/-- The call `println(n / n)`. -/
def printsQuotient : Expr :=
  .call (.name ⟨"println", ⟨0, 7⟩⟩)
    [.binary .div (.name ⟨"n", ⟨8, 9⟩⟩) (.name ⟨"n", ⟨12, 13⟩⟩)] ⟨7, 8⟩ ⟨13, 14⟩

/-- A root that binds `n` to zero, beside `println`. -/
def zeroRoot : Scope :=
  ("n", .ofConstant (.int (.sized .unsigned .w8) (.wrap _ 0)) ⟨20, 21⟩) :: Natives.printRoot

/-- The argument divides by zero, and the call is valid. -/
theorem valid_agrees_printsQuotient :
    (∃ w₁, valid (value Natives.host 3) printsQuotient (.ofRoot zeroRoot)
        ⟨Sink.empty none, [], Natives.initial⟩ = some (.ok true, w₁)) ∧
      ∃ d w₁, value Natives.host 3 printsQuotient (.ofRoot zeroRoot)
          ⟨Sink.empty none, [], Natives.initial⟩ = some (.error d, w₁) ∧
        Overlooked Natives.host (Natives.Unlimited [.println]) printsQuotient (.ofRoot zeroRoot)
          ⟨Sink.empty none, [], Natives.initial⟩ d := by
  have hcounts : ∀ n ∈ [Native.println], n.counts = false := by simp [Native.counts]
  obtain ⟨w₁, hvalid⟩ : ∃ w₁, valid (value Natives.host 3) printsQuotient (.ofRoot zeroRoot)
      ⟨Sink.empty none, [], Natives.initial⟩ = some (.ok true, w₁) := ⟨_, rfl⟩
  obtain ⟨d, w₂, hvalue⟩ : ∃ d w₂, value Natives.host 3 printsQuotient (.ofRoot zeroRoot)
      ⟨Sink.empty none, [], Natives.initial⟩ = some (.error d, w₂) := ⟨_, _, rfl⟩
  have hw : (⟨Sink.empty none, [], Natives.initial⟩ : World Natives).Meets
      (Natives.Unlimited [.println]) := ⟨rfl, rfl⟩
  have hagrees := valid_agrees (Natives.deterministic hcounts) printsQuotient (.ofRoot zeroRoot)
    hw hw
  exact ⟨⟨w₁, hvalid⟩, d, w₂, hvalue, hagrees.2.1 3 3 d w₂ w₁ hvalid hvalue⟩

end Eval

end ExprLang
