import ExprLang.Proofs.Comparisons

/-!
# Calls and the locals around them

What a function does is decided by its arguments and by the root, whatever scopes the call stands
in, with one exception: the return type is evaluated where the call stands. So two calls beside
roots of the same bindings agree as soon as the return type comes to the same there. If it comes to
two different types, they agree only where the body gives no value to coerce
(`Eval.call_eq_iff_returnType`). A local of the caller can change the result of a call
(`Eval.call_ne_of_local_type`).
-/

namespace ExprLang

variable {σ : Type}

open Comparison

namespace Eval

/-- A call of a function between its return type and the coercion to it: the arguments are counted
and bound beside the root, and the body is run. -/
def frame (value : Evaluator σ) (f : Lambda) (args : List Argument) (env : Env) (paren : Span) :
    Run σ Value := do
  checkCount f.params args paren
  let scope ← bindParams value (f.params.zip args) env.atRoot.enter
  block value f.body scope

/-- The return type of a function where a call of it stands, evaluated as the call begins. -/
def returnType (host : Host σ) (depth : Nat) (f : Lambda) (args : List Argument) (env : Env) :
    Run σ Ty := do
  Run.record (.calledDefined args.length)
  typeValue (value host depth) f.ret env

/-- Coerces the value of a body to the return type. -/
def giveBack (f : Lambda) (ret : Ty) (result : Value) : Run σ Value :=
  Run.ofOption (.wrongResult ret result.ty) f.body.resultSpan (result.coerce ret)

theorem callDefined_eq (value : Evaluator σ) (f : Lambda) (args : List Argument) (env : Env)
    (paren : Span) : callDefined value f args env paren =
      typeValue value f.ret env >>= fun ret => frame value f args env paren >>= giveBack f ret := by
  unfold callDefined frame giveBack
  congr 1
  funext ret
  rw [Run.bind_assoc]
  congr 1
  funext _
  rw [Run.bind_assoc]

/-- A call is its return type, then its frame, then the coercion of what the frame gives. -/
theorem call_defined (host : Host σ) (depth : Nat) (f : Lambda) (args : List Argument) (env : Env)
    (paren : Span) : call host (depth + 1) (.defined f) args env paren =
      returnType host depth f args env >>= fun ret =>
        frame (value host depth) f args env paren >>= giveBack f ret := by
  rw [call, invoke, callDefined_eq, returnType, Run.bind_assoc]

/-- The frame of a call depends on the bindings of the root alone. -/
theorem frame_eq_of_sameBindings {host : Host σ} (hhost : host.Respects bindings) (depth : Nat)
    (f : Lambda) (args : List Argument) (paren : Span) {env₁ env₂ : Env}
    (hroot : env₁.root.SameBindings env₂.root) :
    frame (value host depth) f args env₁ paren = frame (value host depth) f args env₂ paren := by
  have hv := value_runs hhost depth
  have henv : (bindings : Comparison σ).Envs env₁.atRoot env₂.atRoot := ⟨rfl, hroot⟩
  apply Runs.eq_of_bindings
  refine (checkCount_runs f.params args paren).bind fun _ => ?_
  refine (bindParams_runs hv (f.params.zip args) henv.enter).bind ?_
  intro scope scope' hscope
  exact block_runs hv f.body hscope.toEnvs

/-- A value coerced to two types shows which is which, whether the coercion succeeds or not. -/
theorem giveBack_inj {f : Lambda} {t₁ t₂ : Ty} {v : Value} {w : World σ}
    (h : giveBack f t₁ v w = giveBack f t₂ v w) : t₁ = t₂ := by
  unfold giveBack at h
  cases h₁ : v.coerce t₁ with
  | some v₁ =>
    cases h₂ : v.coerce t₂ with
    | some v₂ =>
      rw [h₁, h₂] at h
      cases h
      rw [← Value.ty_of_coerce h₁, ← Value.ty_of_coerce h₂]
    | none => rw [h₁, h₂] at h; cases h
  | none =>
    cases h₂ : v.coerce t₂ with
    | some v₂ => rw [h₁, h₂] at h; cases h
    | none => rw [h₁, h₂] at h; cases h; rfl

/-- What the locals around a call can change. The calls agree if the return type comes to the same
in both places, diagnostics and output included. If it comes to a type in each, with the same
output, then the calls agree exactly if the types do or the frame gives no value. -/
theorem call_eq_iff_returnType {host : Host σ} (hhost : host.Respects bindings) (f : Lambda)
    (args : List Argument) (paren : Span) (env₁ env₂ : Env)
    (hroot : env₁.root.SameBindings env₂.root) (depth : Nat) (w : World σ) :
    (returnType host depth f args env₁ w = returnType host depth f args env₂ w →
      call host (depth + 1) (.defined f) args env₁ paren w =
        call host (depth + 1) (.defined f) args env₂ paren w) ∧
    ∀ (t₁ t₂ : Ty) (w' : World σ),
      returnType host depth f args env₁ w = some (.ok t₁, w') →
      returnType host depth f args env₂ w = some (.ok t₂, w') →
      (call host (depth + 1) (.defined f) args env₁ paren w =
          call host (depth + 1) (.defined f) args env₂ paren w ↔
        t₁ = t₂ ∨ ¬∃ v w'', frame (value host depth) f args env₁ paren w' = some (.ok v, w'')) := by
  rw [call_defined, call_defined, ← frame_eq_of_sameBindings hhost depth f args paren hroot]
  refine ⟨fun h => ?_, fun t₁ t₂ w' h₁ h₂ => ?_⟩
  · exact Run.bind_of_eq h
  · rw [Run.bind_of_ok h₁, Run.bind_of_ok h₂]
    match hframe : frame (value host depth) f args env₁ paren w' with
    | some (.ok v, w'') =>
      rw [Run.bind_of_ok hframe, Run.bind_of_ok hframe]
      refine ⟨fun h => .inl (giveBack_inj h), fun h => ?_⟩
      rcases h with rfl | hnone
      · rfl
      · exact absurd ⟨v, w'', rfl⟩ hnone
    | some (.error d, w'') =>
      rw [Run.bind_of_error hframe, Run.bind_of_error hframe]
      exact ⟨fun _ => .inr (by rintro ⟨v, w₃, h⟩; cases h), fun _ => rfl⟩
    | none =>
      rw [Run.bind_of_none hframe, Run.bind_of_none hframe]
      exact ⟨fun _ => .inr (by rintro ⟨v, w₃, h⟩; cases h), fun _ => rfl⟩

/-! ## A local that changes a result -/

/-- A function without parameters and statements, with the return type `T`. -/
def typedByName : Lambda := ⟨0, .name ⟨"T", Span.origin⟩, [], ⟨[], Span.origin⟩⟩

/-- A scope in which `T` is a type. -/
def typeScope (t : Ty) : Scope := [("T", .ofConstant (.type t) Span.origin)]

/-- Beside a root in which `T` is `void` the function gives `void`. Called from a scope in which `T`
is `float` it fails. -/
theorem call_ne_of_local_type :
    (typeScope .void).SameBindings (typeScope .void) ∧
      call Natives.host 2 (.defined typedByName) [] ⟨[typeScope (.real .float)], typeScope .void⟩
          Span.origin ⟨Sink.empty none, [], Natives.initial⟩ ≠
        call Natives.host 2 (.defined typedByName) [] ⟨[], typeScope .void⟩
          Span.origin ⟨Sink.empty none, [], Natives.initial⟩ := by
  refine ⟨fun _ => rfl, fun hcalls => ?_⟩
  have hiff := (call_eq_iff_returnType Natives.respects_bindings typedByName [] Span.origin
    ⟨[typeScope (.real .float)], typeScope .void⟩ ⟨[], typeScope .void⟩ (fun _ => rfl) 1
    ⟨Sink.empty none, [], Natives.initial⟩).2 (.real .float) .void
    ⟨Sink.empty none, [.calledDefined 0], Natives.initial⟩ rfl rfl
  rcases hiff.1 hcalls with htypes | hnone
  · cases htypes
  · exact hnone ⟨.void, _, rfl⟩

end Eval

end ExprLang
