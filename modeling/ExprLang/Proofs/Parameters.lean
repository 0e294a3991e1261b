import ExprLang.Proofs.Inference
import ExprLang.Proofs.Locals
import ExprLang.Proofs.ScopeStack

/-!
# Parameters and their arguments

A call counts its arguments, binds its parameters in their order and runs its body. Binding is said
parameter by parameter (`Eval.Binding`): its type is evaluated beside the root in a scope that holds
the parameters before it and nothing else, the argument is coerced to that type, and no parameter
before it has its name. The first parameter for which one of this fails ends the call
(`Eval.Refused`). Whatever the evaluator does, one of these happens, or the evaluation of a type has
no outcome (`Eval.Binding.outcome`); so a call gets to its body exactly if all parameters are bound
(`Eval.callDefined_exact`).
-/

namespace ExprLang

variable {σ : Type}

/-! ## Bound parameters -/

/-- A parameter with its argument, the type it asks for and the value it has. -/
structure Bound where
  param : Param
  arg : Argument
  type : Ty
  value : Value

namespace Bound

/-- The name of a parameter. -/
def name (b : Bound) : String := b.param.name.name

/-- A parameter is a constant that comes from its argument. -/
def slot (b : Bound) : Slot := .ofConstant b.value b.arg.span

/-- The scope of parameters, the latest first. -/
def scope (bs : List Bound) : Scope := (bs.map fun b => (b.name, b.slot)).reverse

theorem scope_snoc (bs : List Bound) (b : Bound) :
    scope (bs ++ [b]) = (b.name, b.slot) :: scope bs := by
  simp [scope]

theorem declares_scope_iff {bs : List Bound} {name : String} {slot : Slot} :
    (scope bs).Declares name slot ↔ ∃ b ∈ bs, b.name = name ∧ b.slot = slot := by
  simp [Scope.Declares, scope]

theorem contains_scope_iff {bs : List Bound} {name : String} :
    (scope bs).contains name = true ↔ ∃ b ∈ bs, b.name = name := by
  constructor
  · intro h
    obtain ⟨slot, hslot⟩ := Option.isSome_iff_exists.1 h
    obtain ⟨b, hb, hname, -⟩ := declares_scope_iff.1 (Scope.declares_of_get? hslot)
    exact ⟨b, hb, hname⟩
  · rintro ⟨b, hb, hname⟩
    by_contra h
    have hfree := Scope.get?_eq_none_iff.1 (Scope.get?_of_not_contains (eq_false_of_ne_true h))
    exact hfree b.slot (declares_scope_iff.2 ⟨b, hb, hname, rfl⟩)

end Bound

namespace Eval

/-- The environment of a call with parameters: they stand beside the root, and nothing else does. -/
def paramEnv (root : Scope) (bs : List Bound) : Env := ⟨[Bound.scope bs], root⟩

theorem enter_atRoot (env : Env) : env.atRoot.enter = paramEnv env.root [] := rfl

variable {value : Evaluator σ} {root : Scope} {params : List Param} {args : List Argument}
  {w w' w'' : World σ} {bs : List Bound}

/-- The first parameters are bound to the first arguments, which brings the world `w` to another. -/
inductive Binding (value : Evaluator σ) (root : Scope) (params : List Param) (args : List Argument)
    (w : World σ) : List Bound → World σ → Prop
  | nil : Binding value root params args w [] w
  | snoc {bs : List Bound} {b : Bound} {w' w'' : World σ}
      (h : Binding value root params args w bs w')
      (param : params[bs.length]? = some b.param) (arg : args[bs.length]? = some b.arg)
      (type : typeValue value b.param.type (paramEnv root bs) w' = some (.ok b.type, w''))
      (coerced : b.arg.value.coerce b.type = some b.value)
      (fresh : ∀ b' ∈ bs, b'.name ≠ b.name) : Binding value root params args w (bs ++ [b]) w''

/-- A parameter cannot be bound to an argument behind others: its type is no type, or the argument
is not coerced to it, or one of the others has its name. -/
inductive Refused (value : Evaluator σ) (root : Scope) (bs : List Bound) (p : Param) (a : Argument)
    (w : World σ) : Diagnostic → World σ → Prop
  | type {d : Diagnostic} {w' : World σ}
      (h : typeValue value p.type (paramEnv root bs) w = some (.error d, w')) :
    Refused value root bs p a w d w'
  | argument {t : Ty} {w' : World σ}
      (h : typeValue value p.type (paramEnv root bs) w = some (.ok t, w'))
      (hcoerce : a.value.coerce t = none) :
    Refused value root bs p a w ⟨.wrongArgument t a.value.ty, a.span⟩ w'
  | name {t : Ty} {v : Value} {w' : World σ}
      (h : typeValue value p.type (paramEnv root bs) w = some (.ok t, w'))
      (hcoerce : a.value.coerce t = some v) (taken : ∃ b ∈ bs, b.name = p.name.name) :
    Refused value root bs p a w ⟨.redeclared p.name.name, p.name.span⟩ w'

/-! ## One parameter -/

theorem bindParam_of_bound {p : Param} {a : Argument} {t : Ty} {v : Value}
    (htype : typeValue value p.type (paramEnv root bs) w = some (.ok t, w'))
    (hcoerce : a.value.coerce t = some v) (hfresh : ∀ b ∈ bs, b.name ≠ p.name.name) :
    bindParam value p a (paramEnv root bs) w =
      some (.ok (paramEnv root (bs ++ [⟨p, a, t, v⟩])), w') := by
  have hfree : ¬(paramEnv root bs).innermost.contains p.name.name = true := fun h =>
    let ⟨b, hb, hname⟩ := Bound.contains_scope_iff.1 h
    hfresh b hb hname
  have hvalue : (Run.ofOption (.wrongArgument t a.value.ty) a.span (a.value.coerce t) :
      Run σ Value) w' = some (.ok v, w') := by rw [hcoerce]; rfl
  rw [bindParam, Run.bind_of_ok htype, Run.bind_of_ok hvalue,
    declare_of_not_contains _ _ _ _ hfree, paramEnv, paramEnv, Bound.scope_snoc]
  rfl

theorem bindParam_of_refused {p : Param} {a : Argument} {d : Diagnostic}
    (h : Refused value root bs p a w d w') :
    bindParam value p a (paramEnv root bs) w = some (.error d, w') := by
  cases h with
  | type h => rw [bindParam, Run.bind_of_error h]
  | argument h hcoerce =>
    rw [bindParam, Run.bind_of_ok h, hcoerce]
    exact Run.bind_of_error rfl
  | name h hcoerce taken =>
    rename_i t v
    have hvalue : (Run.ofOption (.wrongArgument t a.value.ty) a.span (a.value.coerce t) :
        Run σ Value) w' = some (.ok v, w') := by rw [hcoerce]; rfl
    have htaken : (paramEnv root bs).innermost.contains p.name.name = true :=
      Bound.contains_scope_iff.2 taken
    rw [bindParam, Run.bind_of_ok h, Run.bind_of_ok hvalue, declare_of_contains _ _ _ _ htaken]
    rfl

theorem bindParam_of_none {p : Param} (a : Argument)
    (h : typeValue value p.type (paramEnv root bs) w = none) :
    bindParam value p a (paramEnv root bs) w = none := by
  rw [bindParam, Run.bind_of_none h]

/-! ## All parameters -/

theorem drop_zip {i : Nat} {p : Param} {a : Argument} (hp : params[i]? = some p)
    (ha : args[i]? = some a) :
    (params.zip args).drop i = (p, a) :: (params.zip args).drop (i + 1) := by
  have hpair : (params.zip args)[i]? = some (p, a) := List.getElem?_zip_eq_some.2 ⟨hp, ha⟩
  obtain ⟨hlt, hget⟩ := List.getElem?_eq_some_iff.1 hpair
  rw [List.drop_eq_getElem_cons hlt, hget]

/-- Binding goes on behind the parameters that are bound. -/
theorem Binding.bindParams_drop (h : Binding value root params args w bs w') :
    bindParams value (params.zip args) (paramEnv root []) w =
      bindParams value ((params.zip args).drop bs.length) (paramEnv root bs) w' := by
  induction h with
  | nil => rfl
  | snoc h hparam harg htype hcoerce hfresh ih =>
    rw [ih, drop_zip hparam harg, bindParams,
      Run.bind_of_ok (bindParam_of_bound htype hcoerce hfresh), List.length_append]
    rfl

/-- How binding ends: all parameters are bound, or one is refused, or the evaluation of a type has
no outcome. -/
inductive Ends (value : Evaluator σ) (root : Scope) (params : List Param) (args : List Argument)
    (w : World σ) : Option (Except Diagnostic Env × World σ) → Prop
  | bound {bs : List Bound} {w' : World σ} (h : Binding value root params args w bs w')
      (all : bs.length = (params.zip args).length) :
    Ends value root params args w (some (.ok (paramEnv root bs), w'))
  | refused {bs : List Bound} {w' w'' : World σ} {p : Param} {a : Argument} {d : Diagnostic}
      (h : Binding value root params args w bs w') (param : params[bs.length]? = some p)
      (arg : args[bs.length]? = some a) (refused : Refused value root bs p a w' d w'') :
    Ends value root params args w (some (.error d, w''))
  | tooDeep {bs : List Bound} {w' : World σ} {p : Param} {a : Argument}
      (h : Binding value root params args w bs w') (param : params[bs.length]? = some p)
      (arg : args[bs.length]? = some a)
      (type : typeValue value p.type (paramEnv root bs) w' = none) :
    Ends value root params args w none

theorem Ends.bindParams_eq {o : Option (Except Diagnostic Env × World σ)}
    (h : Ends value root params args w o) :
    bindParams value (params.zip args) (paramEnv root []) w = o := by
  cases h with
  | bound h hall =>
    rw [h.bindParams_drop, hall, List.drop_length]
    rfl
  | refused h hparam harg hrefused =>
    rw [h.bindParams_drop, drop_zip hparam harg, bindParams,
      Run.bind_of_error (bindParam_of_refused hrefused)]
  | tooDeep h hparam harg htype =>
    rw [h.bindParams_drop, drop_zip hparam harg, bindParams,
      Run.bind_of_none (bindParam_of_none _ htype)]

/-- Wherever binding has got to, it comes to an end. -/
theorem Binding.exists_ends (h : Binding value root params args w bs w') (n : Nat)
    (hn : (params.zip args).length = bs.length + n) : ∃ o, Ends value root params args w o := by
  -- the number of parameters left decreases, and what is known is carried by the binding
  induction n generalizing bs w' with
  | zero => exact ⟨_, .bound h hn.symm⟩
  | succ n ih =>
    have hlt : bs.length < (params.zip args).length := by omega
    obtain ⟨hparam, harg⟩ := List.getElem?_zip_eq_some.1 (List.getElem?_eq_getElem hlt)
    generalize (params.zip args)[bs.length] = pa at hparam harg
    obtain ⟨p, a⟩ := pa
    match htype : typeValue value p.type (paramEnv root bs) w' with
    | none => exact ⟨_, .tooDeep h hparam harg htype⟩
    | some (.error d, w'') => exact ⟨_, .refused h hparam harg (.type htype)⟩
    | some (.ok t, w'') =>
      cases hcoerce : a.value.coerce t with
      | none => exact ⟨_, .refused h hparam harg (.argument htype hcoerce)⟩
      | some v =>
        by_cases htaken : ∃ b ∈ bs, b.name = p.name.name
        · exact ⟨_, .refused h hparam harg (.name htype hcoerce htaken)⟩
        · have hfresh : ∀ b ∈ bs, b.name ≠ p.name.name := fun b hb hname => htaken ⟨b, hb, hname⟩
          refine ih (h.snoc (b := ⟨p, a, t, v⟩) hparam harg htype hcoerce hfresh) ?_
          rw [List.length_append, List.length_singleton]
          omega

theorem bindParams_eq_iff {o : Option (Except Diagnostic Env × World σ)} :
    bindParams value (params.zip args) (paramEnv root []) w = o ↔
      Ends value root params args w o := by
  have hstart : Binding value root params args w [] w := .nil
  obtain ⟨o', hends⟩ := hstart.exists_ends (params.zip args).length (Nat.zero_add _).symm
  constructor
  · rintro rfl
    rwa [hends.bindParams_eq]
  · exact Ends.bindParams_eq

theorem Binding.distinct (h : Binding value root params args w bs w') :
    (Bound.scope bs).Distinct := by
  induction h with
  | nil => exact List.nodup_nil
  | snoc h hparam harg htype hcoerce hfresh ih =>
    rw [Bound.scope_snoc]
    refine ih.cons (fun slot hslot => ?_) _
    obtain ⟨b', hb', hname, -⟩ := Bound.declares_scope_iff.1 hslot
    exact hfresh b' hb' hname

/-- The scope holds the parameters that are bound, and nothing else. -/
theorem Binding.get?_scope (h : Binding value root params args w bs w') (name : String)
    (slot : Slot) :
    (Bound.scope bs).get? name = some slot ↔
      ∃ b ∈ bs, b.name = name ∧ slot = .ofConstant b.value b.arg.span := by
  rw [h.distinct.get?_eq_some_iff, Bound.declares_scope_iff]
  exact ⟨fun ⟨b, hb, hname, hslot⟩ => ⟨b, hb, hname, hslot.symm⟩,
    fun ⟨b, hb, hname, hslot⟩ => ⟨b, hb, hname, hslot.symm⟩⟩

/-! ## Calls -/

theorem checkCount_of_missing {p : Param} (h : params[args.length]? = some p) (paren : Span) :
    checkCount params args paren w = some (.error ⟨.missingArgument p.name.name, paren⟩, w) := by
  simp only [checkCount, h, Run.fail_apply]

theorem checkCount_of_extra {a : Argument} (h : args[params.length]? = some a) (paren : Span) :
    checkCount params args paren w = some (.error ⟨.extraArgument, a.span⟩, w) := by
  have hlt := (List.getElem?_eq_some_iff.1 h).1
  have hnone : params[args.length]? = none := List.getElem?_eq_none (by omega)
  simp only [checkCount, hnone, h, Run.fail_apply]

theorem checkCount_of_length_eq (h : args.length = params.length) (paren : Span) :
    checkCount params args paren w = some (.ok (), w) := by
  have hparam : params[args.length]? = none := List.getElem?_eq_none (by omega)
  have harg : args[params.length]? = none := List.getElem?_eq_none (by omega)
  simp only [checkCount, hparam, harg, Run.pure_apply]

variable {f : Lambda} {env : Env} {ret : Ty}

theorem callDefined_of_checkCount {paren : Span} {d : Diagnostic}
    (hret : typeValue value f.ret env w = some (.ok ret, w'))
    (h : checkCount f.params args paren w' = some (.error d, w')) :
    callDefined value f args env paren w = some (.error d, w') := by
  rw [callDefined, Run.bind_of_ok hret, Run.bind_of_error h]

theorem callDefined_of_length_eq (hret : typeValue value f.ret env w = some (.ok ret, w'))
    (hlength : args.length = f.params.length) (paren : Span) :
    callDefined value f args env paren w =
      (bindParams value (f.params.zip args) env.atRoot.enter >>= fun scope =>
        block value f.body scope >>= giveBack f ret) w' := by
  rw [callDefined, Run.bind_of_ok hret, Run.bind_of_ok (checkCount_of_length_eq hlength paren)]
  rfl

/-- What a call gives back has been coerced to its return type. -/
theorem ty_of_callDefined {paren : Span} {v : Value}
    (hret : typeValue value f.ret env w = some (.ok ret, w'))
    (h : callDefined value f args env paren w = some (.ok v, w'')) : v.ty = ret := by
  rw [callDefined_eq, Run.bind_of_ok hret] at h
  obtain ⟨result, w₁, -, hback⟩ := Run.bind_eq_ok h
  exact Value.ty_of_coerce (Run.ofOption_eq_ok hback).1

/-- **Parameters are bound exactly.** Let the return type of a call come to a type, whatever the
evaluator. Too few arguments are reported at the parenthesis, with the first parameter that has
none, and too many at the first argument that has no parameter, and nothing else is evaluated. As
many arguments as parameters are bound in their order, and then the body is run. All of them are
bound exactly if each parameter, in the scope of those before it, has a type that its argument is
coerced to and a name that those before it have not. The body then sees the parameters as constants
beside the root, and nothing else. Otherwise the first parameter that is refused ends the call,
unless the evaluation of its type has no outcome. And a value that a call gives back is one of the
return type. -/
theorem callDefined_exact (value : Evaluator σ) (f : Lambda) (args : List Argument) (env : Env)
    (paren : Span) {w w' : World σ} {ret : Ty}
    (hret : typeValue value f.ret env w = some (.ok ret, w')) :
    (args.length < f.params.length → ∃ p, f.params[args.length]? = some p ∧
      callDefined value f args env paren w =
        some (.error ⟨.missingArgument p.name.name, paren⟩, w')) ∧
    (f.params.length < args.length → ∃ a, args[f.params.length]? = some a ∧
      callDefined value f args env paren w = some (.error ⟨.extraArgument, a.span⟩, w')) ∧
    (args.length = f.params.length →
      let binding : Run σ Env := bindParams value (f.params.zip args) env.atRoot.enter
      callDefined value f args env paren w =
        (binding >>= fun scope => block value f.body scope >>= giveBack f ret) w' ∧
      (∀ scope w'', binding w' = some (.ok scope, w'') ↔
        ∃ bs, Binding value env.root f.params args w' bs w'' ∧ bs.length = f.params.length ∧
          scope = paramEnv env.root bs) ∧
      (∀ bs w'', Binding value env.root f.params args w' bs w'' → ∀ name slot,
        (Bound.scope bs).get? name = some slot ↔
          ∃ b ∈ bs, b.name = name ∧ slot = .ofConstant b.value b.arg.span) ∧
      (∀ d w'', binding w' = some (.error d, w'') ↔
        ∃ bs w₁ p a, Binding value env.root f.params args w' bs w₁ ∧
          f.params[bs.length]? = some p ∧ args[bs.length]? = some a ∧
          Refused value env.root bs p a w₁ d w'') ∧
      (binding w' = none ↔
        ∃ bs w₁ p, Binding value env.root f.params args w' bs w₁ ∧
          f.params[bs.length]? = some p ∧
          typeValue value p.type (paramEnv env.root bs) w₁ = none)) ∧
    ∀ v w'', callDefined value f args env paren w = some (.ok v, w'') → v.ty = ret := by
  refine ⟨fun hfew => ?_, fun hmany => ?_, fun hlength => ?_, fun v w'' => ty_of_callDefined hret⟩
  · have hparam := List.getElem?_eq_getElem hfew
    exact ⟨_, hparam, callDefined_of_checkCount hret (checkCount_of_missing hparam paren)⟩
  · have harg := List.getElem?_eq_getElem hmany
    exact ⟨_, harg, callDefined_of_checkCount hret (checkCount_of_extra harg paren)⟩
  · have hzip : (f.params.zip args).length = f.params.length := by
      rw [List.length_zip]
      omega
    refine ⟨callDefined_of_length_eq hret hlength paren, fun scope w'' => ?_,
      fun bs w'' h => h.get?_scope, fun d w'' => ?_, ?_⟩
    · rw [enter_atRoot, bindParams_eq_iff]
      constructor
      · rintro ⟨h, hall⟩
        exact ⟨_, h, hall.trans hzip, rfl⟩
      · rintro ⟨bs, h, hall, rfl⟩
        exact .bound h (hall.trans hzip.symm)
    · rw [enter_atRoot, bindParams_eq_iff]
      constructor
      · rintro (_ | ⟨h, hparam, harg, hrefused⟩)
        exact ⟨_, _, _, _, h, hparam, harg, hrefused⟩
      · rintro ⟨bs, w₁, p, a, h, hparam, harg, hrefused⟩
        exact .refused h hparam harg hrefused
    · rw [enter_atRoot, bindParams_eq_iff]
      constructor
      · rintro (_ | _ | ⟨h, hparam, -, htype⟩)
        exact ⟨_, _, _, h, hparam, htype⟩
      · rintro ⟨bs, w₁, p, h, hparam, htype⟩
        have hlt : bs.length < args.length := hlength ▸ (List.getElem?_eq_some_iff.1 hparam).1
        exact .tooDeep h hparam (List.getElem?_eq_getElem hlt) htype

/-! ## A parameter that is the type of the next one -/

/-- A function of a type `T` and an `x` of it, which gives back `x` as a `u16`. -/
def typedNext : Lambda where
  unit := 0
  ret := .literal (.type (.int (.sized .unsigned .w16))) Span.origin
  params := [⟨⟨"T", ⟨1, 2⟩⟩, .literal (.type .type) Span.origin⟩,
    ⟨⟨"x", ⟨3, 4⟩⟩, .name ⟨"T", ⟨5, 6⟩⟩⟩]
  body := ⟨[.expr (.name ⟨"x", ⟨7, 8⟩⟩)], ⟨7, 8⟩⟩

/-- Called with `u8` and the literal 300, its body sees `T` and the byte 44. -/
theorem callDefined_exact_typedNext :
    let byte : Ty := .int (.sized .unsigned .w8)
    let literal : Value := .int (.literal .signed) ⟨300, by decide, by decide⟩
    let args : List Argument := [⟨.type byte, ⟨10, 12⟩⟩, ⟨literal, ⟨13, 16⟩⟩]
    let w : World Natives := ⟨Sink.empty none, [], Natives.initial⟩
    let run := callDefined (Eval.value Natives.host 1) typedNext args Env.empty ⟨9, 10⟩ w
    ∃ bs, Binding (Eval.value Natives.host 1) [] typedNext.params args w bs w ∧ bs.length = 2 ∧
      (Bound.scope bs).get? "x" =
        some (.ofConstant (.int (.sized .unsigned .w8) ⟨44, by decide, by decide⟩) ⟨13, 16⟩) ∧
      ∃ v, run = some (.ok v, w) ∧ v.ty = .int (.sized .unsigned .w16) := by
  intro byte literal args w run
  have hret : typeValue (Eval.value Natives.host 1) typedNext.ret Env.empty w =
      some (.ok (.int (.sized .unsigned .w16)), w) := rfl
  obtain ⟨-, -, hequal, hty⟩ := callDefined_exact _ typedNext args Env.empty ⟨9, 10⟩ hret
  obtain ⟨-, hbound, hscope, -⟩ := hequal rfl
  obtain ⟨bs, h, hlength, henv⟩ := (hbound _ w).1 rfl
  have hrun : ∃ v, run = some (.ok v, w) := ⟨_, rfl⟩
  obtain ⟨v, hv⟩ := hrun
  refine ⟨bs, h, hlength, ?_, v, hv, hty v w hv⟩
  have hinner := congrArg Env.innermost henv
  exact (congrArg (Scope.get? · "x") hinner).symm

end Eval

end ExprLang
