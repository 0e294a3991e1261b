import ExprLang.Run
import ExprLang.Value.Arithmetic

/-!
# Evaluation

`Eval.value` evaluates an expression in an environment, to a depth of nested evaluations. It is
built in two steps: `Eval.step` and `Eval.invoke` evaluate one expression and call one function,
given how the parts are evaluated and how further functions are called, and the depth counts how
often these steps nest. Evaluation at depth zero has no outcome.

Two further questions can be asked about an expression, and both may run code to answer.
`Eval.valid` asks whether evaluation would succeed, as far as that shows without calling a
function or combining numbers. `Eval.infer` asks for the type of the result, which a call of a
native function leaves open.

A call evaluates the return type where the call stands. Everything else in a function sees its
parameters and the root alone.
-/

namespace ExprLang

/-- How expressions are evaluated in an environment. -/
abbrev Evaluator (σ : Type) := Expr → Env → Run σ Value

namespace Eval

variable {σ : Type}

/-! ## The parts of an evaluation -/

/-- The value of a name. -/
def lookup (id : Ident) (env : Env) : Run σ Value :=
  match env.get? id.name with
  | none => Run.fail (.unbound id.name) id.span
  | some slot => Run.ofOption (.unset id.name) id.span slot.value?

/-- Declares a constant that came from `origin`, under a name. -/
def declare (name : Ident) (value : Value) (origin : Span) (env : Env) : Run σ Env :=
  Run.ofExcept name.span
    (Except.mapError ScopeError.problem (env.declareConstant name.name value origin))

/-- A name is declared once in a scope. -/
theorem declare_of_contains (name : Ident) (value : Value) (origin : Span) (env : Env)
    (h : env.innermost.contains name.name = true) :
    (declare name value origin env : Run σ Env) = Run.fail (.redeclared name.name) name.span := by
  rw [declare, Env.declareConstant, Env.insert_of_contains h]
  rfl

/-- A name that the innermost scope does not declare is added to it. -/
theorem declare_of_not_contains (name : Ident) (value : Value) (origin : Span) (env : Env)
    (h : ¬env.innermost.contains name.name = true) :
    (declare name value origin env : Run σ Env) = pure (env.withInnermost
      ((name.name, Slot.ofConstant value origin) :: env.innermost)) := by
  rw [declare, Env.declareConstant, Env.insert_of_not_contains (Bool.eq_false_iff.2 h)]
  rfl

/-- Evaluates an expression to a type. -/
def typeValue (value : Evaluator σ) (e : Expr) (env : Env) : Run σ Ty := do
  let v ← value e env
  Run.ofOption (.notAType v.ty) e.span v.toType?

/-- Evaluates two operands, the left one first, and brings them to one type if that is possible. -/
def operands (value : Evaluator σ) (left right : Expr) (env : Env) : Run σ (Value × Value) := do
  let l ← value left env
  let r ← value right env
  return l.align r

/-- Evaluates arguments in their order. -/
def arguments (value : Evaluator σ) : List Expr → Env → Run σ (List Argument)
  | [], _ => return []
  | e :: es, env => do
    let v ← value e env
    let rest ← arguments value es env
    return ⟨v, e.span⟩ :: rest

/-- Runs a statement: its value, and the environment for the next one. -/
def statement (value : Evaluator σ) : Statement → Env → Run σ (Value × Env)
  | .expr e, env => do
    let v ← value e env
    return (v, env)
  | .const _ name e, env => do
    let v ← value e env
    let env ← declare name v e.span env
    return (.void, env)

/-- Runs statements, and gives the value of the last one. -/
def statements (value : Evaluator σ) : List Statement → Value → Env → Run σ Value
  | [], last, _ => return last
  | s :: rest, _, env => do
    let (v, env) ← statement value s env
    statements value rest v env

/-- Runs a block in a scope of its own. An empty block is `void`. -/
def block (value : Evaluator σ) (b : Block) (env : Env) : Run σ Value :=
  statements value b.statements .void env.enter

/-! ## Calls -/

/-- Declares a parameter, with an argument coerced to its type. -/
def bindParam (value : Evaluator σ) (p : Param) (a : Argument) (scope : Env) : Run σ Env := do
  let t ← typeValue value p.type scope
  let v ← Run.ofOption (.wrongArgument t a.value.ty) a.span (a.value.coerce t)
  declare p.name v a.span scope

/-- Declares parameters in their order. -/
def bindParams (value : Evaluator σ) : List (Param × Argument) → Env → Run σ Env
  | [], scope => return scope
  | (p, a) :: rest, scope => do
    let scope ← bindParam value p a scope
    bindParams value rest scope

/-- Stops unless there are as many arguments as parameters. -/
def checkCount (params : List Param) (args : List Argument) (paren : Span) : Run σ Unit :=
  match params[args.length]? with
  | some p => Run.fail (.missingArgument p.name.name) paren
  | none =>
    match args[params.length]? with
    | some a => Run.fail .extraArgument a.span
    | none => return ()

/-- Calls a function of the program. -/
def callDefined (value : Evaluator σ) (f : Lambda) (args : List Argument) (env : Env)
    (paren : Span) : Run σ Value := do
  let ret ← typeValue value f.ret env
  checkCount f.params args paren
  let scope ← bindParams value (f.params.zip args) env.atRoot.enter
  let result ← block value f.body scope
  Run.ofOption (.wrongResult ret result.ty) f.body.resultSpan (result.coerce ret)

/-- Calls a function, given how a native function calls others. -/
def invoke (host : Host σ) (value : Evaluator σ) (caller : Caller σ) : Caller σ
  | .defined f, args, env, paren => do
    Run.record (.calledDefined args.length)
    callDefined value f args env paren
  | .native name handle, args, env, paren => do
    Run.record (.calledNative name)
    fun w => (host.invoke handle args env paren w).run caller

/-! ## Values -/

/-- Evaluates an expression, given how its parts are evaluated and how functions are called. -/
def step (value : Evaluator σ) (caller : Caller σ) (e : Expr) (env : Env) : Run σ Value :=
  match e with
  | .literal l _ => return l.toValue
  | .function f => return .function (.defined f)
  | .name id => lookup id env
  | .binary op left right => do
    let (l, r) ← operands value left right env
    Run.ofExcept e.span (op.apply l r)
  | .coerce source type => do
    let v ← value source env
    let target ← typeValue value type env
    Run.ofOption (.notCoercible v.ty target) e.span (v.coerce target)
  | .call callee args paren _ => do
    let v ← value callee env
    let f ← Run.ofOption (.notAFunction v.ty) e.span v.toFunction?
    let as ← arguments value args env
    caller f as env paren
  | .block b => block value b env

mutual

/-- Evaluates an expression to a depth. -/
def value (host : Host σ) : Nat → Evaluator σ
  | 0 => fun _ _ => Run.tooDeep
  | depth + 1 => step (value host depth) (call host depth)

/-- Calls a function to a depth. -/
def call (host : Host σ) : Nat → Caller σ
  | 0 => fun _ _ _ _ => Run.tooDeep
  | depth + 1 => invoke host (value host depth) (call host depth)

end

/-! ## Validity -/

mutual

/-- Whether an expression would evaluate, calls and arithmetic aside. -/
def valid (value : Evaluator σ) : Expr → Env → Run σ Bool
  | .literal _ _, _ => return true
  | .function _, _ => return true
  | .name id, env => return (env.get? id.name).any fun slot => slot.content.isSome
  | .binary op left right, env => do
    match ← (operands value left right env).attempt with
    | .ok (l, r) => return (op.check l r).toOption.isSome
    | .error _ => return false
  | .coerce source type, env => do
    let v ← (value source env).attempt
    let target ← (typeValue value type env).attempt
    match v, target with
    | .ok v, .ok target => return (v.coerce target).isSome
    | _, _ => return false
  | .call callee args _ _, env => do
    match ← (value callee env).attempt with
    | .ok (.function _) => allValid value args env
    | _ => return false
  | .block b, env => do
    let outcome ← (block value b env).attempt
    return outcome.toOption.isSome

/-- Whether all expressions of a list are valid. The first that is not ends the search. -/
def allValid (value : Evaluator σ) : List Expr → Env → Run σ Bool
  | [], _ => return true
  | e :: es, env => do
    if ← valid value e env then allValid value es env else return false

end

/-! ## Types -/

mutual

/-- The type of an expression, where it can be told. -/
def infer (value : Evaluator σ) : Expr → Env → Run σ (Option Ty)
  | .literal l _, _ => return some l.ty
  | .function _, _ => return some .function
  | .name id, env => return (env.get? id.name).map (·.type)
  | .binary op left right, env => do
    match ← (operands value left right env).attempt with
    | .ok (l, r) => return (op.check l r).toOption
    | .error _ => return none
  | .coerce _ type, env => do
    let target ← (typeValue value type env).attempt
    return target.toOption
  | .call callee _ _ _, env => do
    match ← (value callee env).attempt with
    | .ok (.function (.defined f)) =>
      let ret ← (typeValue value f.ret env).attempt
      return ret.toOption
    | _ => return none
  | .block b, env =>
    match b with
    | ⟨statements, _⟩ => inferLast value statements env.enter

/-- The type of the last statement. The constants declared before it are evaluated, the other
statements are not. -/
def inferLast (value : Evaluator σ) : List Statement → Env → Run σ (Option Ty)
  | [], _ => return some .void
  | [.expr e], env => infer value e env
  | [.const _ _ e], env => do
    let ok ← valid value e env
    return if ok then some .void else none
  | .expr _ :: rest, env => inferLast value rest env
  | .const keyword name e :: rest, env => do
    match ← (statement value (.const keyword name e) env).attempt with
    | .ok (_, env) => inferLast value rest env
    | .error _ => return none

end

end Eval

end ExprLang
