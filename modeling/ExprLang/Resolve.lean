import ExprLang.Eval

/-!
# Resolution

The constants of a program are declared in whatever order their values allow. A pass evaluates
every constant that is left, in the order of the text, and declares those that evaluate; the
others wait for the next pass. If a pass declares none, the first one left is evaluated once more:
its problem is the problem of the program.

Each round declares at least one constant, so that there are at most as many as constants.
-/

namespace ExprLang

namespace Resolve

variable {σ : Type}

/-- Evaluates and declares an item. -/
def item (value : Evaluator σ) (i : Item) (env : Env) : Run σ Env := do
  let v ← value i.value env
  Eval.declare i.name v i.value.span env

/-- One pass over items: those that are left, and the environment with the others. -/
def pass (value : Evaluator σ) (number : Nat) : List Item → Env → Run σ (List Item × Env)
  | [], env => return ([], env)
  | i :: rest, env => do
    match ← (value i.value env).attempt with
    | .ok v =>
      let env ← Eval.declare i.name v i.value.span env
      pass value number rest env
    | .error d =>
      Run.record (.deferred number i.name.name d.problem)
      let (left, env) ← pass value number rest env
      return (i :: left, env)

/-- Declares what a fruitless pass left: the first item, or the problem it has. -/
def force (value : Evaluator σ) : List Item → Env → Run σ (List Item × Env)
  | [], env => return ([], env)
  | i :: rest, env => do
    let env ← item value i env
    return (rest, env)

/-- A pass over items, and a second look at the first of them if it declared none. -/
def round (value : Evaluator σ) (number : Nat) (pending : List Item) (env : Env) :
    Run σ (List Item × Env) := do
  let (left, env) ← pass value number pending env
  Run.record (.passEnded number (pending.length - left.length) left.length)
  if left.length = pending.length then force value left env else return (left, env)

/-- Rounds until no item is left, at most `bound` of them. -/
def rounds (value : Evaluator σ) : Nat → Nat → List Item → Env → Run σ Env
  | _, _, [], env => return env
  | 0, _, _ :: _, env => return env
  | bound + 1, number, pending, env => do
    let (left, env) ← round value number pending env
    rounds value bound (number + 1) left env

/-- Declares every item of a program. -/
def all (value : Evaluator σ) (items : List Item) (env : Env) : Run σ Env :=
  rounds value items.length 1 items env

end Resolve

end ExprLang
