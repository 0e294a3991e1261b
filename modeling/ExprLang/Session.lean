import ExprLang.Resolve
import ExprLang.Expr.Trail
import ExprLang.Diagnostic.Render

/-!
# Sessions

A session is a program that has been read and resolved: its text, and a root scope that binds the
native functions and every constant of the program. From it `main` or another function is called,
and diagnostics are reported to the output.
-/

namespace ExprLang

/-- A native function under the name it is bound to. -/
structure NativeRef where
  name : String
  handle : Nat
deriving DecidableEq, Repr

/-- The native functions every program starts with. The host knows `println` by the handle zero. -/
def NativeRef.builtin : List NativeRef := [⟨"println", 0⟩]

/-- A resolved program. -/
structure Session where
  document : Document
  style : Style
  root : Scope

/-- Reads a text, and records how. -/
def Parse.read {σ : Type} (unit : Nat) (text : String) : Run σ (List Item) := do
  let parse := Parse.ofText unit text
  Run.recordAll (parse.trail (Lexeme.ofText text))
  fun w => some (parse.program, w)

/-- Reading a text comes to its items or to its problem. -/
theorem Parse.exists_read {σ : Type} (unit : Nat) (text : String) (w : World σ) :
    ∃ w', Parse.read unit text w = some (Item.ofText unit text, w') := ⟨_, rfl⟩

namespace Session

variable {σ : Type}

/-- Binds a native function. -/
def bindNative (native : NativeRef) (env : Env) : Run σ Env :=
  Eval.declare ⟨native.name, Span.origin⟩ (.function (.native native.name native.handle))
    Span.origin env

/-- Binds native functions in their order, and records it. -/
def bindNatives : List NativeRef → Env → Run σ Env
  | [], env => return env
  | native :: rest, env => do
    Run.record (.registered native.name)
    let env ← bindNative native env
    bindNatives rest env

/-- Reads a program, binds the native functions and resolves its constants. -/
def build (value : Evaluator σ) (document : Document) (style : Style)
    (natives : List NativeRef) : Run σ Session := do
  let items ← Parse.read 0 document.text
  let env ← bindNatives (NativeRef.builtin ++ natives) Env.empty
  let env ← Resolve.all value items env
  return ⟨document, style, env.root⟩

/-- The environment of the program. -/
def env (s : Session) : Env := Env.ofRoot s.root

/-- Binds a native function after the program has been resolved. -/
def register (s : Session) (native : NativeRef) : Run σ Session := do
  let env ← bindNative native s.env
  return { s with root := env.root }

/-- The function `main`, and where it was written. It has to be a function of the program without
parameters. -/
def main? (s : Session) : Except Diagnostic (Function × Span) :=
  match s.root.get? "main" with
  | none => .error ⟨.noMain, Span.origin⟩
  | some slot =>
    let origin := slot.origin?.getD Span.origin
    match slot.value? with
    | some (.function (.defined f)) =>
      if f.params.isEmpty then .ok (.defined f, origin) else .error ⟨.mainHasParams, origin⟩
    | other => .error ⟨.mainNotDefined (other.map Value.ty), origin⟩

/-- The function of a name, and where it was written. -/
def function? (s : Session) (name : String) : Except Diagnostic (Function × Span) :=
  match s.root.get? name with
  | none => .error ⟨.noSuchFunction name, Span.origin⟩
  | some slot =>
    let origin := slot.origin?.getD Span.origin
    match slot.value? with
    | none => .error ⟨.unset name, origin⟩
    | some (.function f) => .ok (f, origin)
    | some v => .error ⟨.notAFunction v.ty, origin⟩

/-- Calls a function without arguments. -/
def start (caller : Caller σ) (s : Session) (f : Except Diagnostic (Function × Span)) :
    Run σ Value :=
  match f with
  | .ok (f, origin) => caller f [] s.env origin
  | .error d => fun w => some (.error d, w)

/-- Calls `main`. -/
def callMain (caller : Caller σ) (s : Session) : Run σ Value := start caller s s.main?

/-- Calls a function by its name. -/
def callFunction (caller : Caller σ) (s : Session) (name : String) : Run σ Value :=
  start caller s (s.function? name)

/-- Writes a diagnostic to the output. An output that refuses it is recorded. -/
def report (s : Session) (d : Diagnostic) : Run σ Unit := do
  if ← Run.writeLine [d.render s.style s.document] then return ()
  else Run.record (.reportLost Sink.refusal)

/-- Calls `main` and reports its diagnostic, if any. Says whether it succeeded. -/
def run (caller : Caller σ) (s : Session) : Run σ Bool := do
  match ← (callMain caller s).attempt with
  | .ok v =>
    Run.record (.mainReturned v.text)
    return true
  | .error d =>
    report s d
    return false

end Session

end ExprLang
