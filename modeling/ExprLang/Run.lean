import ExprLang.Scope
import ExprLang.Event
import ExprLang.Sink

/-!
# Running code

Evaluation happens in a world: the output, the record of events, and whatever state the host keeps
for its native functions. A `Run σ α` takes a world to a result or a diagnostic and to the world
afterwards. Recursion is bounded by a depth, and a run for which the depth is too small has no
outcome at all (`none`), which is kept apart from every diagnostic.

A native function answers with a `Reply`: it is done, or it asks for another function to be called
and says how it goes on with the result.
-/

namespace ExprLang

/-- What evaluation can read and change: the output, the events, the latest first, and the state of
the host. -/
structure World (σ : Type) where
  sink : Sink
  events : List Event
  host : σ

/-- A computation in a world. It has no outcome if it needs more depth than it is given. -/
def Run (σ α : Type) := World σ → Option (Except Diagnostic α × World σ)

/-- An argument of a call: its value and where it was written. -/
structure Argument where
  value : Value
  span : Span

namespace Run

variable {σ α β : Type}

/-- The computation that does nothing. -/
def ret (a : α) : Run σ α := fun w => some (.ok a, w)

/-- One computation after another. A diagnostic of the first is that of both. -/
def andThen (x : Run σ α) (f : α → Run σ β) : Run σ β := fun w =>
  match x w with
  | some (.ok a, w) => f a w
  | some (.error d, w) => some (.error d, w)
  | none => none

instance : Monad (Run σ) where
  pure := ret
  bind := andThen

/-- The computation without an outcome. -/
def tooDeep : Run σ α := fun _ => none

/-- Stops with a problem. -/
def fail (problem : Problem) (span : Span) : Run σ α := fun w => some (.error ⟨problem, span⟩, w)

/-- A result, or a diagnostic at a span. -/
def ofExcept (span : Span) : Except Problem α → Run σ α
  | .ok a => ret a
  | .error p => fail p span

/-- A result, or a problem where there is none. -/
def ofOption (problem : Problem) (span : Span) : Option α → Run σ α
  | some a => ret a
  | none => fail problem span

/-- Runs a computation and gives its outcome, diagnostic or not, as a result. -/
def attempt (x : Run σ α) : Run σ (Except Diagnostic α) := fun w =>
  (x w).map fun (outcome, w) => (.ok outcome, w)

/-- Records an event. -/
def record (e : Event) : Run σ Unit := fun w => some (.ok (), { w with events := e :: w.events })

/-- Records events in their order. -/
def recordAll (es : List Event) : Run σ Unit := fun w =>
  some (.ok (), { w with events := es.reverse ++ w.events })

/-- Writes a line, given in pieces, and says whether the output took it. -/
def writeLine (pieces : List String) : Run σ Bool := fun w =>
  let (taken, sink) := w.sink.writeLine pieces
  some (.ok taken, { w with sink })

/-- Writes a text and says whether the output took it. -/
def write (text : String) : Run σ Bool := fun w =>
  match w.sink.write? text with
  | some sink => some (.ok true, { w with sink })
  | none => some (.ok false, w)

@[simp] theorem pure_apply (a : α) (w : World σ) : (pure a : Run σ α) w = some (.ok a, w) := rfl

@[simp] theorem fail_apply (p : Problem) (span : Span) (w : World σ) :
    (fail p span : Run σ α) w = some (.error ⟨p, span⟩, w) := rfl

/-- A computation that succeeds hands its result and its world on. -/
theorem bind_of_ok {x : Run σ α} {f : α → Run σ β} {w w' : World σ} {a : α}
    (h : x w = some (.ok a, w')) : (x >>= f) w = f a w' := by
  show andThen x f w = _
  rw [andThen, h]

/-- A diagnostic ends what follows. -/
theorem bind_of_error {x : Run σ α} {f : α → Run σ β} {w w' : World σ} {d : Diagnostic}
    (h : x w = some (.error d, w')) : (x >>= f) w = some (.error d, w') := by
  show andThen x f w = _
  rw [andThen, h]

/-- A computation without an outcome ends what follows. -/
theorem bind_of_none {x : Run σ α} {f : α → Run σ β} {w : World σ} (h : x w = none) :
    (x >>= f) w = none := by
  show andThen x f w = _
  rw [andThen, h]

/-- Two computations that come to the same, each followed by the same. -/
theorem bind_of_eq {x y : Run σ α} {f : α → Run σ β} {w : World σ} (h : x w = y w) :
    (x >>= f) w = (y >>= f) w := by
  show andThen x f w = andThen y f w
  rw [andThen, andThen, h]

/-- Two computations succeed together if the first succeeds and the second does after it. -/
theorem bind_eq_ok {x : Run σ α} {f : α → Run σ β} {w w'' : World σ} {b : β}
    (h : (x >>= f) w = some (.ok b, w'')) :
    ∃ a w', x w = some (.ok a, w') ∧ f a w' = some (.ok b, w'') := by
  match hx : x w with
  | some (.ok a, w') => exact ⟨a, w', rfl, by rw [← h, bind_of_ok hx]⟩
  | some (.error d, w') => rw [bind_of_error hx] at h; cases h
  | none => rw [bind_of_none hx] at h; cases h

/-- What two computations come to: what the second does after a result of the first, or the
diagnostic of the first. -/
theorem bind_eq_some {x : Run σ α} {f : α → Run σ β} {w : World σ}
    {r : Except Diagnostic β × World σ} (h : (x >>= f) w = some r) :
    (∃ a w', x w = some (.ok a, w') ∧ f a w' = some r) ∨
      ∃ d w', x w = some (.error d, w') ∧ r = (.error d, w') := by
  match hx : x w with
  | some (.ok a, w') => exact .inl ⟨a, w', rfl, by rw [← h, bind_of_ok hx]⟩
  | some (.error d, w') =>
    rw [bind_of_error hx] at h
    cases h
    exact .inr ⟨d, w', rfl, rfl⟩
  | none => rw [bind_of_none hx] at h; cases h

/-- An attempt hands on whatever its computation comes to. -/
theorem bind_attempt_of_some {x : Run σ α} {f : Except Diagnostic α → Run σ β} {w w' : World σ}
    {o : Except Diagnostic α} (h : x w = some (o, w')) : (x.attempt >>= f) w = f o w' := by
  apply bind_of_ok
  rw [attempt, h]
  rfl

theorem bind_attempt_eq_some {x : Run σ α} {f : Except Diagnostic α → Run σ β} {w : World σ}
    {r : Except Diagnostic β × World σ} (h : (x.attempt >>= f) w = some r) :
    ∃ o w', x w = some (o, w') ∧ f o w' = some r := by
  match hx : x w with
  | some (o, w') => exact ⟨o, w', rfl, by rw [← h, bind_attempt_of_some hx]⟩
  | none =>
    have hnone : x.attempt w = none := by rw [attempt, hx]; rfl
    rw [bind_of_none hnone] at h
    cases h

/-- Three computations in a row, however they are grouped. -/
theorem bind_assoc {γ : Type} (x : Run σ α) (f : α → Run σ β) (g : β → Run σ γ) :
    (x >>= f) >>= g = x >>= fun a => f a >>= g := by
  funext w
  match hx : x w with
  | some (.ok a, w') =>
    rw [bind_of_ok hx]
    show andThen (x >>= f) g w = andThen (f a) g w'
    rw [andThen, andThen, bind_of_ok hx]
  | some (.error d, w') =>
    rw [bind_of_error hx, bind_of_error (bind_of_error hx)]
  | none =>
    rw [bind_of_none hx, bind_of_none (bind_of_none hx)]

end Run

/-- How functions are called: with arguments, the environment of the call and the span of its
opening parenthesis. -/
abbrev Caller (σ : Type) := Function → List Argument → Env → Span → Run σ Value

/-- The answer of a native function. -/
inductive Reply (σ : Type) where
  /-- It is done. -/
  | done (outcome : Except Diagnostic Value) (world : World σ)
  /-- It asks for a call, and goes on with its outcome. -/
  | call (f : Function) (args : List Argument) (env : Env) (paren : Span) (world : World σ)
      (resume : Except Diagnostic Value → World σ → Reply σ)

/-- Carries out a reply, given how functions are called. -/
def Reply.run {σ : Type} (caller : Caller σ) : Reply σ → Option (Except Diagnostic Value × World σ)
  | .done outcome w => some (outcome, w)
  | .call f args env paren w resume =>
    match caller f args env paren w with
    | some (outcome, w) => (resume outcome w).run caller
    | none => none

/-- The native functions of a host: what the one with a handle does when it is called. -/
structure Host (σ : Type) where
  invoke : Nat → List Argument → Env → Span → World σ → Reply σ

end ExprLang
