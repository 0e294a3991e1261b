import ExprLang.Eval

/-!
# Two runs compared

Most laws of evaluation speak about two runs of one expression: in two environments, in two worlds,
or to two depths. A `Comparison` says from which roots and worlds the two runs may start, and what
of the first one has to be found again in the second. The scopes inside the root are the same in
both runs. Evaluation built from comparable parts is comparable (`Comparison.step_runs`,
`Comparison.invoke_runs`), so that two runs to the same depth agree as far as the native functions
do (`Comparison.value_runs`).

A native function is given the calls it makes, and is asked to keep the comparison only if these
calls do (`Host.Respects`).
-/

namespace ExprLang

/-- A way to compare two runs. -/
structure Comparison (σ : Type) where
  /-- The roots that the two runs may start from. -/
  root : Scope → Scope → Prop
  /-- The worlds that the two runs may start from, and that they end in. -/
  world : World σ → World σ → Prop
  /-- A diagnostic of the first run says nothing about the second. -/
  mends : Prop
  /-- A first run without an outcome says nothing about the second. -/
  outlasts : Prop
  get?_eq_some : ∀ {r r' : Scope} {name : String} {slot : Slot},
    root r r' → r.get? name = some slot → r'.get? name = some slot
  get?_eq_none : ∀ {r r' : Scope} {name : String},
    root r r' → r.get? name = none → mends ∨ r'.get? name = none
  record : ∀ {w w' : World σ} (e : Event), world w w' →
    world { w with events := e :: w.events } { w' with events := e :: w'.events }

namespace Comparison

variable {σ α β : Type} (c : Comparison σ)

/-! ## Outcomes and runs -/

/-- What the first run came to is found again in the second, with results compared by `same`. -/
inductive Outcome (same : α → α → Prop) :
    Option (Except Diagnostic α × World σ) → Option (Except Diagnostic α × World σ) → Prop
  | ok {a a' : α} {w w' : World σ} (result : same a a') (world : c.world w w') :
    Outcome same (some (.ok a, w)) (some (.ok a', w'))
  | error {d : Diagnostic} {w w' : World σ} (world : c.world w w') :
    Outcome same (some (.error d, w)) (some (.error d, w'))
  | silent : Outcome same none none
  | mended {d : Diagnostic} {w : World σ} {y : Option (Except Diagnostic α × World σ)}
    (mends : c.mends) : Outcome same (some (.error d, w)) y
  | outlasted {y : Option (Except Diagnostic α × World σ)} (outlasts : c.outlasts) :
    Outcome same none y

/-- Two computations that agree on comparable worlds. -/
def Runs (same : α → α → Prop) (x y : Run σ α) : Prop :=
  ∀ (w w' : World σ), c.world w w' → c.Outcome same (x w) (y w')

variable {c}

theorem Runs.pure {same : α → α → Prop} {a a' : α} (h : same a a') :
    c.Runs same (pure a) (pure a') :=
  fun _ _ hw => .ok h hw

theorem Runs.fail {same : α → α → Prop} (p : Problem) (span : Span) :
    c.Runs same (Run.fail p span) (Run.fail p span) :=
  fun _ _ hw => .error hw

theorem Runs.tooDeep {same : α → α → Prop} : c.Runs same Run.tooDeep Run.tooDeep :=
  fun _ _ _ => .silent

theorem Runs.record (e : Event) : c.Runs Eq (Run.record e) (Run.record e) :=
  fun _ _ hw => .ok rfl (c.record e hw)

theorem Runs.ofOption (p : Problem) (span : Span) (o : Option α) :
    c.Runs Eq (Run.ofOption p span o) (Run.ofOption p span o) := by
  cases o with
  | none => exact .fail p span
  | some a => exact .pure rfl

theorem Runs.ofExcept (span : Span) (o : Except Problem α) :
    c.Runs Eq (Run.ofExcept span o) (Run.ofExcept span o) := by
  cases o with
  | error p => exact .fail p span
  | ok a => exact .pure rfl

/-- Comparable computations, each followed by comparable ones. -/
theorem Runs.bind {same : α → α → Prop} {same' : β → β → Prop} {x y : Run σ α}
    {f g : α → Run σ β} (hx : c.Runs same x y)
    (hf : ∀ {a a'}, same a a' → c.Runs same' (f a) (g a')) :
    c.Runs same' (x >>= f) (y >>= g) := by
  intro w w' hw
  have h := hx w w' hw
  generalize hxw : x w = o, hyw : y w' = o' at h
  cases h with
  | ok hr hw' =>
    rw [Run.bind_of_ok hxw, Run.bind_of_ok hyw]
    exact hf hr _ _ hw'
  | error hw' =>
    rw [Run.bind_of_error hxw, Run.bind_of_error hyw]
    exact .error hw'
  | silent =>
    rw [Run.bind_of_none hxw, Run.bind_of_none hyw]
    exact .silent
  | mended hm =>
    rw [Run.bind_of_error hxw]
    exact .mended hm
  | outlasted ho =>
    rw [Run.bind_of_none hxw]
    exact .outlasted ho

/-- Outcomes with results that compare, or with the same diagnostic. -/
inductive Same (same : α → α → Prop) : Except Diagnostic α → Except Diagnostic α → Prop
  | ok {a a' : α} (result : same a a') : Same same (.ok a) (.ok a')
  | error (d : Diagnostic) : Same same (.error d) (.error d)

/-- Where no diagnostic is forgiven, comparable computations can be attempted. -/
theorem Runs.attempt {same : α → α → Prop} {x y : Run σ α} (hm : ¬c.mends)
    (hx : c.Runs same x y) : c.Runs (Same same) x.attempt y.attempt := by
  intro w w' hw
  have h := hx w w' hw
  unfold Run.attempt
  generalize x w = o, y w' = o' at h
  cases h with
  | ok hr hw' => exact .ok (.ok hr) hw'
  | error hw' => exact .ok (.error _) hw'
  | silent => exact .silent
  | mended hm' => exact absurd hm' hm
  | outlasted ho => exact .outlasted ho

/-! ## Environments -/

variable (c) in
/-- The same scopes around comparable roots. -/
structure Envs (env env' : Env) : Prop where
  inner : env.inner = env'.inner
  root : c.root env.root env'.root

variable (c) in
/-- Comparable environments inside the root, where names can be declared. -/
structure Nested (env env' : Env) : Prop extends c.Envs env env' where
  isNested : env.inner ≠ []

theorem Envs.enter {env env' : Env} (h : c.Envs env env') : c.Nested env.enter env'.enter :=
  ⟨⟨by rw [Env.enter, Env.enter, h.inner], h.root⟩, List.cons_ne_nil _ _⟩

/-- Where only equal roots compare, only equal environments do. -/
theorem Envs.eq_of_root (hroot : ∀ {r r' : Scope}, c.root r r' → r = r') {env env' : Env}
    (h : c.Envs env env') : env = env' := by
  obtain ⟨inner, root⟩ := env
  obtain ⟨inner', root'⟩ := env'
  obtain ⟨rfl, hr⟩ := h
  obtain rfl : root = root' := hroot hr
  rfl

theorem Envs.atRoot {env env' : Env} (h : c.Envs env env') : c.Envs env.atRoot env'.atRoot :=
  ⟨rfl, h.root⟩

/-- A name declared inside the root leaves the roots alone. -/
theorem Nested.declare {env env' : Env} (h : c.Nested env env') (name : Ident) (v : Value)
    (origin : Span) :
    c.Runs c.Nested (Eval.declare name v origin env) (Eval.declare name v origin env') := by
  obtain ⟨⟨hinner, hroot⟩, hne⟩ := h
  obtain ⟨inner, root⟩ := env
  obtain ⟨inner', root'⟩ := env'
  cases inner with
  | nil => exact absurd rfl hne
  | cons scope outer =>
    simp only at hinner
    subst hinner
    by_cases hdeclared : scope.contains name.name = true
    · rw [Eval.declare_of_contains name v origin ⟨scope :: outer, root⟩ hdeclared,
        Eval.declare_of_contains name v origin ⟨scope :: outer, root'⟩ hdeclared]
      exact .fail _ _
    · rw [Eval.declare_of_not_contains name v origin ⟨scope :: outer, root⟩ hdeclared,
        Eval.declare_of_not_contains name v origin ⟨scope :: outer, root'⟩ hdeclared]
      exact .pure ⟨⟨rfl, hroot⟩, List.cons_ne_nil _ _⟩

theorem Envs.lookup {env env' : Env} (h : c.Envs env env') (id : Ident) :
    c.Runs Eq (Eval.lookup id env) (Eval.lookup id env') := by
  unfold Eval.lookup
  rw [Env.get?_eq_or, Env.get?_eq_or, ← h.inner]
  cases Env.find? id.name env.inner with
  | some slot => exact .ofOption _ _ _
  | none =>
    simp only [Option.none_or]
    cases hg : env.root.get? id.name with
    | some slot =>
      rw [c.get?_eq_some h.root hg]
      exact .ofOption _ _ _
    | none =>
      rcases c.get?_eq_none h.root hg with hm | hg'
      · exact fun _ _ _ => .mended hm
      · rw [hg']
        exact .fail _ _

theorem Envs.get?_eq (hm : ¬c.mends) {env env' : Env} (h : c.Envs env env') (name : String) :
    env.get? name = env'.get? name := by
  rw [Env.get?_eq_or, Env.get?_eq_or, h.inner]
  congr 1
  cases hg : env.root.get? name with
  | some slot => exact (c.get?_eq_some h.root hg).symm
  | none =>
    rcases c.get?_eq_none h.root hg with hm' | hg'
    · exact absurd hm' hm
    · exact hg'.symm

/-! ## Evaluators and callers -/

variable (c) in
/-- Two ways of evaluating expressions that agree on comparable environments. -/
def Evaluators (value value' : Evaluator σ) : Prop :=
  ∀ (e : Expr) {env env' : Env}, c.Envs env env' → c.Runs Eq (value e env) (value' e env')

variable (c) in
/-- Two ways of calling functions that agree on comparable environments. -/
def Callers (caller caller' : Caller σ) : Prop :=
  ∀ (f : Function) (args : List Argument) {env env' : Env} (paren : Span), c.Envs env env' →
    c.Runs Eq (caller f args env paren) (caller' f args env' paren)

section Parts

variable {value value' : Evaluator σ} (hv : c.Evaluators value value')

include hv

theorem typeValue_runs (e : Expr) {env env' : Env} (h : c.Envs env env') :
    c.Runs Eq (Eval.typeValue value e env) (Eval.typeValue value' e env') := by
  refine (hv e h).bind ?_
  rintro v _ rfl
  exact .ofOption _ _ _

theorem operands_runs (left right : Expr) {env env' : Env} (h : c.Envs env env') :
    c.Runs Eq (Eval.operands value left right env) (Eval.operands value' left right env') := by
  refine (hv left h).bind ?_
  rintro l _ rfl
  refine (hv right h).bind ?_
  rintro r _ rfl
  exact .pure rfl

theorem arguments_runs (es : List Expr) {env env' : Env} (h : c.Envs env env') :
    c.Runs Eq (Eval.arguments value es env) (Eval.arguments value' es env') := by
  induction es with
  | nil => exact .pure rfl
  | cons e es ih =>
    refine (hv e h).bind ?_
    rintro v _ rfl
    refine ih.bind ?_
    rintro rest _ rfl
    exact .pure rfl

variable (c) in
omit hv in
/-- A value and the environment for what follows. -/
def Steps (r r' : Value × Env) : Prop := r.1 = r'.1 ∧ c.Nested r.2 r'.2

theorem statement_runs (s : Statement) {env env' : Env} (h : c.Nested env env') :
    c.Runs c.Steps (Eval.statement value s env) (Eval.statement value' s env') := by
  cases s with
  | expr e =>
    refine (hv e h.toEnvs).bind ?_
    rintro v _ rfl
    exact .pure ⟨rfl, h⟩
  | const keyword name e =>
    refine (hv e h.toEnvs).bind ?_
    rintro v _ rfl
    refine (h.declare name v e.span).bind ?_
    intro inside inside' hinside
    exact .pure ⟨rfl, hinside⟩

theorem statements_runs (ss : List Statement) (last : Value) {env env' : Env}
    (h : c.Nested env env') :
    c.Runs Eq (Eval.statements value ss last env) (Eval.statements value' ss last env') := by
  induction ss generalizing last env env' with
  | nil => exact .pure rfl
  | cons s rest ih =>
    refine (statement_runs hv s h).bind ?_
    rintro ⟨v, inside⟩ ⟨_, inside'⟩ ⟨rfl, hinside⟩
    exact ih v hinside

theorem block_runs (b : Block) {env env' : Env} (h : c.Envs env env') :
    c.Runs Eq (Eval.block value b env) (Eval.block value' b env') :=
  statements_runs hv b.statements .void h.enter

theorem bindParam_runs (p : Param) (a : Argument) {env env' : Env} (h : c.Nested env env') :
    c.Runs c.Nested (Eval.bindParam value p a env) (Eval.bindParam value' p a env') := by
  refine (typeValue_runs hv p.type h.toEnvs).bind ?_
  rintro t _ rfl
  refine (Runs.ofOption _ _ _).bind ?_
  rintro v _ rfl
  exact h.declare p.name v a.span

theorem bindParams_runs (ps : List (Param × Argument)) {env env' : Env} (h : c.Nested env env') :
    c.Runs c.Nested (Eval.bindParams value ps env) (Eval.bindParams value' ps env') := by
  induction ps generalizing env env' with
  | nil => exact .pure h
  | cons pa rest ih =>
    obtain ⟨p, a⟩ := pa
    exact (bindParam_runs hv p a h).bind ih

end Parts

theorem checkCount_runs (params : List Param) (args : List Argument) (paren : Span) :
    c.Runs Eq (Eval.checkCount params args paren) (Eval.checkCount params args paren) := by
  unfold Eval.checkCount
  split
  · exact .fail _ _
  · split
    · exact .fail _ _
    · exact .pure rfl

/-! ## Calls and expressions -/

section Steps

variable {value value' : Evaluator σ} (hv : c.Evaluators value value')
  {caller caller' : Caller σ} (hc : c.Callers caller caller')

include hv in
/-- A call evaluates the return type where it stands, and the rest beside the root. -/
theorem callDefined_runs (f : Lambda) (args : List Argument) {env env' : Env} (paren : Span)
    (h : c.Envs env env') :
    c.Runs Eq (Eval.callDefined value f args env paren)
      (Eval.callDefined value' f args env' paren) := by
  refine (typeValue_runs hv f.ret h).bind ?_
  rintro ret _ rfl
  refine (checkCount_runs f.params args paren).bind ?_
  rintro _ _ -
  refine (bindParams_runs hv (f.params.zip args) h.atRoot.enter).bind ?_
  intro scope scope' hscope
  refine (block_runs hv f.body hscope.toEnvs).bind ?_
  rintro result _ rfl
  exact .ofOption _ _ _

include hv hc in
/-- One step of evaluation keeps the comparison if the evaluation of the parts and the calls do. -/
theorem step_runs : c.Evaluators (Eval.step value caller) (Eval.step value' caller') := by
  intro e env env' h
  cases e with
  | literal l span => exact .pure rfl
  | function f => exact .pure rfl
  | name id => exact h.lookup id
  | binary op left right =>
    refine (operands_runs hv left right h).bind ?_
    rintro ⟨l, r⟩ _ rfl
    exact .ofExcept _ _
  | coerce source type =>
    refine (hv source h).bind ?_
    rintro v _ rfl
    refine (typeValue_runs hv type h).bind ?_
    rintro target _ rfl
    exact .ofOption _ _ _
  | call callee args paren close =>
    refine (hv callee h).bind ?_
    rintro v _ rfl
    refine (Runs.ofOption _ _ _).bind ?_
    rintro f _ rfl
    refine (arguments_runs hv args h).bind ?_
    rintro as _ rfl
    exact hc f as paren h
  | block b => exact block_runs hv b h

end Steps

/-! ## Validity and types -/

section Queries

variable {value value' : Evaluator σ} (hm : ¬c.mends) (hv : c.Evaluators value value')

include hm hv

set_option linter.unusedSectionVars false in
mutual

theorem valid_runs : ∀ (e : Expr) {env env' : Env}, c.Envs env env' →
    c.Runs Eq (Eval.valid value e env) (Eval.valid value' e env')
  | .literal l span, _, _, _ => .pure rfl
  | .function f, _, _, _ => .pure rfl
  | .name id, env, env', h => by
    rw [Eval.valid, Eval.valid, h.get?_eq hm]
    exact .pure rfl
  | .binary op left right, env, env', h => by
    rw [Eval.valid, Eval.valid]
    refine ((operands_runs hv left right h).attempt hm).bind ?_
    rintro _ _ (rfl | d)
    · exact .pure rfl
    · exact .pure rfl
  | .coerce source type, env, env', h => by
    rw [Eval.valid, Eval.valid]
    refine ((hv source h).attempt hm).bind ?_
    intro v v' hsource
    refine ((typeValue_runs hv type h).attempt hm).bind ?_
    intro t t' htarget
    obtain rfl | d := hsource <;> obtain rfl | d' := htarget <;> exact .pure rfl
  | .call callee args paren close, env, env', h => by
    rw [Eval.valid, Eval.valid]
    refine ((hv callee h).attempt hm).bind ?_
    rintro _ _ (⟨rfl⟩ | d)
    · rename_i v
      cases v with
      | function f => exact allValid_runs args h
      | _ => exact .pure rfl
    · exact .pure rfl
  | .block b, env, env', h => by
    rw [Eval.valid, Eval.valid]
    refine ((block_runs hv b h).attempt hm).bind ?_
    rintro _ _ (rfl | d)
    · exact .pure rfl
    · exact .pure rfl

theorem allValid_runs : ∀ (es : List Expr) {env env' : Env}, c.Envs env env' →
    c.Runs Eq (Eval.allValid value es env) (Eval.allValid value' es env')
  | [], _, _, _ => .pure rfl
  | e :: es, env, env', h => by
    rw [Eval.allValid, Eval.allValid]
    refine (valid_runs e h).bind ?_
    rintro ok _ rfl
    cases ok with
    | true => exact allValid_runs es h
    | false => exact .pure rfl

end

mutual

theorem infer_runs : ∀ (e : Expr) {env env' : Env}, c.Envs env env' →
    c.Runs Eq (Eval.infer value e env) (Eval.infer value' e env')
  | .literal l span, _, _, _ => .pure rfl
  | .function f, _, _, _ => .pure rfl
  | .name id, env, env', h => by
    rw [Eval.infer, Eval.infer, h.get?_eq hm]
    exact .pure rfl
  | .binary op left right, env, env', h => by
    rw [Eval.infer, Eval.infer]
    refine ((operands_runs hv left right h).attempt hm).bind ?_
    rintro _ _ (rfl | d)
    · exact .pure rfl
    · exact .pure rfl
  | .coerce source type, env, env', h => by
    rw [Eval.infer, Eval.infer]
    refine ((typeValue_runs hv type h).attempt hm).bind ?_
    rintro _ _ (rfl | d)
    · exact .pure rfl
    · exact .pure rfl
  | .call callee args paren close, env, env', h => by
    rw [Eval.infer, Eval.infer]
    refine ((hv callee h).attempt hm).bind ?_
    rintro _ _ (⟨rfl⟩ | d)
    · rename_i v
      cases v with
      | function f =>
        cases f with
        | native name handle => exact .pure rfl
        | defined f =>
          refine ((typeValue_runs hv f.ret h).attempt hm).bind ?_
          rintro _ _ (rfl | d)
          · exact .pure rfl
          · exact .pure rfl
      | _ => exact .pure rfl
    · exact .pure rfl
  | .block ⟨ss, span⟩, env, env', h => by
    rw [Eval.infer, Eval.infer]
    exact inferLast_runs ss h.enter

theorem inferLast_runs : ∀ (ss : List Statement) {env env' : Env}, c.Nested env env' →
    c.Runs Eq (Eval.inferLast value ss env) (Eval.inferLast value' ss env')
  | [], _, _, _ => .pure rfl
  | [.expr e], env, env', h => by
    rw [Eval.inferLast, Eval.inferLast]
    exact infer_runs e h.toEnvs
  | [.const keyword name e], env, env', h => by
    rw [Eval.inferLast, Eval.inferLast]
    refine (valid_runs hm hv e h.toEnvs).bind ?_
    rintro ok _ rfl
    exact .pure rfl
  | .expr e :: s :: rest, env, env', h => by
    rw [Eval.inferLast, Eval.inferLast]
    · exact inferLast_runs (s :: rest) h
    all_goals simp
  | .const keyword name e :: s :: rest, env, env', h => by
    rw [Eval.inferLast, Eval.inferLast]
    · refine ((statement_runs hv (.const keyword name e) h).attempt hm).bind ?_
      rintro _ _ (⟨⟨-, hinside⟩⟩ | d)
      · exact inferLast_runs (s :: rest) hinside
      · exact .pure rfl
    all_goals simp

end

end Queries

end Comparison

/-- The native functions keep a comparison, given that the calls they make do. -/
def Host.Respects {σ : Type} (host : Host σ) (c : Comparison σ) : Prop :=
  ∀ (handle : Nat) (args : List Argument) {env env' : Env} (paren : Span)
    {caller caller' : Caller σ}, c.Envs env env' → c.Callers caller caller' →
    c.Runs Eq (fun w => (host.invoke handle args env paren w).run caller)
      (fun w => (host.invoke handle args env' paren w).run caller')

namespace Comparison

variable {σ : Type} {c : Comparison σ} {host : Host σ}

/-- One call keeps the comparison if the evaluation of the function and further calls do. -/
theorem invoke_runs (hhost : host.Respects c) {value value' : Evaluator σ}
    (hv : c.Evaluators value value') {caller caller' : Caller σ} (hc : c.Callers caller caller') :
    c.Callers (Eval.invoke host value caller) (Eval.invoke host value' caller') := by
  intro f args env env' paren h
  cases f with
  | defined f => exact (Runs.record _).bind fun _ => callDefined_runs hv f args paren h
  | native name handle => exact (Runs.record _).bind fun _ => hhost handle args paren h hc

/-- Runs to the same depth agree wherever the native functions do. -/
theorem depth_runs (hhost : host.Respects c) (depth : Nat) :
    c.Evaluators (Eval.value host depth) (Eval.value host depth) ∧
      c.Callers (Eval.call host depth) (Eval.call host depth) := by
  induction depth with
  | zero => exact ⟨fun _ _ _ _ => .tooDeep, fun _ _ _ _ _ _ => .tooDeep⟩
  | succ depth ih =>
    obtain ⟨hv, hc⟩ := ih
    exact ⟨step_runs hv hc, invoke_runs hhost hv hc⟩

theorem value_runs (hhost : host.Respects c) (depth : Nat) :
    c.Evaluators (Eval.value host depth) (Eval.value host depth) := (depth_runs hhost depth).1

end Comparison

end ExprLang
