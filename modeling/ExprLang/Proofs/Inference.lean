import ExprLang.Proofs.Depth

/-!
# Types and values

Where an expression has a value, its inferred type is the type of that value, or it is left open
because the value comes from a native function at the tail of the expression
(`Eval.infer_agrees`). A constant in the last place of a block is asked for its validity only, and
an expression that has a value is valid (`Eval.valid_of_value`).

Inference goes over an expression once more, in another world and to another depth, and it skips
statements. Both passes evaluate the same parts to the same values, since the outcomes of native
functions do not depend on the world (`Comparison.lasting`).
-/

namespace ExprLang

variable {σ α : Type}

/-- Every name that has a value stands for a value of its declared type. -/
def Env.WellTyped (env : Env) : Prop :=
  ∀ name slot v, env.get? name = some slot → slot.value? = some v → v.ty = slot.type

theorem Env.WellTyped.enter {env : Env} (h : env.WellTyped) : env.enter.WellTyped := h

namespace Run

theorem ofOption_eq_ok {p : Problem} {span : Span} {o : Option α} {w w' : World σ} {a : α}
    (h : ofOption p span o w = some (.ok a, w')) : o = some a ∧ w = w' := by
  cases o with
  | none => cases h
  | some b => cases h; exact ⟨rfl, rfl⟩

theorem ofExcept_eq_ok {span : Span} {o : Except Problem α} {w w' : World σ} {a : α}
    (h : ofExcept span o w = some (.ok a, w')) : o = .ok a ∧ w = w' := by
  cases o with
  | error p => cases h
  | ok b => cases h; exact ⟨rfl, rfl⟩

end Run

open Comparison

namespace Eval

/-! ## Parts that succeed -/

theorem lookup_eq_ok {id : Ident} {env : Env} {w w' : World σ} {v : Value}
    (h : lookup id env w = some (.ok v, w')) :
    ∃ slot, env.get? id.name = some slot ∧ slot.value? = some v := by
  unfold lookup at h
  cases hslot : env.get? id.name with
  | none => rw [hslot] at h; cases h
  | some slot =>
    rw [hslot] at h
    exact ⟨slot, rfl, (Run.ofOption_eq_ok h).1⟩

theorem declare_eq_ok {name : Ident} {v : Value} {origin : Span} {env env' : Env} {w w' : World σ}
    (h : declare name v origin env w = some (.ok env', w')) :
    env' = env.withInnermost ((name.name, .ofConstant v origin) :: env.innermost) := by
  by_cases hdeclared : env.innermost.contains name.name = true
  · rw [declare_of_contains name v origin env hdeclared] at h
    cases h
  · rw [declare_of_not_contains name v origin env hdeclared] at h
    cases h
    rfl

/-- A constant has the type of its value. -/
theorem wellTyped_of_declare {name : Ident} {v : Value} {origin : Span} {env env' : Env}
    {w w' : World σ} (henv : env.WellTyped)
    (h : declare name v origin env w = some (.ok env', w')) : env'.WellTyped := by
  intro n slot u hslot hu
  rw [declare_eq_ok h, Env.get?_withInnermost_cons] at hslot
  split at hslot
  · cases hslot
    cases hu
    rfl
  · exact henv n slot u hslot hu

theorem wellTyped_of_statement {value : Evaluator σ} {s : Statement} {env env' : Env}
    {w w' : World σ} {v : Value} (henv : env.WellTyped)
    (h : statement value s env w = some (.ok (v, env'), w')) : env'.WellTyped := by
  cases s with
  | expr e =>
    obtain ⟨u, w₁, -, h⟩ := Run.bind_eq_ok h
    cases h
    exact henv
  | const keyword name e =>
    obtain ⟨u, w₁, -, h⟩ := Run.bind_eq_ok h
    obtain ⟨inside, w₂, hdeclare, h⟩ := Run.bind_eq_ok h
    cases h
    exact wellTyped_of_declare henv hdeclare

/-- A function of the program gives a value of the type that its return type comes to. -/
theorem call_defined_eq_ok {host : Host σ} {m : Nat} {f : Lambda} {args : List Argument} {env : Env}
    {paren : Span} {w w' : World σ} {v : Value}
    (h : call host m (.defined f) args env paren w = some (.ok v, w')) :
    ∃ m' w₁ w₂, m = m' + 1 ∧ w₁.sink = w.sink ∧ w₁.host = w.host ∧
      typeValue (value host m') f.ret env w₁ = some (.ok v.ty, w₂) := by
  cases m with
  | zero => cases h
  | succ m =>
    obtain ⟨_, w₁, hrecord, h⟩ := Run.bind_eq_ok h
    cases hrecord
    obtain ⟨ret, w₂, hret, h⟩ := Run.bind_eq_ok h
    obtain ⟨_, w₃, -, h⟩ := Run.bind_eq_ok h
    obtain ⟨scope, w₄, -, h⟩ := Run.bind_eq_ok h
    obtain ⟨result, w₅, -, h⟩ := Run.bind_eq_ok h
    obtain ⟨hcoerce, -⟩ := Run.ofOption_eq_ok h
    rw [Value.ty_of_coerce hcoerce]
    exact ⟨m, { w with events := .calledDefined args.length :: w.events }, w₂, rfl, rfl, rfl, hret⟩

/-! ## Validity of what has a value -/

section Valid

variable {host : Host σ} {calm : Sink → σ → Prop} (hdet : host.Deterministic calm)

include hdet

/-- The arguments of a call are valid if each of them is. -/
theorem allValid_of_arguments {m n : Nat} {env : Env}
    (hvalid : ∀ (e : Expr) {v : Value} {w w₁ w' : World σ}, w.Meets calm → w'.Meets calm →
      value host m e env w = some (.ok v, w₁) →
      ∃ w₁', valid (value host n) e env w' = some (.ok true, w₁') ∧ w₁'.Meets calm)
    (es : List Expr) {as : List Argument} {w w₁ w' : World σ} (hw : w.Meets calm)
    (hw' : w'.Meets calm) (h : arguments (value host m) es env w = some (.ok as, w₁)) :
    ∃ w₁', allValid (value host n) es env w' = some (.ok true, w₁') ∧ w₁'.Meets calm := by
  induction es generalizing as w w₁ w' with
  | nil => exact ⟨w', rfl, hw'⟩
  | cons e es ih =>
    obtain ⟨v, w₂, hv, h⟩ := Run.bind_eq_ok h
    obtain ⟨rest, w₃, hrest, -⟩ := Run.bind_eq_ok h
    obtain ⟨hw₂, -⟩ :=
      (lasting_evaluators hdet (Nat.le_refl m) e (lasting_envs calm env)).of_lasting hw hw hv
    obtain ⟨w₂', he, hw₂'⟩ := hvalid e hw hw' hv
    obtain ⟨w₃', hes, hw₃'⟩ := ih hw₂ hw₂' hrest
    refine ⟨w₃', ?_, hw₃'⟩
    rw [allValid, Run.bind_of_ok he]
    exact hes

/-- An expression that has a value is valid, in every world of the kind. -/
theorem valid_of_value {n : Nat} (m : Nat) (hmn : m ≤ n + 1) (e : Expr) {env : Env} {v : Value}
    {w w₁ w' : World σ} (hw : w.Meets calm) (hw' : w'.Meets calm)
    (h : value host m e env w = some (.ok v, w₁)) :
    ∃ w₁', valid (value host n) e env w' = some (.ok true, w₁') ∧ w₁'.Meets calm := by
  induction m generalizing e env v w w₁ w' with
  | zero => cases h
  | succ m ih =>
    have hparts := lasting_evaluators hdet (Nat.le_of_succ_le_succ hmn)
    have henv := lasting_envs calm env
    cases e with
    | literal l span => exact ⟨w', rfl, hw'⟩
    | function f => exact ⟨w', rfl, hw'⟩
    | name id =>
      obtain ⟨slot, hslot, hv⟩ := lookup_eq_ok h
      refine ⟨w', ?_, hw'⟩
      have hcontent : slot.content.isSome = true := by
        rw [← Option.isSome_map, ← Slot.value?, hv]
        rfl
      rw [valid, hslot, Option.any_some, hcontent]
      rfl
    | binary op left right =>
      obtain ⟨⟨l, r⟩, w₂, hoperands, h⟩ := Run.bind_eq_ok h
      obtain ⟨happly, -⟩ := Run.ofExcept_eq_ok h
      obtain ⟨-, _, w₂', hoperands', rfl, hw₂'⟩ :=
        (operands_runs hparts left right henv).of_lasting hw hw' hoperands
      refine ⟨w₂', ?_, hw₂'⟩
      rw [valid, Run.bind_attempt_of_some hoperands']
      dsimp only
      rw [Operator.check_of_apply happly]
      rfl
    | coerce source type =>
      obtain ⟨u, w₂, hu, h⟩ := Run.bind_eq_ok h
      obtain ⟨target, w₃, htarget, h⟩ := Run.bind_eq_ok h
      obtain ⟨hcoerce, -⟩ := Run.ofOption_eq_ok h
      obtain ⟨hw₂, _, w₂', hu', rfl, hw₂'⟩ := (hparts source henv).of_lasting hw hw' hu
      obtain ⟨-, _, w₃', htarget', rfl, hw₃'⟩ :=
        (typeValue_runs hparts type henv).of_lasting hw₂ hw₂' htarget
      refine ⟨w₃', ?_, hw₃'⟩
      rw [valid, Run.bind_attempt_of_some hu', Run.bind_attempt_of_some htarget']
      dsimp only
      rw [hcoerce]
      rfl
    | call callee args paren close =>
      obtain ⟨u, w₂, hu, h⟩ := Run.bind_eq_ok h
      obtain ⟨f, w₃, hf, h⟩ := Run.bind_eq_ok h
      obtain ⟨hfunction, rfl⟩ := Run.ofOption_eq_ok hf
      obtain ⟨as, w₄, has, -⟩ := Run.bind_eq_ok h
      obtain ⟨hw₂, _, w₂', hu', rfl, hw₂'⟩ := (hparts callee henv).of_lasting hw hw' hu
      have hargs := allValid_of_arguments hdet
        (fun e _ _ _ _ => ih (Nat.le_of_succ_le hmn) e) args hw₂ hw₂' has
      rw [valid, Run.bind_attempt_of_some hu']
      cases u with
      | function f => exact hargs
      | _ => cases hfunction
    | block b =>
      obtain ⟨-, _, w₂', hblock, -, hw₂'⟩ := (block_runs hparts b henv).of_lasting hw hw' h
      refine ⟨w₂', ?_, hw₂'⟩
      rw [valid, Run.bind_attempt_of_some hblock]
      rfl

end Valid

/-! ## Calls of native functions at the tail -/

/-- The environments that statements lead to in a world of a kind. -/
inductive Leads (host : Host σ) (calm : Sink → σ → Prop) : List Statement → Env → Env → Prop
  | nil (env : Env) : Leads host calm [] env env
  | cons {s : Statement} {rest : List Statement} {env env₁ env₂ : Env} {v : Value} {depth : Nat}
      {w w₁ : World σ} (meets : w.Meets calm)
      (first : statement (value host depth) s env w = some (.ok (v, env₁), w₁))
      (others : Leads host calm rest env₁ env₂) : Leads host calm (s :: rest) env env₂

/-- The tail of an expression calls a native function: the expression is such a call, or a block
whose last statement is an expression with such a tail, where the statements before it lead. -/
inductive NativeTail (host : Host σ) (calm : Sink → σ → Prop) : Expr → Env → Prop
  | call {callee : Expr} {args : List Expr} {paren close : Span} {env : Env} {name : String}
      {handle depth : Nat} {w w₁ : World σ} (meets : w.Meets calm)
      (native : value host depth callee env w = some (.ok (.function (.native name handle)), w₁)) :
    NativeTail host calm (.call callee args paren close) env
  | block {leading : List Statement} {e : Expr} {span : Span} {env inside : Env}
      (leads : Leads host calm leading env.enter inside) (tail : NativeTail host calm e inside) :
    NativeTail host calm (.block ⟨leading ++ [.expr e], span⟩) env

/-- The last of some statements is an expression whose tail calls a native function. -/
def NativeEnd (host : Host σ) (calm : Sink → σ → Prop) (ss : List Statement) (env : Env) : Prop :=
  ∃ leading e inside, ss = leading ++ [.expr e] ∧ Leads host calm leading env inside ∧
    NativeTail host calm e inside

theorem NativeEnd.cons {host : Host σ} {calm : Sink → σ → Prop} {s : Statement}
    {rest : List Statement} {env env₁ : Env} {v : Value} {depth : Nat} {w w₁ : World σ}
    (hw : w.Meets calm) (hfirst : statement (value host depth) s env w = some (.ok (v, env₁), w₁))
    (h : NativeEnd host calm rest env₁) : NativeEnd host calm (s :: rest) env := by
  obtain ⟨leading, e, inside, rfl, hleads, htail⟩ := h
  exact ⟨s :: leading, e, inside, rfl, .cons hw hfirst hleads, htail⟩

/-! ## Inference beside evaluation -/

section Infer

variable {host : Host σ} {calm : Sink → σ → Prop} (hdet : host.Deterministic calm)

include hdet

-- Only the constants among the leading statements are run again. The other statements are skipped,
-- which leaves the environment as it is.
theorem inferLast_of_statements {m n : Nat} (hmn : m ≤ n)
    (hinfer : ∀ (e : Expr) {env : Env} {v : Value} {w w₁ w' : World σ}, env.WellTyped →
      w.Meets calm → w'.Meets calm → value host m e env w = some (.ok v, w₁) →
      ∃ t? w₁', infer (value host n) e env w' = some (.ok t?, w₁') ∧
        (t? = some v.ty ∨ t? = none ∧ NativeTail host calm e env))
    (ss : List Statement) {env : Env} {last v : Value} {w w₁ w' : World σ} (henv : env.WellTyped)
    (hnested : env.inner ≠ []) (hlast : ss = [] → last = .void) (hw : w.Meets calm)
    (hw' : w'.Meets calm) (h : statements (value host m) ss last env w = some (.ok v, w₁)) :
    ∃ t? w₁', inferLast (value host n) ss env w' = some (.ok t?, w₁') ∧
      (t? = some v.ty ∨ t? = none ∧ NativeEnd host calm ss env) := by
  have hparts := lasting_evaluators hdet hmn
  induction ss generalizing env last v w w₁ w' with
  | nil =>
    rw [hlast rfl] at h
    cases h
    exact ⟨some .void, w', rfl, .inl rfl⟩
  | cons s rest ih =>
    obtain ⟨⟨u, env₁⟩, w₂, hs, hrest⟩ := Run.bind_eq_ok h
    obtain ⟨hw₂, ⟨u', env₁'⟩, w₂', hs', ⟨-, hsteps⟩, hw₂'⟩ :=
      (statement_runs hparts s ⟨lasting_envs calm env, hnested⟩).of_lasting hw hw' hs
    obtain rfl : env₁ = env₁' := hsteps.toEnvs.eq_of_root id
    have henv₁ := wellTyped_of_statement henv hs
    cases rest with
    | nil =>
      cases hrest
      cases s with
      | expr e =>
        obtain ⟨_, w₃, he, hend⟩ := Run.bind_eq_ok hs
        cases hend
        obtain ⟨t?, w₁', ht, hagree⟩ := hinfer e henv hw hw' he
        refine ⟨t?, w₁', by rw [inferLast]; exact ht, hagree.imp_right ?_⟩
        intro hnone
        exact ⟨hnone.1, [], e, env, rfl, .nil env, hnone.2⟩
      | const keyword name e =>
        obtain ⟨_, w₃, he, hend⟩ := Run.bind_eq_ok hs
        obtain ⟨_, w₄, -, hend⟩ := Run.bind_eq_ok hend
        cases hend
        obtain ⟨w₁', hvalid, -⟩ := valid_of_value hdet m (Nat.le_succ_of_le hmn) e hw hw' he
        refine ⟨some .void, w₁', ?_, .inl rfl⟩
        rw [inferLast, Run.bind_of_ok hvalid]
        rfl
    | cons s' rest =>
      cases s with
      | expr e =>
        obtain ⟨_, w₃, he, hend⟩ := Run.bind_eq_ok hs
        cases hend
        obtain ⟨t?, w₁', ht, hagree⟩ := ih henv hnested nofun hw₂ hw' hrest
        refine ⟨t?, w₁', ?_, hagree.imp_right fun hnone => ⟨hnone.1, .cons hw hs hnone.2⟩⟩
        rw [inferLast]
        · exact ht
        all_goals simp
      | const keyword name e =>
        obtain ⟨t?, w₁', ht, hagree⟩ := ih henv₁ hsteps.isNested nofun hw₂ hw₂' hrest
        refine ⟨t?, w₁', ?_, hagree.imp_right fun hnone => ⟨hnone.1, .cons hw hs hnone.2⟩⟩
        rw [inferLast]
        · rw [Run.bind_attempt_of_some hs']
          exact ht
        all_goals simp

/-- The type of an expression that has a value is inferred, unless its tail calls a native
function. -/
theorem infer_of_value {n : Nat} (m : Nat) (hmn : m ≤ n + 1) (e : Expr) {env : Env} {v : Value}
    {w w₁ w' : World σ} (henv : env.WellTyped) (hw : w.Meets calm) (hw' : w'.Meets calm)
    (h : value host m e env w = some (.ok v, w₁)) :
    ∃ t? w₁', infer (value host n) e env w' = some (.ok t?, w₁') ∧
      (t? = some v.ty ∨ t? = none ∧ NativeTail host calm e env) := by
  induction m generalizing e env v w w₁ w' with
  | zero => cases h
  | succ m ih =>
    have hparts := lasting_evaluators hdet (Nat.le_of_succ_le_succ hmn)
    have hsame := lasting_envs calm env
    cases e with
    | literal l span =>
      cases h
      exact ⟨some l.ty, w', rfl, .inl (by rw [Literal.ty_toValue])⟩
    | function f =>
      cases h
      exact ⟨some .function, w', rfl, .inl rfl⟩
    | name id =>
      obtain ⟨slot, hslot, hv⟩ := lookup_eq_ok h
      refine ⟨some slot.type, w', ?_, .inl (by rw [henv id.name slot v hslot hv])⟩
      rw [infer, hslot]
      rfl
    | binary op left right =>
      obtain ⟨⟨l, r⟩, w₂, hoperands, h⟩ := Run.bind_eq_ok h
      obtain ⟨happly, -⟩ := Run.ofExcept_eq_ok h
      obtain ⟨-, _, w₂', hoperands', rfl, -⟩ :=
        (operands_runs hparts left right hsame).of_lasting hw hw' hoperands
      refine ⟨some v.ty, w₂', ?_, .inl rfl⟩
      rw [infer, Run.bind_attempt_of_some hoperands']
      dsimp only
      rw [Operator.check_of_apply happly]
      rfl
    | coerce source type =>
      obtain ⟨u, w₂, hu, h⟩ := Run.bind_eq_ok h
      obtain ⟨target, w₃, htarget, h⟩ := Run.bind_eq_ok h
      obtain ⟨hcoerce, -⟩ := Run.ofOption_eq_ok h
      obtain ⟨hw₂, -⟩ := (hparts source hsame).of_lasting hw hw' hu
      -- The source is not evaluated again, so the type is evaluated in another world.
      obtain ⟨-, _, w₃', htarget', rfl, -⟩ :=
        (typeValue_runs hparts type hsame).of_lasting hw₂ hw' htarget
      refine ⟨some target, w₃', ?_, .inl (by rw [Value.ty_of_coerce hcoerce])⟩
      rw [infer, Run.bind_attempt_of_some htarget']
      rfl
    | call callee args paren close =>
      obtain ⟨u, w₂, hu, h⟩ := Run.bind_eq_ok h
      obtain ⟨f, w₃, hf, h⟩ := Run.bind_eq_ok h
      obtain ⟨hfunction, rfl⟩ := Run.ofOption_eq_ok hf
      obtain ⟨as, w₄, has, hcall⟩ := Run.bind_eq_ok h
      obtain ⟨hw₂, _, w₂', hu', rfl, hw₂'⟩ := (hparts callee hsame).of_lasting hw hw' hu
      obtain ⟨hw₄, -⟩ := (arguments_runs hparts args hsame).of_lasting hw₂ hw₂' has
      rw [infer, Run.bind_attempt_of_some hu']
      cases u with
      | function g =>
        cases hfunction
        cases f with
        | native name handle =>
          exact ⟨none, w₂', rfl, .inr ⟨rfl, .call hw hu⟩⟩
        | defined f =>
          obtain ⟨m', w₅, w₆, hm, hsink, hhost, hret⟩ := call_defined_eq_ok hcall
          have hw₅ : w₅.Meets calm := by
            rw [World.Meets, hsink, hhost]
            exact hw₄
          have hdeep := lasting_evaluators hdet (show m' ≤ n by omega)
          obtain ⟨-, _, w₆', hret', rfl, -⟩ :=
            (typeValue_runs hdeep f.ret hsame).of_lasting hw₅ hw₂' hret
          refine ⟨some v.ty, w₆', ?_, .inl rfl⟩
          dsimp only
          rw [Run.bind_attempt_of_some hret']
          rfl
      | _ => cases hfunction
    | block b =>
      obtain ⟨ss, span⟩ := b
      obtain ⟨t?, w₁', ht, hagree⟩ := inferLast_of_statements hdet (Nat.le_of_succ_le_succ hmn)
        (fun e _ _ _ _ _ => ih (Nat.le_of_succ_le hmn) e) ss henv.enter
        (List.cons_ne_nil _ _) (fun _ => rfl) hw hw' h
      refine ⟨t?, w₁', by rw [infer]; exact ht, hagree.imp_right ?_⟩
      rintro ⟨hnone, leading, e, inside, rfl, hleads, htail⟩
      exact ⟨hnone, .block hleads htail⟩

/-- Inference agrees with evaluation. If an expression has a value then inference comes to an
outcome, and every outcome of it is the type of the value, or is left open where the tail of the
expression calls a native function. -/
theorem infer_agrees {e : Expr} {env : Env} (henv : env.WellTyped) {depth : Nat} {v : Value}
    {w w₁ w' : World σ} (hw : w.Meets calm) (hw' : w'.Meets calm)
    (h : value host depth e env w = some (.ok v, w₁)) :
    (∃ depth' o w₁', infer (value host depth') e env w' = some (o, w₁')) ∧
      ∀ depth' o w₁', infer (value host depth') e env w' = some (o, w₁') →
        ∃ t?, o = .ok t? ∧ (∀ t, t? = some t → v.ty = t) ∧
          (t? = none → NativeTail host calm e env) := by
  have hagree : ∀ n, depth ≤ n + 1 → ∃ t? w₁',
      infer (value host n) e env w' = some (.ok t?, w₁') ∧
        (t? = some v.ty ∨ t? = none ∧ NativeTail host calm e env) :=
    fun n hn => infer_of_value hdet depth hn e henv hw hw' h
  refine ⟨?_, fun depth' o w₂ hinfer => ?_⟩
  · obtain ⟨t?, w₂, ht, -⟩ := hagree depth (Nat.le_succ depth)
    exact ⟨depth, .ok t?, w₂, ht⟩
  · obtain ⟨t?, w₃, ht, htype⟩ :=
      hagree (max depth depth') (Nat.le_succ_of_le (Nat.le_max_left depth depth'))
    rw [infer_of_le (Nat.le_max_right depth depth') hinfer] at ht
    cases ht
    refine ⟨t?, rfl, ?_, ?_⟩
    · rintro t rfl
      rcases htype with htype | ⟨hnone, -⟩
      · cases htype; rfl
      · cases hnone
    · rintro rfl
      rcases htype with htype | ⟨-, htail⟩
      · cases htype
      · exact htail

end Infer

/-- The block `{ println("a") const T = string T() { "b" }() }` of a call that inference skips, a
constant that it evaluates, and a call of a function whose return type is that constant. -/
def printsThenCalls : Expr :=
  .block ⟨[.expr (.call (.name ⟨"println", ⟨2, 9⟩⟩) [.literal (.string "a") ⟨10, 13⟩]
      ⟨9, 10⟩ ⟨13, 14⟩),
    .const ⟨15, 20⟩ ⟨"T", ⟨21, 22⟩⟩ (.literal (.type .string) ⟨25, 31⟩),
    .expr (.call (.function ⟨0, .name ⟨"T", ⟨32, 33⟩⟩, [],
      ⟨[.expr (.literal (.string "b") ⟨38, 41⟩)], ⟨36, 43⟩⟩⟩) [] ⟨43, 44⟩ ⟨44, 45⟩)], ⟨0, 47⟩⟩

theorem infer_agrees_printsThenCalls :
    (∃ w₁, value Natives.host 4 printsThenCalls (.ofRoot Natives.printRoot)
        ⟨Sink.empty none, [], Natives.initial⟩ = some (.ok (.string "b"), w₁)) ∧
      ∃ t w₁', infer (value Natives.host 3) printsThenCalls (.ofRoot Natives.printRoot)
        ⟨Sink.empty none, [], Natives.initial⟩ = some (.ok (some t), w₁') ∧
          (Value.string "b").ty = t := by
  have hcounts : ∀ n ∈ [Native.println], n.counts = false := by simp [Native.counts]
  have henv : (Env.ofRoot Natives.printRoot).WellTyped := by
    intro name slot v hslot hv
    have hroot : Natives.printRoot.get? name = some slot := by
      rw [← hslot, Env.get?_eq_or]
      rfl
    rw [Natives.printRoot, Scope.get?_cons] at hroot
    split at hroot
    · cases hroot; cases hv; rfl
    · cases hroot
  obtain ⟨w₁, h⟩ : ∃ w₁, value Natives.host 4 printsThenCalls (.ofRoot Natives.printRoot)
      ⟨Sink.empty none, [], Natives.initial⟩ = some (.ok (.string "b"), w₁) := ⟨_, rfl⟩
  obtain ⟨t, w₁', hinfer⟩ : ∃ t w₁', infer (value Natives.host 3) printsThenCalls
      (.ofRoot Natives.printRoot) ⟨Sink.empty none, [], Natives.initial⟩ =
        some (.ok (some t), w₁') := ⟨_, _, rfl⟩
  obtain ⟨_, ht, htype, -⟩ := (infer_agrees (Natives.deterministic hcounts) henv
    ⟨rfl, rfl⟩ ⟨rfl, rfl⟩ h).2 3 _ w₁' hinfer
  cases ht
  exact ⟨⟨w₁, h⟩, t, w₁', hinfer, htype t rfl⟩

end Eval

end ExprLang
