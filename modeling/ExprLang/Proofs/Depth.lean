import ExprLang.Resolve
import ExprLang.Proofs.Comparisons

/-!
# Depth

The depth only bounds evaluation: a run that has an outcome has the same outcome to every greater
depth (`Eval.value_of_le`), and so has a resolution (`Resolve.all_of_le`). So a run *returns* if it
has an outcome to some depth, and what it returns does not depend on which, nor on the world if
native functions are deterministic (`Eval.value_agrees`).

The proof compares the runs to one depth and to the next. What a native function does is the same
in both, up to the calls it asks for.
-/

namespace ExprLang

variable {σ α : Type}

namespace Comparison

/-- The same computation in the same world, where a first run may be outlasted if it has no
outcome. -/
def deeper : Comparison σ where
  root := Eq
  world := Eq
  mends := False
  outlasts := True
  get?_eq_some := (steady fun (_ : Sink) (_ : σ) => True).get?_eq_some
  get?_eq_none := (steady fun (_ : Sink) (_ : σ) => True).get?_eq_none
  record := bindings.record

theorem deeper_refl (x : Run σ α) : deeper.Runs Eq x x := by
  rintro w _ rfl
  match x w with
  | some (.ok a, w') => exact .ok rfl rfl
  | some (.error d, w') => exact .error rfl
  | none => exact .silent

/-- What the first run came to, the second comes to as well. -/
theorem Runs.eq_of_deeper {x y : Run σ α} (h : deeper.Runs Eq x y) {w : World σ}
    {r : Except Diagnostic α × World σ} (hx : x w = some r) : y w = some r := by
  have hxy := h w w rfl
  rw [hx] at hxy
  generalize y w = o at hxy
  cases hxy with
  | ok hr hw => rw [hr, hw]
  | error hw => rw [hw]
  | mended hm => exact hm.elim

theorem deeper_envs (env : Env) : (deeper : Comparison σ).Envs env env := ⟨rfl, rfl⟩

/-- A reply is carried out as far as its calls are. -/
theorem reply_deeper {caller caller' : Caller σ} (hc : deeper.Callers caller caller')
    (reply : Reply σ) : deeper.Outcome Eq (reply.run caller) (reply.run caller') := by
  induction reply with
  | done outcome w =>
    cases outcome with
    | ok v => exact .ok rfl rfl
    | error d => exact .error rfl
  | call f args env paren w resume ih =>
    simp only [Reply.run]
    have h := hc f args paren (deeper_envs env) w w rfl
    generalize caller f args env paren w = o, caller' f args env paren w = o' at h
    cases h with
    | ok hr hw => rw [hr, hw]; exact ih _ _
    | error hw => rw [hw]; exact ih _ _
    | silent => exact .silent
    | mended hm => exact hm.elim
    | outlasted ho => exact .outlasted ho

theorem respects_deeper (host : Host σ) : host.Respects deeper := by
  rintro handle args env env' paren caller caller' henv hc w _ rfl
  rw [henv.eq_of_root id]
  exact reply_deeper hc _

/-- Evaluation to one depth more comes to what it came to before. -/
theorem succ_runs (host : Host σ) (depth : Nat) :
    deeper.Evaluators (Eval.value host depth) (Eval.value host (depth + 1)) ∧
      deeper.Callers (Eval.call host depth) (Eval.call host (depth + 1)) := by
  induction depth with
  | zero =>
    exact ⟨fun _ _ _ _ _ _ _ => .outlasted trivial, fun _ _ _ _ _ _ _ _ _ => .outlasted trivial⟩
  | succ depth ih =>
    obtain ⟨hv, hc⟩ := ih
    exact ⟨step_runs hv hc, invoke_runs (respects_deeper host) hv hc⟩

end Comparison

open Comparison

namespace Eval

/-- An outcome of evaluation stays to every greater depth. -/
theorem value_of_le {host : Host σ} {m n : Nat} (hmn : m ≤ n) {e : Expr} {env : Env} {w : World σ}
    {r : Except Diagnostic Value × World σ} (h : value host m e env w = some r) :
    value host n e env w = some r := by
  induction hmn with
  | refl => exact h
  | step _ ih => exact ((succ_runs host _).1 e (deeper_envs env)).eq_of_deeper ih

/-- An outcome of validity stays to every greater depth. -/
theorem valid_of_le {host : Host σ} {m n : Nat} (hmn : m ≤ n) {e : Expr} {env : Env} {w : World σ}
    {r : Except Diagnostic Bool × World σ}
    (h : Eval.valid (Eval.value host m) e env w = some r) :
    Eval.valid (Eval.value host n) e env w = some r := by
  induction hmn with
  | refl => exact h
  | step _ ih => exact (valid_runs id (succ_runs host _).1 e (deeper_envs env)).eq_of_deeper ih

/-- An outcome of inference stays to every greater depth. -/
theorem infer_of_le {host : Host σ} {m n : Nat} (hmn : m ≤ n) {e : Expr} {env : Env} {w : World σ}
    {r : Except Diagnostic (Option Ty) × World σ}
    (h : Eval.infer (Eval.value host m) e env w = some r) :
    Eval.infer (Eval.value host n) e env w = some r := by
  induction hmn with
  | refl => exact h
  | step _ ih => exact (infer_runs id (succ_runs host _).1 e (deeper_envs env)).eq_of_deeper ih

end Eval

/-! ## Another depth and another world -/

namespace Comparison

/-- As `steady`, where a first run without an outcome may be outlasted. -/
def lasting (calm : Sink → σ → Prop) : Comparison σ := { steady calm with outlasts := True }

theorem lasting_envs (calm : Sink → σ → Prop) (env : Env) : (lasting calm).Envs env env :=
  ⟨rfl, rfl⟩

/-- What evaluation comes to in a world, it comes to in another world of the kind to every greater
depth. -/
theorem lasting_evaluators {host : Host σ} {calm : Sink → σ → Prop}
    (hdet : host.Deterministic calm) {m n : Nat} (hmn : m ≤ n) :
    (lasting calm).Evaluators (Eval.value host m) (Eval.value host n) := by
  intro e env env' henv w w' hw
  cases henv.eq_of_root id
  match hvalue : Eval.value host m e env w with
  | none => exact .outlasted trivial
  | some (o, w₁) =>
    obtain ⟨hw₁, w₂, hvalue', hw₂⟩ :=
      (value_runs hdet m e (steady_envs calm env)).of_steady hw.1 hw.2 hvalue
    rw [Eval.value_of_le hmn hvalue']
    cases o with
    | ok v => exact .ok rfl ⟨hw₁, hw₂⟩
    | error d => exact .error ⟨hw₁, hw₂⟩

/-- A run that succeeds is found again. -/
theorem Runs.of_lasting {calm : Sink → σ → Prop} {same : α → α → Prop} {x y : Run σ α}
    (h : (lasting calm).Runs same x y) {w w₁ w' : World σ} (hw : w.Meets calm)
    (hw' : w'.Meets calm) {a : α} (hx : x w = some (.ok a, w₁)) :
    w₁.Meets calm ∧ ∃ a' w₁', y w' = some (.ok a', w₁') ∧ same a a' ∧ w₁'.Meets calm := by
  have hxy := h w w' ⟨hw, hw'⟩
  rw [hx] at hxy
  generalize y w' = o' at hxy
  cases hxy with
  | ok hr hw => exact ⟨hw.1, _, _, rfl, hr, hw.2⟩

/-- A run that comes to an outcome, a diagnostic or not, is found again. -/
theorem Runs.of_lasting_some {calm : Sink → σ → Prop} {x y : Run σ α}
    (h : (lasting calm).Runs Eq x y) {w w₁ w' : World σ} (hw : w.Meets calm)
    (hw' : w'.Meets calm) {o : Except Diagnostic α} (hx : x w = some (o, w₁)) :
    w₁.Meets calm ∧ ∃ w₁', y w' = some (o, w₁') ∧ w₁'.Meets calm := by
  have hxy := h w w' ⟨hw, hw'⟩
  rw [hx] at hxy
  generalize y w' = o' at hxy
  cases hxy with
  | ok hr hw => subst hr; exact ⟨hw.1, _, rfl, hw.2⟩
  | error hw => exact ⟨hw.1, _, rfl, hw.2⟩
  | mended hm => exact hm.elim

/-- Two runs that come to an outcome come to the same. -/
theorem Runs.eq_of_lasting {calm : Sink → σ → Prop} {x y : Run σ α}
    (h : (lasting calm).Runs Eq x y) {w w₁ w' w₁' : World σ} (hw : w.Meets calm)
    (hw' : w'.Meets calm) {o o' : Except Diagnostic α} (hx : x w = some (o, w₁))
    (hy : y w' = some (o', w₁')) : o = o' ∧ w₁.Meets calm ∧ w₁'.Meets calm := by
  obtain ⟨hw₁, w₂, hsame, hw₂⟩ := h.of_lasting_some hw hw' hx
  rw [hy] at hsame
  cases hsame
  exact ⟨rfl, hw₁, hw₂⟩

end Comparison

/-- In all worlds of a kind, and to all depths that suffice, an expression comes to the same. -/
theorem Eval.value_agrees {host : Host σ} {calm : Sink → σ → Prop} (hdet : host.Deterministic calm)
    {m n : Nat} {e : Expr} {env : Env} {w w₁ w' w₁' : World σ} {o o' : Except Diagnostic Value}
    (hw : w.Meets calm) (hw' : w'.Meets calm) (h : Eval.value host m e env w = some (o, w₁))
    (h' : Eval.value host n e env w' = some (o', w₁')) : o = o' := by
  have hn := Eval.value_of_le (Nat.le_max_right m n) h'
  have hruns := lasting_evaluators hdet (Nat.le_max_left m n) e (lasting_envs calm env)
  exact (hruns.eq_of_lasting hw hw' h hn).1

namespace Resolve

variable {value value' : Evaluator σ} (hv : deeper.Evaluators value value')

include hv

theorem pass_deeper (number : Nat) (items : List Item) (env : Env) :
    deeper.Runs Eq (pass value number items env) (pass value' number items env) := by
  induction items generalizing env with
  | nil => exact .pure rfl
  | cons i rest ih =>
    refine ((hv i.value (deeper_envs env)).attempt id).bind ?_
    rintro _ _ (rfl | d)
    · refine (deeper_refl _).bind ?_
      rintro env _ rfl
      exact ih env
    · refine (Runs.record _).bind fun _ => (ih env).bind ?_
      rintro ⟨left, env⟩ _ rfl
      exact .pure rfl

theorem force_deeper (items : List Item) (env : Env) :
    deeper.Runs Eq (force value items env) (force value' items env) := by
  cases items with
  | nil => exact .pure rfl
  | cons i rest =>
    have hitem : deeper.Runs Eq (item value i env) (item value' i env) := by
      refine (hv i.value (deeper_envs env)).bind ?_
      rintro v _ rfl
      exact deeper_refl _
    refine hitem.bind ?_
    rintro env _ rfl
    exact .pure rfl

theorem round_deeper (number : Nat) (pending : List Item) (env : Env) :
    deeper.Runs Eq (round value number pending env) (round value' number pending env) := by
  refine (pass_deeper hv number pending env).bind ?_
  rintro ⟨left, env⟩ _ rfl
  refine (Runs.record _).bind fun _ => ?_
  by_cases h : left.length = pending.length
  · rw [if_pos h, if_pos h]
    exact force_deeper hv left env
  · rw [if_neg h, if_neg h]
    exact .pure rfl

theorem rounds_deeper (bound number : Nat) (pending : List Item) (env : Env) :
    deeper.Runs Eq (rounds value bound number pending env)
      (rounds value' bound number pending env) := by
  induction bound generalizing number pending env with
  | zero => cases pending <;> exact .pure rfl
  | succ bound ih =>
    cases pending with
    | nil => exact .pure rfl
    | cons i rest =>
      refine (round_deeper hv number (i :: rest) env).bind ?_
      rintro ⟨left, env⟩ _ rfl
      exact ih (number + 1) left env

omit hv in
/-- An outcome of a resolution stays to every greater depth. -/
theorem all_of_le {host : Host σ} {m n : Nat} (hmn : m ≤ n) {items : List Item} {env : Env}
    {w : World σ} {r : Except Diagnostic Env × World σ}
    (h : all (Eval.value host m) items env w = some r) :
    all (Eval.value host n) items env w = some r := by
  induction hmn with
  | refl => exact h
  | step _ ih => exact (rounds_deeper (succ_runs host _).1 _ 1 items env).eq_of_deeper ih

end Resolve

end ExprLang
