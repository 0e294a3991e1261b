import ExprLang.Session
import ExprLang.Proofs.Comparisons
import ExprLang.Proofs.Placement

/-!
# Where the diagnostics of a run lie

Evaluation takes its spans from the program: from the expression at hand, from the arguments of a
call, from the functions that values hold and from the origins that the environment keeps. Let `P`
be a set of spans that is closed under merging. A run that starts from placed things ends with a
placed result, or with a diagnostic at a span of `P` (`Run.Keeps`). This holds of evaluation to
every depth (`Eval.depth_keeps`) as far as the native functions keep it (`Host.Keeps`), and from
there of resolution and of sessions.
-/

namespace ExprLang

variable {σ α β : Type}

/-! ## Placed values and environments -/

section Placed

variable (P : Span → Prop)

/-- The spans of a function that a value holds. -/
def Function.Placed : Function → Prop
  | .defined f => f.Placed P
  | .native _ _ => True

/-- Only functions of the program hold spans. -/
def Value.Placed : Value → Prop
  | .function f => f.Placed P
  | _ => True

/-- The spans of an argument: those of its value, and its own. -/
structure Argument.Placed (a : Argument) : Prop where
  value : a.value.Placed P
  span : P a.span

/-- A slot that is filled holds a placed value and a place where it was declared. -/
def Slot.Placed (s : Slot) : Prop :=
  ∀ v origin, s.content = some (v, origin) → v.Placed P ∧ P origin

/-- Whatever a name stands for in a scope is placed. -/
def Scope.Placed (scope : Scope) : Prop := ∀ name slot, scope.get? name = some slot → slot.Placed P

/-- All scopes of an environment are placed. -/
structure Env.Placed (env : Env) : Prop where
  inner : ∀ scope ∈ env.inner, scope.Placed P
  root : env.root.Placed P

variable {P}

/-- A value that is no function holds no spans. -/
theorem Value.placed_of_ty {v : Value} (h : v.ty ≠ .function) : v.Placed P := by
  cases v with
  | function f => exact absurd rfl h
  | _ => trivial

theorem Literal.placed_toValue (l : Literal) : l.toValue.Placed P := by
  apply Value.placed_of_ty
  rw [Literal.ty_toValue]
  cases l with
  | number n =>
    obtain ⟨x, suffix⟩ := n
    cases suffix with
    | none => simp [Literal.ty, WrittenNumber.ty]
    | some s => cases s <;> simp [Literal.ty, WrittenNumber.ty]
  | _ => simp [Literal.ty]

/-- A coerced value is the value itself, or no function. -/
theorem Value.Placed.coerce {v v' : Value} {t : Ty} (hv : v.Placed P)
    (h : v.coerce t = some v') : v'.Placed P := by
  unfold Value.coerce at h
  split at h
  · cases h; trivial
  split at h
  · cases h; exact hv
  split at h
  · apply Value.placed_of_ty
    rw [Value.ty_of_convert? h]
    rintro rfl
    cases h
  · cases h

/-- An operator gives no function. -/
theorem Operator.placed_of_apply {op : Operator} {l r v : Value} (h : op.apply l r = .ok v) :
    v.Placed P := by
  apply Value.placed_of_ty
  intro hty
  have hcheck := op.check_of_apply h
  have hleft := op.eq_ty_of_check hcheck
  rw [hty] at hleft
  unfold Operator.check at hcheck
  split at hcheck
  · cases hcheck
  split at hcheck
  · rename_i htakes
    rw [← hleft] at htakes
    cases op <;> cases htakes
  · cases hcheck

theorem Slot.placed_ofConstant {v : Value} {origin : Span} (hv : v.Placed P) (h : P origin) :
    (Slot.ofConstant v origin).Placed P := by
  intro u o hcontent
  cases hcontent
  exact ⟨hv, h⟩

theorem Scope.placed_nil : Scope.Placed P [] := fun _ _ h => nomatch h

/-- A name added to a scope hides the others of that name. -/
theorem Scope.Placed.cons {scope : Scope} (h : scope.Placed P) {slot : Slot} (hslot : slot.Placed P)
    (name : String) : Scope.Placed P ((name, slot) :: scope) := by
  intro n s hs
  rw [Scope.get?_cons] at hs
  split at hs
  · cases hs; exact hslot
  · exact h n s hs

namespace Env.Placed

theorem enter {env : Env} (h : env.Placed P) : env.enter.Placed P := by
  refine ⟨fun scope hscope => ?_, h.root⟩
  rcases List.mem_cons.1 hscope with rfl | hscope
  · exact Scope.placed_nil
  · exact h.inner scope hscope

theorem atRoot {env : Env} (h : env.Placed P) : env.atRoot.Placed P := ⟨nofun, h.root⟩

theorem get? {env : Env} (h : env.Placed P) {name : String} {slot : Slot}
    (hslot : env.get? name = some slot) : slot.Placed P := by
  obtain ⟨scope, hscope, hget⟩ := exists_of_find? hslot
  rcases List.mem_append.1 hscope with hinner | hroot
  · exact h.inner scope hinner name slot hget
  · obtain rfl := List.mem_singleton.1 hroot
    exact h.root name slot hget

/-- A placed slot can be added to the innermost scope, wherever that is. -/
theorem withInnermost {env : Env} (h : env.Placed P) {slot : Slot} (hslot : slot.Placed P)
    (name : String) : (env.withInnermost ((name, slot) :: env.innermost)).Placed P := by
  obtain ⟨inner, root⟩ := env
  cases inner with
  | nil => exact ⟨nofun, h.root.cons hslot name⟩
  | cons scope outer =>
    refine ⟨fun s hs => ?_, h.root⟩
    rcases List.mem_cons.1 hs with rfl | hs
    · exact (h.inner scope List.mem_cons_self).cons hslot name
    · exact h.inner s (List.mem_cons_of_mem _ hs)

end Env.Placed

end Placed

/-! ## Runs -/

namespace Run

variable (P : Span → Prop) (calm : σ → Prop)

/-- A result that is as it should be, a diagnostic at a span of the set, or no outcome. The state of
the host stays of its kind. -/
inductive Outcome (good : α → Prop) : Option (Except Diagnostic α × World σ) → Prop
  | ok {a : α} {w : World σ} (h : good a) (hw : calm w.host) : Outcome good (some (.ok a, w))
  | error {d : Diagnostic} {w : World σ} (h : P d.span) (hw : calm w.host) :
    Outcome good (some (.error d, w))
  | silent : Outcome good none

/-- In every world of the kind a run ends well. -/
def Keeps (good : α → Prop) (x : Run σ α) : Prop :=
  ∀ w : World σ, calm w.host → Outcome P calm good (x w)

variable {P calm} {good : α → Prop} {good' : β → Prop}

namespace Keeps

theorem pure {a : α} (h : good a) : Keeps P calm good (pure a) := fun _ hw => .ok h hw

theorem fail (p : Problem) {span : Span} (h : P span) : Keeps P calm good (Run.fail p span) :=
  fun _ hw => .error h hw

theorem record (e : Event) : Keeps P calm (fun _ => True) (Run.record e) :=
  fun _ hw => .ok trivial hw

/-- A missing result is reported at a span of the set. -/
theorem ofOption (p : Problem) {span : Span} (h : P span) {o : Option α}
    (ho : ∀ a, o = some a → good a) : Keeps P calm good (Run.ofOption p span o) := by
  cases o with
  | none => exact .fail p h
  | some a => exact .pure (ho a rfl)

theorem ofExcept {span : Span} (h : P span) {o : Except Problem α} (ho : ∀ a, o = .ok a → good a) :
    Keeps P calm good (Run.ofExcept span o) := by
  cases o with
  | error p => exact .fail p h
  | ok a => exact .pure (ho a rfl)

/-- A run and what follows it end well if each does, without an outcome of the first as well. -/
theorem bind {x : Run σ α} {f : α → Run σ β} (hx : Keeps P calm good x)
    (hf : ∀ a, good a → Keeps P calm good' (f a)) : Keeps P calm good' (x >>= f) := by
  intro w hw
  have h := hx w hw
  generalize hresult : x w = result at h
  cases h with
  | ok ha hw' => rw [bind_of_ok hresult]; exact hf _ ha _ hw'
  | error hd hw' => rw [bind_of_error hresult]; exact .error hd hw'
  | silent => rw [bind_of_none hresult]; exact .silent

/-- An attempt does not fail, and keeps what there is to say of the result. -/
theorem attempt {x : Run σ α} (hx : Keeps P calm good x) :
    Keeps P calm (fun o => ∀ a, o = .ok a → good a) x.attempt := by
  intro w hw
  have h := hx w hw
  unfold Run.attempt
  generalize x w = result at h
  cases h with
  | ok ha hw' =>
    refine .ok (fun a h => ?_) hw'
    cases h
    exact ha
  | error hd hw' => exact .ok nofun hw'
  | silent => exact .silent

end Keeps

end Run

/-! ## Evaluation -/

section Evaluation

variable (P : Span → Prop) (calm : σ → Prop)

/-- Beside placed environments, placed expressions evaluate well. -/
def Evaluator.Keeps (value : Evaluator σ) : Prop :=
  ∀ {e : Expr} {env : Env}, e.Placed P → env.Placed P →
    Run.Keeps P calm (Value.Placed P) (value e env)

/-- Placed functions are called well with placed arguments. -/
def Caller.Keeps (caller : Caller σ) : Prop :=
  ∀ {f : Function} {args : List Argument} {env : Env} {paren : Span}, f.Placed P →
    (∀ a ∈ args, a.Placed P) → env.Placed P → P paren →
    Run.Keeps P calm (Value.Placed P) (caller f args env paren)

/-- Native functions give placed results and diagnostics, given that the calls they make do. -/
def Host.Keeps (host : Host σ) : Prop :=
  ∀ {caller : Caller σ} (handle : Nat) {args : List Argument} {env : Env} {paren : Span},
    Caller.Keeps P calm caller → (∀ a ∈ args, a.Placed P) → env.Placed P → P paren →
    Run.Keeps P calm (Value.Placed P) fun w => (host.invoke handle args env paren w).run caller

end Evaluation

namespace Eval

variable {P : Span → Prop} {calm : σ → Prop} {env : Env}

/-- A name that is not declared or not set is reported where it stands. -/
theorem lookup_keeps {id : Ident} (hid : P id.span) (henv : env.Placed P) :
    Run.Keeps P calm (Value.Placed P) (lookup id env) := by
  unfold lookup
  split
  · exact .fail _ hid
  · rename_i slot hslot
    refine .ofOption _ hid fun v hv => ?_
    obtain ⟨⟨u, origin⟩, hcontent, rfl⟩ := Option.map_eq_some_iff.1 hv
    exact (henv.get? hslot u origin hcontent).1

/-- A name that is declared already is reported where it stands. -/
theorem declare_keeps {name : Ident} (hname : P name.span) {v : Value} (hv : v.Placed P)
    {origin : Span} (horigin : P origin) (henv : env.Placed P) :
    Run.Keeps P calm (Env.Placed P) (declare name v origin env) := by
  by_cases h : env.innermost.contains name.name = true
  · rw [declare_of_contains name v origin env h]
    exact .fail _ hname
  · rw [declare_of_not_contains name v origin env h]
    exact .pure (henv.withInnermost (Slot.placed_ofConstant hv horigin) name.name)

section Parts

variable (hmerge : ∀ {a b : Span}, P a → P b → P (a.merge b)) {value : Evaluator σ}
  (hvalue : value.Keeps P calm)

include hvalue

theorem operands_keeps {left right : Expr} (hleft : left.Placed P) (hright : right.Placed P)
    (henv : env.Placed P) :
    Run.Keeps P calm (fun _ => True) (operands value left right env) :=
  (hvalue hleft henv).bind fun _ _ => (hvalue hright henv).bind fun _ _ => .pure trivial

include hmerge

/-- An expression that gives no type is reported at its span. -/
theorem typeValue_keeps {e : Expr} (he : e.Placed P) (henv : env.Placed P) :
    Run.Keeps P calm (fun _ => True) (typeValue value e env) :=
  (hvalue he henv).bind fun _ _ => .ofOption _ (he.span hmerge) fun _ _ => trivial

/-- Arguments stand where their expressions do. -/
theorem arguments_keeps {es : List Expr} (hes : ∀ e ∈ es, e.Placed P) (henv : env.Placed P) :
    Run.Keeps P calm (fun as => ∀ a ∈ as, Argument.Placed P a) (arguments value es env) := by
  induction es with
  | nil => exact .pure (List.forall_mem_nil _)
  | cons e es ih =>
    have he := hes e List.mem_cons_self
    have hrest := ih fun e he => hes e (List.mem_cons_of_mem _ he)
    refine (hvalue he henv).bind fun v hv => hrest.bind fun rest hrest => .pure ?_
    intro a ha
    rcases List.mem_cons.1 ha with rfl | ha
    · exact ⟨hv, he.span hmerge⟩
    · exact hrest a ha

/-- Statements are placed beside an environment that grows with them. -/
theorem statements_keeps {ss : List Statement} (hss : ∀ s ∈ ss, s.Placed P) {last : Value}
    (hlast : last.Placed P) (henv : env.Placed P) :
    Run.Keeps P calm (Value.Placed P) (statements value ss last env) := by
  induction ss generalizing last env with
  | nil => exact .pure hlast
  | cons s rest ih =>
    have hs := hss s List.mem_cons_self
    have hstatement : Run.Keeps P calm (fun r => r.1.Placed P ∧ r.2.Placed P)
        (statement value s env) := by
      cases hs with
      | expr he => exact (hvalue he henv).bind fun v hv => .pure ⟨hv, henv⟩
      | const _ hname he =>
        refine (hvalue he henv).bind fun v hv => ?_
        exact (declare_keeps hname hv (he.span hmerge) henv).bind fun env henv =>
          .pure ⟨trivial, henv⟩
    refine hstatement.bind ?_
    rintro ⟨v, env'⟩ ⟨hv, henv'⟩
    exact ih (fun s hs => hss s (List.mem_cons_of_mem _ hs)) hv henv'

theorem block_keeps {b : Block} (hb : b.Placed P) (henv : env.Placed P) :
    Run.Keeps P calm (Value.Placed P) (block value b env) := by
  obtain ⟨hstatements, -⟩ := hb
  exact statements_keeps hmerge hvalue hstatements trivial henv.enter

/-- An argument that does not fit its parameter is reported at the argument. -/
theorem bindParams_keeps {ps : List (Param × Argument)}
    (hps : ∀ pa ∈ ps, pa.1.Placed P ∧ pa.2.Placed P) (henv : env.Placed P) :
    Run.Keeps P calm (Env.Placed P) (bindParams value ps env) := by
  induction ps generalizing env with
  | nil => exact .pure henv
  | cons pa rest ih =>
    obtain ⟨p, a⟩ := pa
    obtain ⟨⟨hname, htype⟩, ha⟩ := hps (p, a) List.mem_cons_self
    refine Run.Keeps.bind ?_ fun env henv => ih (fun q hq => hps q (List.mem_cons_of_mem _ hq)) henv
    refine (typeValue_keeps hmerge hvalue htype henv).bind fun t _ => ?_
    refine (Run.Keeps.ofOption _ ha.span fun v hv => ha.value.coerce hv).bind fun v hv => ?_
    exact declare_keeps hname hv ha.span henv

omit hmerge hvalue in
/-- A missing argument is reported at the parenthesis, and one too many at itself. -/
theorem checkCount_keeps (params : List Param) {args : List Argument}
    (hargs : ∀ a ∈ args, a.Placed P) {paren : Span} (hparen : P paren) :
    Run.Keeps P calm (fun _ => True) (checkCount params args paren) := by
  unfold checkCount
  split
  · exact .fail _ hparen
  · split
    · rename_i a ha
      exact .fail _ (hargs a (List.mem_of_getElem? ha)).span
    · exact .pure trivial

/-- The body of a function runs beside the root and its parameters. Its result is coerced, or
reported where the result of the body comes from. -/
theorem callDefined_keeps {f : Lambda} (hf : f.Placed P) {args : List Argument}
    (hargs : ∀ a ∈ args, a.Placed P) (henv : env.Placed P) {paren : Span} (hparen : P paren) :
    Run.Keeps P calm (Value.Placed P) (callDefined value f args env paren) := by
  obtain ⟨hret, hparams, hbody⟩ := hf
  refine (typeValue_keeps hmerge hvalue hret henv).bind fun t _ => ?_
  refine (checkCount_keeps _ hargs hparen).bind fun _ _ => ?_
  refine (bindParams_keeps hmerge hvalue (fun pa hpa => ?_) henv.atRoot.enter).bind
    fun scope hscope => ?_
  · obtain ⟨hp, ha⟩ := List.of_mem_zip hpa
    exact ⟨hparams _ hp, hargs _ ha⟩
  refine (block_keeps hmerge hvalue hbody hscope).bind fun result hresult => ?_
  exact .ofOption _ (hbody.resultSpan hmerge) fun v hv => hresult.coerce hv

variable {caller : Caller σ} (hcaller : Caller.Keeps P calm caller)

include hcaller

/-- One level of evaluation, by the kind of expression. -/
theorem step_keeps : Evaluator.Keeps P calm (step value caller) := by
  intro e env he henv
  have hspan := he.span hmerge
  cases he with
  | literal h => exact .pure (Literal.placed_toValue _)
  | function h => exact .pure h
  | name h => exact lookup_keeps h henv
  | binary hleft hright =>
    refine (operands_keeps hvalue hleft hright henv).bind fun operands _ => ?_
    exact .ofExcept hspan fun v hv => Operator.placed_of_apply hv
  | coerce hsource htype =>
    refine (hvalue hsource henv).bind fun v hv => ?_
    refine (typeValue_keeps hmerge hvalue htype henv).bind fun t _ => ?_
    exact .ofOption _ hspan fun u hu => hv.coerce hu
  | call hcallee hargs hparen _ =>
    refine (hvalue hcallee henv).bind fun v hv => ?_
    have hfunction : ∀ f, v.toFunction? = some f → f.Placed P := by
      intro f hf
      cases v with
      | function g => cases hf; exact hv
      | _ => cases hf
    refine (Run.Keeps.ofOption _ hspan hfunction).bind fun f hf => ?_
    refine (arguments_keeps hmerge hvalue hargs henv).bind fun as has => ?_
    exact hcaller hf has henv hparen
  | block hb => exact block_keeps hmerge hvalue hb henv

/-- One level of calls. Native functions are called with arguments that are placed. -/
theorem invoke_keeps {host : Host σ} (hhost : host.Keeps P calm) :
    Caller.Keeps P calm (invoke host value caller) := by
  intro f args env paren hf hargs henv hparen
  cases f with
  | defined f =>
    exact (Run.Keeps.record _).bind fun _ _ => callDefined_keeps hmerge hvalue hf hargs henv hparen
  | native name handle =>
    exact (Run.Keeps.record _).bind fun _ _ => hhost handle hcaller hargs henv hparen

end Parts

/-- Evaluation and calls to every depth, by induction on it. -/
theorem depth_keeps (hmerge : ∀ {a b : Span}, P a → P b → P (a.merge b)) {host : Host σ}
    (hhost : host.Keeps P calm) (depth : Nat) :
    Evaluator.Keeps P calm (value host depth) ∧ Caller.Keeps P calm (call host depth) := by
  induction depth with
  | zero => exact ⟨fun _ _ _ _ => .silent, fun _ _ _ _ _ _ => .silent⟩
  | succ depth ih =>
    obtain ⟨hvalue, hcaller⟩ := ih
    exact ⟨step_keeps hmerge hvalue hcaller, invoke_keeps hmerge hvalue hcaller hhost⟩

end Eval

/-! ## Resolution -/

namespace Resolve

variable {P : Span → Prop} {calm : σ → Prop}
  (hmerge : ∀ {a b : Span}, P a → P b → P (a.merge b)) {value : Evaluator σ}
  (hvalue : value.Keeps P calm)

include hmerge hvalue

/-- A pass declares placed constants and sets placed items aside. -/
theorem pass_keeps (number : Nat) {items : List Item} (hitems : ∀ i ∈ items, i.Placed P) {env : Env}
    (henv : env.Placed P) :
    Run.Keeps P calm (fun r => (∀ i ∈ r.1, i.Placed P) ∧ r.2.Placed P)
      (pass value number items env) := by
  induction items generalizing env with
  | nil => exact .pure ⟨nofun, henv⟩
  | cons i rest ih =>
    have hi := hitems i List.mem_cons_self
    have hrest := fun j hj => hitems j (List.mem_cons_of_mem i hj)
    refine (hvalue hi.value henv).attempt.bind fun o ho => ?_
    cases o with
    | ok v =>
      have hdeclare : Run.Keeps P calm (Env.Placed P) (Eval.declare i.name v i.value.span env) :=
        Eval.declare_keeps hi.name (ho v rfl) (hi.value.span hmerge) henv
      exact hdeclare.bind fun env henv => ih hrest henv
    | error d =>
      refine (Run.Keeps.record _).bind fun _ _ => (ih hrest henv).bind ?_
      rintro ⟨left, env⟩ ⟨hleft, henv⟩
      refine .pure ⟨fun j hj => ?_, henv⟩
      rcases List.mem_cons.1 hj with rfl | hj
      · exact hi
      · exact hleft j hj

/-- So does a pass with what it forces if it got nowhere. -/
theorem round_keeps (number : Nat) {items : List Item} (hitems : ∀ i ∈ items, i.Placed P)
    {env : Env} (henv : env.Placed P) :
    Run.Keeps P calm (fun r => (∀ i ∈ r.1, i.Placed P) ∧ r.2.Placed P)
      (round value number items env) := by
  refine (pass_keeps hmerge hvalue number hitems henv).bind ?_
  rintro ⟨left, env⟩ ⟨hleft, henv⟩
  refine (Run.Keeps.record _).bind fun _ _ => ?_
  split
  · cases left with
    | nil => exact .pure ⟨hleft, henv⟩
    | cons i rest =>
      have hi := hleft i List.mem_cons_self
      have hrest := fun j hj => hleft j (List.mem_cons_of_mem i hj)
      have hitem : Run.Keeps P calm (Env.Placed P) (item value i env) :=
        (hvalue hi.value henv).bind fun v hv =>
          Eval.declare_keeps hi.name hv (hi.value.span hmerge) henv
      exact hitem.bind fun env henv => .pure ⟨hrest, henv⟩
  · exact .pure ⟨hleft, henv⟩

/-- Passes keep the environment placed, however many there are. -/
theorem all_keeps {items : List Item} (hitems : ∀ i ∈ items, i.Placed P) {env : Env}
    (henv : env.Placed P) : Run.Keeps P calm (Env.Placed P) (all value items env) := by
  have hrounds : ∀ (bound number : Nat) (pending : List Item) (env : Env),
      (∀ i ∈ pending, i.Placed P) → env.Placed P →
      Run.Keeps P calm (Env.Placed P) (rounds value bound number pending env) := by
    intro bound
    induction bound with
    | zero =>
      intro number pending env _ henv
      cases pending <;> exact .pure henv
    | succ bound ih =>
      intro number pending env hpending henv
      cases pending with
      | nil => exact .pure henv
      | cons i rest =>
        refine (round_keeps hmerge hvalue number hpending henv).bind ?_
        rintro ⟨left, env⟩ ⟨hleft, henv⟩
        exact ih _ left env hleft henv
  exact hrounds _ 1 items env hitems henv

end Resolve

/-! ## Sessions -/

namespace Session

variable {P : Span → Prop} {calm : σ → Prop} (horigin : P Span.origin)

include horigin

/-- Native functions hold no spans, and they are declared at the origin. -/
theorem bindNatives_keeps (natives : List NativeRef) {env : Env} (henv : env.Placed P) :
    Run.Keeps P calm (Env.Placed P) (bindNatives natives env) := by
  induction natives generalizing env with
  | nil => exact .pure henv
  | cons n rest ih =>
    refine (Run.Keeps.record _).bind fun _ _ => ?_
    have hbind : Run.Keeps P calm (Env.Placed P) (bindNative n env) :=
      Eval.declare_keeps (v := .function (.native n.name n.handle)) horigin trivial horigin henv
    exact hbind.bind fun env henv => ih henv

/-- A session whose items are placed, and the diagnostic of one that could not be built. -/
theorem build_keeps (hmerge : ∀ {a b : Span}, P a → P b → P (a.merge b)) {value : Evaluator σ}
    (hvalue : value.Keeps P calm) (document : Document) (style : Style) (natives : List NativeRef)
    (hitems : ∀ items, Item.ofText 0 document.text = .ok items → ∀ i ∈ items, i.Placed P)
    (hproblem : ∀ d, Item.ofText 0 document.text = .error d → P d.span) :
    Run.Keeps P calm (fun s => s.root.Placed P) (build value document style natives) := by
  have hread : Run.Keeps P calm (fun items => ∀ i ∈ items, Item.Placed P i)
      (Parse.read (σ := σ) 0 document.text) := by
    have hrecord : ∀ es, Run.Keeps P calm (fun _ => True) (Run.recordAll (σ := σ) es) :=
      fun es w hw => .ok trivial hw
    refine (hrecord _).bind fun _ _ w hw => ?_
    cases hprogram : (Parse.ofText 0 document.text).program with
    | ok items => exact .ok (hitems items hprogram) hw
    | error d => exact .error (hproblem d hprogram) hw
  refine hread.bind fun items hplaced => ?_
  have hempty : Env.empty.Placed P := ⟨List.forall_mem_nil _, Scope.placed_nil⟩
  refine (bindNatives_keeps horigin _ hempty).bind fun env henv => ?_
  exact (Resolve.all_keeps hmerge hvalue hplaced henv).bind fun env henv => .pure henv.root

/-- A name of the root was declared at a span of the set. One that was not set counts as declared at
the origin. -/
theorem origin_placed {root : Scope} (hroot : root.Placed P) {name : String} {slot : Slot}
    (h : root.get? name = some slot) : P (slot.origin?.getD Span.origin) := by
  unfold Slot.origin?
  cases hcontent : slot.content with
  | none => exact horigin
  | some content =>
    obtain ⟨v, origin⟩ := content
    exact (hroot name slot h v origin hcontent).2

variable {caller : Caller σ} (hcaller : Caller.Keeps P calm caller) {s : Session}
  (hroot : s.root.Placed P)

include hcaller hroot

omit horigin in
/-- A function that was found is called without arguments. -/
theorem start_keeps {f : Except Diagnostic (Function × Span)}
    (hok : ∀ r, f = .ok r → r.1.Placed P ∧ P r.2) (herror : ∀ d, f = .error d → P d.span) :
    Run.Keeps P calm (Value.Placed P) (start caller s f) := by
  cases f with
  | ok r =>
    obtain ⟨hf, horigin⟩ := hok r rfl
    exact hcaller hf (List.forall_mem_nil _) ⟨List.forall_mem_nil _, hroot⟩ horigin
  | error d => exact fun w hw => .error (herror d rfl) hw

/-- What is wrong with `main` is reported where it was declared, or at the origin. -/
theorem callMain_keeps : Run.Keeps P calm (Value.Placed P) (callMain caller s) := by
  have hslot : ∀ slot, s.root.get? "main" = some slot → P (slot.origin?.getD Span.origin) :=
    fun slot h => origin_placed horigin hroot h
  refine start_keeps hcaller hroot (fun r hr => ?_) fun d hd => ?_
  · unfold main? at hr
    split at hr
    · cases hr
    · rename_i slot hget
      dsimp only at hr
      split at hr
      · rename_i f hvalue
        split at hr
        · cases hr
          obtain ⟨⟨v, origin⟩, hcontent, hv⟩ := Option.map_eq_some_iff.1 hvalue
          cases hv
          exact ⟨(hroot _ _ hget _ origin hcontent).1, hslot slot hget⟩
        · cases hr
      · cases hr
  · unfold main? at hd
    split at hd
    · cases hd; exact horigin
    · rename_i slot hget
      dsimp only at hd
      split at hd
      · split at hd
        · cases hd
        · cases hd; exact hslot slot hget
      · cases hd; exact hslot slot hget

/-- So is what is wrong with another function that is called by its name. -/
theorem callFunction_keeps (name : String) :
    Run.Keeps P calm (Value.Placed P) (callFunction caller s name) := by
  have hslot : ∀ slot, s.root.get? name = some slot → P (slot.origin?.getD Span.origin) :=
    fun slot h => origin_placed horigin hroot h
  refine start_keeps hcaller hroot (fun r hr => ?_) fun d hd => ?_
  · unfold function? at hr
    split at hr
    · cases hr
    · rename_i slot hget
      dsimp only at hr
      split at hr
      · cases hr
      · rename_i f hvalue
        cases hr
        obtain ⟨⟨v, origin⟩, hcontent, hv⟩ := Option.map_eq_some_iff.1 hvalue
        cases hv
        exact ⟨(hroot _ _ hget _ origin hcontent).1, hslot slot hget⟩
      · cases hr
  · unfold function? at hd
    split at hd
    · cases hd; exact horigin
    · rename_i slot hget
      dsimp only at hd
      split at hd
      · cases hd; exact hslot slot hget
      · cases hd
      · cases hd; exact hslot slot hget

end Session

/-! ## Printing -/

/-- A table of `println` alone, however often it was called. -/
def Natives.OnlyPrints (table : Natives) : Prop := table.map Prod.fst = [.println]

theorem Natives.OnlyPrints.eq_println {table : Natives} (h : table.OnlyPrints) {handle calls : Nat}
    {native : Native} (hentry : table[handle]? = some (native, calls)) : native = .println := by
  have hmem : native ∈ table.map Prod.fst := List.mem_map_of_mem (List.mem_of_getElem? hentry)
  rw [h] at hmem
  exact List.mem_singleton.1 hmem

/-- Calls change the counts of a table only. -/
theorem Natives.OnlyPrints.count {table : Natives} (h : table.OnlyPrints) (handle : Nat) :
    (table.count handle).OnlyPrints :=
  (Natives.map_fst_count handle table).trans h

/-- Printing fails at the argument that the output refuses. -/
theorem Native.printAll_placed {P : Span → Prop} {args : List Argument}
    (hargs : ∀ a ∈ args, a.Placed P) (sink : Sink) :
    (∃ v, (Native.printAll args sink).1 = .ok v ∧ v.Placed P) ∨
      ∃ d, (Native.printAll args sink).1 = .error d ∧ P d.span := by
  induction args generalizing sink with
  | nil => exact .inl ⟨.void, rfl, trivial⟩
  | cons a rest ih =>
    unfold Native.printAll
    split
    · exact ih (fun b hb => hargs b (List.mem_cons_of_mem _ hb)) _
    · exact .inr ⟨_, rfl, (hargs a List.mem_cons_self).span⟩

/-- Natives of which there is only `println` keep every set of spans. -/
theorem Natives.host_keeps (P : Span → Prop) : Natives.host.Keeps P Natives.OnlyPrints := by
  intro caller handle args env paren _ hargs _ hparen w hw
  simp only [Natives.host]
  split
  · rename_i native calls hentry
    obtain rfl := hw.eq_println hentry
    have hcount := hw.count handle
    simp only [Native.reply, Reply.run]
    rcases Native.printAll_placed hargs w.sink with ⟨v, hv, hplaced⟩ | ⟨d, hd, hspan⟩
    · rw [hv]; exact .ok hplaced hcount
    · rw [hd]; exact .error hspan hcount
  · exact .error hparen hw

end ExprLang
