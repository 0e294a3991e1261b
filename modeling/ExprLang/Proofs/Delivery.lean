import ExprLang.Session
import ExprLang.Proofs.Below

/-!
# Runs that come to an end

Evaluation is looked at to all depths at once (`Run.Delivers`). What is shown of it is either that
it is safe, so that what it comes to is as it should be, or that it ends, so that some depth is
great enough. Both are kept by the same steps.

Functions are values. Let `A` be a set of functions. In a scope whose functions are of `A`, an
expression that mentions only names bound to functions of `A` has a value whose functions are of `A`
(`Eval.value_delivers`), and evaluating it ends if calling the functions of `A` does: the
expressions that evaluation looks at lie below it. No function goes into a call or comes out of it,
since no keyword is the name of the type of functions (`Eval.call_delivers`).
-/

namespace ExprLang

variable {σ α β : Type}

/-! ## Runs to every depth -/

/-- What is shown of runs to every depth: that they are safe up to a depth, or that they end. -/
inductive Aim where
  | safe (depth : Nat)
  | ends

/-- The aim for runs to one depth more. -/
def Aim.deeper : Aim → Aim
  | safe depth => safe (depth + 1)
  | ends => ends

namespace Run

/-- An outcome that is as it should be, and a host whose state has stayed of its kind. -/
structure Good (calm : σ → Prop) (good : α → Prop) (r : Except Diagnostic α × World σ) : Prop where
  host : calm r.2.host
  result : ∀ a, r.1 = .ok a → good a

/-- Runs, one to each depth, are safe up to a depth if all they come to is as it should be. They end
if they come to one such outcome to every depth that is great enough. -/
def Delivers (aim : Aim) (calm : σ → Prop) (good : α → Prop) (x : Nat → Run σ α) : Prop :=
  ∀ w : World σ, calm w.host →
    match aim with
    | .safe depth => ∀ n ≤ depth, ∀ r, x n w = some r → Good calm good r
    | .ends => ∃ n r, Good calm good r ∧ ∀ m, n ≤ m → x m w = some r

namespace Delivers

variable {aim : Aim} {calm : σ → Prop} {good : α → Prop} {good' : β → Prop}

/-- Runs that come to the same to every depth. -/
theorem of_steady {x : Nat → Run σ α}
    (h : ∀ w : World σ, calm w.host → ∃ r, Good calm good r ∧ ∀ n, x n w = some r) :
    Delivers aim calm good x := by
  intro w hw
  obtain ⟨r, hr, hx⟩ := h w hw
  cases aim with
  | safe depth =>
    intro n _ r' hr'
    rw [hx] at hr'
    cases hr'
    exact hr
  | ends => exact ⟨0, r, hr, fun m _ => hx m⟩

theorem pure {a : α} (h : good a) : Delivers aim calm good fun _ => Pure.pure a :=
  of_steady fun w hw => ⟨(.ok a, w), ⟨hw, by rintro _ ⟨⟩; exact h⟩, fun _ => rfl⟩

theorem fail (p : Problem) (span : Span) : Delivers aim calm good fun _ => Run.fail p span :=
  of_steady fun w hw => ⟨(.error ⟨p, span⟩, w), ⟨hw, nofun⟩, fun _ => rfl⟩

theorem record (e : Event) : Delivers aim calm (fun _ => True) fun _ => Run.record e :=
  of_steady fun w hw =>
    ⟨(.ok (), { w with events := e :: w.events }), ⟨hw, fun _ _ => trivial⟩, fun _ => rfl⟩

theorem ofOption (p : Problem) (span : Span) {o : Option α} (ho : ∀ a, o = some a → good a) :
    Delivers aim calm good fun _ => Run.ofOption p span o := by
  cases o with
  | none => exact fail p span
  | some a => exact pure (ho a rfl)

theorem ofExcept (span : Span) {o : Except Problem α} (ho : ∀ a, o = .ok a → good a) :
    Delivers aim calm good fun _ => Run.ofExcept span o := by
  cases o with
  | error p => exact fail p span
  | ok a => exact pure (ho a rfl)

theorem bind {x : Nat → Run σ α} {f : Nat → α → Run σ β} (hx : Delivers aim calm good x)
    (hf : ∀ a, good a → Delivers aim calm good' fun n => f n a) :
    Delivers aim calm good' fun n => x n >>= f n := by
  intro w hw
  cases aim with
  | safe depth =>
    intro n hn r hr
    rcases bind_eq_some hr with ⟨a, w', ha, hr⟩ | ⟨d, w', hd, rfl⟩
    · have hgood := hx w hw n hn _ ha
      exact hf a (hgood.result a rfl) w' hgood.host n hn r hr
    · exact ⟨(hx w hw n hn _ hd).host, nofun⟩
  | ends =>
    obtain ⟨n, ⟨o, w'⟩, hgood, hx'⟩ := hx w hw
    cases o with
    | ok a =>
      obtain ⟨n', r, hr, hf'⟩ := hf a (hgood.result a rfl) w' hgood.host
      refine ⟨max n n', r, hr, fun m hm => ?_⟩
      have hfirst := hx' m (by omega)
      have hsecond := hf' m (by omega)
      exact (bind_of_ok hfirst).trans hsecond
    | error d =>
      exact ⟨n, (.error d, w'), ⟨hgood.host, nofun⟩, fun m hm => bind_of_error (hx' m hm)⟩

theorem attempt {x : Nat → Run σ α} (hx : Delivers aim calm good x) :
    Delivers aim calm (fun o : Except Diagnostic α => ∀ a, o = .ok a → good a)
      fun n => (x n).attempt := by
  intro w hw
  cases aim with
  | safe depth =>
    intro n hn r hr
    obtain ⟨⟨o, w'⟩, ho, rfl⟩ := Option.map_eq_some_iff.1 hr
    have hgood := hx w hw n hn _ ho
    exact ⟨hgood.host, by rintro _ ⟨⟩; exact hgood.result⟩
  | ends =>
    obtain ⟨n, ⟨o, w'⟩, hgood, hx'⟩ := hx w hw
    refine ⟨n, (.ok o, w'), ⟨hgood.host, by rintro _ ⟨⟩; exact hgood.result⟩, fun m hm => ?_⟩
    simp only [Run.attempt, hx' m hm, Option.map_some]

theorem mono {x : Nat → Run σ α} {good' : α → Prop} (hx : Delivers aim calm good x)
    (h : ∀ a, good a → good' a) : Delivers aim calm good' x := by
  intro w hw
  cases aim with
  | safe depth =>
    intro n hn r hr
    have hgood := hx w hw n hn r hr
    exact ⟨hgood.host, fun a ha => h a (hgood.result a ha)⟩
  | ends =>
    obtain ⟨n, r, hgood, hx'⟩ := hx w hw
    exact ⟨n, r, ⟨hgood.host, fun a ha => h a (hgood.result a ha)⟩, hx'⟩

/-- To depth zero there is no outcome. -/
theorem deeper {x : Nat → Run σ α} (hx : Delivers aim calm good fun n => x (n + 1))
    (hzero : x 0 = tooDeep) : Delivers aim.deeper calm good x := by
  intro w hw
  cases aim with
  | safe depth =>
    intro n hn r hr
    cases n with
    | zero => rw [hzero] at hr; cases hr
    | succ n => exact hx w hw n (Nat.le_of_succ_le_succ hn) r hr
  | ends =>
    obtain ⟨n, r, hgood, hx'⟩ := hx w hw
    refine ⟨n + 1, r, hgood, fun m hm => ?_⟩
    obtain ⟨k, rfl⟩ := Nat.exists_eq_add_of_le' hm
    exact hx' (k + n) (Nat.le_add_left n k)

theorem of_deeper {x : Nat → Run σ α} (hx : Delivers aim.deeper calm good x) :
    Delivers aim calm good x := by
  cases aim with
  | safe depth => exact fun w hw n hn => hx w hw n (Nat.le_succ_of_le hn)
  | ends => exact hx

end Delivers

end Run

/-! ## Values -/

/-- If the value is a function of the program then it is one of `A`, and it is not the type of
functions. -/
structure Value.From (A : Lambda → Prop) (v : Value) : Prop where
  defined : ∀ f, v = .function (.defined f) → A f
  type : v ≠ .type .function

namespace Value

variable {A B : Lambda → Prop} {v v' : Value} {t : Ty}

theorem From.mono (h : v.From A) (hAB : ∀ f, A f → B f) : v.From B :=
  ⟨fun f hf => hAB f (h.defined f hf), h.type⟩

theorem from_of_ty (hfunction : v.ty ≠ .function) (htype : v.ty ≠ .type) : v.From A := by
  refine ⟨fun f hf => ?_, fun hv => ?_⟩
  · subst hf
    exact absurd rfl hfunction
  · subst hv
    exact absurd rfl htype

theorem from_void : From A .void := from_of_ty nofun nofun

/-- A coerced value is the value itself, unless it is `void` or a number. -/
theorem eq_of_coerce (h : v.coerce t = some v') :
    v' = v ∨ (v'.ty ≠ .function ∧ v'.ty ≠ .type) := by
  unfold coerce at h
  split at h
  · cases h
    exact .inr ⟨nofun, nofun⟩
  split at h
  · cases h
    exact .inl rfl
  split at h
  · right
    rw [ty_of_convert? h]
    constructor
    all_goals
      rintro rfl
      cases h
  · cases h

theorem From.coerce (hv : v.From A) (h : v.coerce t = some v') : v'.From A := by
  rcases eq_of_coerce h with rfl | ⟨hfunction, htype⟩
  · exact hv
  · exact from_of_ty hfunction htype

/-- Coerced to another type than that of functions, a value is no function. -/
theorem from_of_coerce (hv : v ≠ .type .function) (ht : t ≠ .function) (h : v.coerce t = some v') :
    v'.From A := by
  have hty := ty_of_coerce h
  refine ⟨fun f hf => ?_, ?_⟩
  · subst hf
    exact absurd hty.symm ht
  · rcases eq_of_coerce h with rfl | ⟨-, htype⟩
    · exact hv
    · rintro rfl
      exact htype rfl

end Value

theorem Token.ne_function_of_mem_typeNames {t : Ty} (h : t ∈ Token.typeNames) : t ≠ .function := by
  rintro rfl
  simp [typeNames] at h

/-- The value of a literal of a text. -/
theorem Literal.from_toValue {A : Lambda → Prop} {l : Literal} {span : Span}
    (h : (Node.expr (.literal l span)).Plain) : l.toValue.From A := by
  cases l with
  | number n =>
    obtain ⟨x, suffix⟩ := n
    cases suffix with
    | none => exact Value.from_of_ty nofun nofun
    | some s => cases s <;> exact Value.from_of_ty nofun nofun
  | string text => exact Value.from_of_ty nofun nofun
  | type t =>
    refine ⟨nofun, fun ht => ?_⟩
    cases ht
    exact Token.ne_function_of_mem_typeNames h rfl

/-- An operator gives a number or a text. -/
theorem Operator.from_of_apply {A : Lambda → Prop} {op : Operator} {l r v : Value}
    (h : op.apply l r = .ok v) : v.From A := by
  have hcheck := op.check_of_apply h
  have hleft := op.eq_ty_of_check hcheck
  unfold Operator.check at hcheck
  split at hcheck
  · cases hcheck
  split at hcheck
  · rename_i htakes
    rw [← hleft] at htakes
    apply Value.from_of_ty
    all_goals
      intro hty
      rw [hty] at htakes
      cases op <;> cases htakes
  · cases hcheck

/-! ## Scopes -/

/-- The functions that a scope binds are among some. -/
def Scope.From (A : Lambda → Prop) (scope : Scope) : Prop :=
  ∀ name slot v, scope.get? name = some slot → slot.value? = some v → v.From A

theorem Scope.from_nil {A : Lambda → Prop} : Scope.From A [] := fun _ _ _ h => nomatch h

theorem Scope.From.cons {A : Lambda → Prop} {scope : Scope} (h : scope.From A) {v : Value}
    (hv : v.From A) (name : String) (origin : Span) :
    Scope.From A ((name, .ofConstant v origin) :: scope) := by
  intro n slot u hslot hu
  rw [Scope.get?_cons] at hslot
  split at hslot
  · cases hslot
    cases hu
    exact hv
  · exact h n slot u hslot hu

namespace Env

variable {A : Lambda → Prop} {root : Scope} {env : Env}

/-- The scopes inside a root, with functions among some. -/
structure Beside (root : Scope) (A : Lambda → Prop) (env : Env) : Prop where
  root_eq : env.root = root
  inner : ∀ scope ∈ env.inner, scope.From A

theorem beside_ofRoot (root : Scope) : (ofRoot root).Beside root A :=
  ⟨rfl, List.forall_mem_nil _⟩

theorem Beside.enter (h : env.Beside root A) : env.enter.Beside root A :=
  ⟨h.root_eq, List.forall_mem_cons.2 ⟨Scope.from_nil, h.inner⟩⟩

/-- What a name stands for in one of the scopes, or in the root. -/
theorem Beside.get? (h : env.Beside root A) {name : String} {slot : Slot} {v : Value}
    (hslot : env.get? name = some slot) (hv : slot.value? = some v) :
    v.From A ∨ root.get? name = some slot := by
  rw [get?_eq_or, h.root_eq] at hslot
  cases hinner : find? name env.inner with
  | none => rw [hinner] at hslot; exact .inr hslot
  | some slot' =>
    rw [hinner] at hslot
    cases hslot
    obtain ⟨scope, hscope, hget⟩ := exists_of_find? hinner
    exact .inl (h.inner scope hscope name slot v hget hv)

/-- A declaration in a scope inside the root. -/
theorem Beside.declare {calm : σ → Prop} {aim : Aim} (h : env.Beside root A)
    (hinner : env.inner ≠ []) {name : Ident} {v : Value} (hv : v.From A) (origin : Span) :
    Run.Delivers aim calm (fun env : Env => env.Beside root A ∧ env.inner ≠ [])
      fun _ => Eval.declare name v origin env := by
  by_cases hbound : env.innermost.contains name.name = true
  · rw [Eval.declare_of_contains name v origin env hbound]
    exact .fail _ _
  · rw [Eval.declare_of_not_contains name v origin env hbound]
    refine .pure ?_
    obtain ⟨inner, root'⟩ := env
    cases inner with
    | nil => exact absurd rfl hinner
    | cons scope outer =>
      obtain ⟨hscope, houter⟩ := List.forall_mem_cons.1 h.inner
      refine ⟨⟨h.root_eq, ?_⟩, List.cons_ne_nil _ _⟩
      exact List.forall_mem_cons.2 ⟨hscope.cons hv name.name origin, houter⟩

end Env

/-! ## Evaluation -/

/-- What may stand below code that is evaluated beside a root: no function, no type but one that has
a word of its own, and no name that the root binds to a function outside `A`. -/
def Node.Fits (root : Scope) (A : Lambda → Prop) : Node → Prop
  | expr (.name id) => ∀ slot v, root.get? id.name = some slot → slot.value? = some v → v.From A
  | n => n.Plain

/-- Native functions that call no others and give `void`. -/
def Host.GivesVoid (host : Host σ) (calm : σ → Prop) : Prop :=
  ∀ handle args env paren (w : World σ), calm w.host →
    ∃ o w', host.invoke handle args env paren w = .done o w' ∧
      Run.Good calm (fun v => v = .void) (o, w')

namespace Eval

variable {host : Host σ} {aim : Aim} {calm : σ → Prop} {root : Scope} {A : Lambda → Prop}

variable (host aim calm root) in
/-- What calls of a function beside a root come to. They give no function. -/
def Calls (f : Lambda) : Prop :=
  ∀ (args : List Argument) (env : Env) (paren : Span), env.root = root →
    (∀ a ∈ args, a.value ≠ .type .function) →
    Run.Delivers aim calm (Value.From fun _ => False)
      fun depth => call host depth (.defined f) args env paren

theorem native_delivers (hhost : host.GivesVoid calm) (name : String) (handle : Nat)
    (args : List Argument) (env : Env) (paren : Span) :
    Run.Delivers aim calm (Value.From fun _ => False)
      fun depth => call host depth (.native name handle) args env paren := by
  refine Run.Delivers.of_deeper (.deeper ?_ rfl)
  refine (Run.Delivers.record (.calledNative name)).bind fun _ _ => .of_steady fun w hw => ?_
  obtain ⟨o, w', hreply, hgood⟩ := hhost handle args env paren w hw
  refine ⟨(o, w'), ⟨hgood.host, fun v hv => ?_⟩, fun n => by rw [hreply]; rfl⟩
  rw [hgood.result v hv]
  exact Value.from_void

theorem lookup_delivers {id : Ident} {env : Env} (henv : env.Beside root A)
    (hid : (Node.expr (.name id)).Fits root A) :
    Run.Delivers aim calm (Value.From A) fun _ => lookup id env := by
  unfold lookup
  split
  · exact .fail _ _
  · rename_i slot hslot
    refine .ofOption _ _ fun v hv => ?_
    rcases henv.get? hslot hv with hfrom | hroot
    · exact hfrom
    · exact hid slot v hroot hv

theorem typeValue_delivers {value : Nat → Evaluator σ} {e : Expr} {env : Env}
    (h : Run.Delivers aim calm (Value.From A) fun depth => value depth e env) :
    Run.Delivers aim calm (fun t => t ≠ .function) fun depth => typeValue (value depth) e env := by
  refine h.bind fun v hv => .ofOption _ _ fun t ht => ?_
  rintro rfl
  cases v with
  | type t => cases ht; exact hv.type rfl
  | _ => cases ht

section Expressions

variable (hcalls : ∀ f, A f → Calls host aim calm root f) (hhost : host.GivesVoid calm)

include hcalls hhost

/-- Calling what a value of `A` holds. -/
theorem callee_delivers {v : Value} (hv : v.From A) {f : Function} (hf : v.toFunction? = some f)
    {args : List Argument} (hargs : ∀ a ∈ args, a.value.From A) {env : Env}
    (henv : env.Beside root A) (paren : Span) :
    Run.Delivers aim calm (Value.From A) fun depth => call host depth f args env paren := by
  have hnone : ∀ u : Value, u.From (fun _ => False) → u.From A := fun u hu => hu.mono nofun
  cases v with
  | function g =>
    cases hf
    cases f with
    | defined g =>
      have hcall := hcalls g (hv.defined g rfl) args env paren henv.root_eq
      exact (hcall fun a ha => (hargs a ha).type).mono hnone
    | native name handle => exact (native_delivers hhost name handle args env paren).mono hnone
  | _ => cases hf

set_option linter.unusedSectionVars false in
mutual

/-- **Evaluating an expression beside a root.** Its functions are of `A`, and evaluating it ends if
calls of the functions of `A` do. -/
theorem value_delivers : (e : Expr) → (Node.expr e).All (Node.Fits root A) → {env : Env} →
    env.Beside root A → Run.Delivers aim calm (Value.From A) fun depth => value host depth e env
  | .literal l span, he, env, _ => by
    refine .of_deeper (.deeper ?_ rfl)
    exact .pure (Literal.from_toValue he.self)
  | .function f, he, _, _ => he.self.elim
  | .name id, he, env, henv => by
    refine .of_deeper (.deeper ?_ rfl)
    exact lookup_delivers henv he.self
  | .binary op left right, he, env, henv => by
    refine .of_deeper (.deeper ?_ rfl)
    have hleft := value_delivers left (he.child List.mem_cons_self) henv
    have hright := value_delivers right (he.child (by simp [Node.children])) henv
    have hoperands : Run.Delivers aim calm (fun _ => True)
        fun depth => operands (value host depth) left right env :=
      hleft.bind fun _ _ => hright.bind fun _ _ => .pure trivial
    exact hoperands.bind fun _ _ => .ofExcept _ fun _ hv => Operator.from_of_apply hv
  | .coerce source type, he, env, henv => by
    refine .of_deeper (.deeper ?_ rfl)
    have hsource := value_delivers source (he.child List.mem_cons_self) henv
    have htype := value_delivers type (he.child (by simp [Node.children])) henv
    refine hsource.bind fun v hv => (typeValue_delivers htype).bind fun t _ => ?_
    exact .ofOption _ _ fun _ hu => hv.coerce hu
  | .call callee args paren close, he, env, henv => by
    refine .of_deeper (.deeper ?_ rfl)
    have hcallee := value_delivers callee (he.child List.mem_cons_self) henv
    have harguments := arguments_delivers args
      (fun e hmem => he.child (by simp [Node.children, hmem])) henv
    refine hcallee.bind fun v hv => ?_
    refine (Run.Delivers.ofOption _ _ fun _ hf => hf).bind fun f hf => ?_
    exact harguments.bind fun as has => callee_delivers hcalls hhost hv hf has henv paren
  | .block ⟨ss, span⟩, he, env, henv => by
    refine .of_deeper (.deeper ?_ rfl)
    have hblock : (Node.block ⟨ss, span⟩).All (Node.Fits root A) := he.child List.mem_cons_self
    exact statements_delivers ss (fun s hs => hblock.child (List.mem_map_of_mem hs))
      Value.from_void henv.enter (List.cons_ne_nil _ _)

theorem arguments_delivers : (es : List Expr) →
    (∀ e ∈ es, (Node.expr e).All (Node.Fits root A)) → {env : Env} → env.Beside root A →
    Run.Delivers aim calm (fun as => ∀ a ∈ as, Value.From A a.value)
      fun depth => arguments (value host depth) es env
  | [], _, _, _ => .pure (List.forall_mem_nil _)
  | e :: es, hes, env, henv => by
    obtain ⟨he, hes⟩ := List.forall_mem_cons.1 hes
    have hvalue := value_delivers e he henv
    have hrest := arguments_delivers es hes henv
    exact hvalue.bind fun v hv => hrest.bind fun as has => .pure (List.forall_mem_cons.2 ⟨hv, has⟩)

/-- The values that the constants of a block are declared with go into its scope. -/
theorem statements_delivers : (ss : List Statement) →
    (∀ s ∈ ss, (Node.statement s).All (Node.Fits root A)) → {last : Value} → last.From A →
    {env : Env} → env.Beside root A → env.inner ≠ [] →
    Run.Delivers aim calm (Value.From A) fun depth => statements (value host depth) ss last env
  | [], _, _, hlast, _, _, _ => .pure hlast
  | .expr e :: rest, hss, _, _, env, henv, hinner => by
    obtain ⟨hs, hrest⟩ := List.forall_mem_cons.1 hss
    have hvalue := value_delivers e (hs.child List.mem_cons_self) henv
    have hstatement : Run.Delivers aim calm (fun r => r.1.From A ∧ r.2 = env)
        fun depth => statement (value host depth) (.expr e) env :=
      hvalue.bind fun v hv => .pure ⟨hv, rfl⟩
    refine hstatement.bind ?_
    rintro ⟨v, _⟩ ⟨hv, rfl⟩
    exact statements_delivers rest hrest hv henv hinner
  | .const keyword name e :: rest, hss, _, _, env, henv, hinner => by
    obtain ⟨hs, hrest⟩ := List.forall_mem_cons.1 hss
    have hvalue := value_delivers e (hs.child (by simp [Node.children])) henv
    have hstatement : Run.Delivers aim calm
        (fun r => r.1.From A ∧ r.2.Beside root A ∧ r.2.inner ≠ [])
        fun depth => statement (value host depth) (.const keyword name e) env :=
      hvalue.bind fun v hv => (henv.declare hinner hv e.span).bind fun env henv =>
        .pure ⟨Value.from_void, henv⟩
    refine hstatement.bind ?_
    rintro ⟨v, env⟩ ⟨hv, henv, hinner⟩
    exact statements_delivers rest hrest hv henv hinner

end

/-- A parameter is declared with a value that is no function: its type is not that of functions. -/
theorem bindParams_delivers {ps : List (Param × Argument)}
    (hps : ∀ pa ∈ ps, (Node.expr pa.1.type).All (Node.Fits root A) ∧
      pa.2.value ≠ .type .function)
    {env : Env} (henv : env.Beside root A) (hinner : env.inner ≠ []) :
    Run.Delivers aim calm (fun env : Env => env.Beside root A ∧ env.inner ≠ [])
      fun depth => bindParams (value host depth) ps env := by
  induction ps generalizing env with
  | nil => exact .pure ⟨henv, hinner⟩
  | cons pa rest ih =>
    obtain ⟨p, a⟩ := pa
    obtain ⟨⟨htype, ha⟩, hrest⟩ := List.forall_mem_cons.1 hps
    have hvalue := value_delivers hcalls hhost p.type htype henv
    have hbind : Run.Delivers aim calm (fun env : Env => env.Beside root A ∧ env.inner ≠ [])
        fun depth => bindParam (value host depth) p a env := by
      refine (typeValue_delivers hvalue).bind fun t ht => ?_
      have hcoerce : ∀ v, a.value.coerce t = some v → v.From A :=
        fun _ => Value.from_of_coerce ha ht
      exact (Run.Delivers.ofOption _ _ hcoerce).bind fun v hv => henv.declare hinner hv a.span
    exact hbind.bind fun env henv => ih hrest henv.1 henv.2

/-- **Calling a function beside a root.** The type of its result has a word of its own, so that the
result is no function. -/
theorem call_delivers {f : Lambda} {t : Ty} {span : Span}
    (hret : f.ret = .literal (.type t) span) (ht : t ∈ Token.typeNames)
    (hparams : ∀ p ∈ f.params, (Node.expr p.type).All (Node.Fits root A))
    (hbody : (Node.block f.body).All (Node.Fits root A)) :
    Calls host aim.deeper calm root f := by
  intro args env paren henv hargs
  refine .deeper ?_ rfl
  have htype : Run.Delivers aim calm (· = t)
      fun depth => typeValue (value host depth) f.ret env := by
    have hliteral : Run.Delivers aim calm (· = .type t)
        fun depth => value host depth f.ret env := by
      rw [hret]
      exact .of_deeper (.deeper (.pure rfl) rfl)
    refine hliteral.bind ?_
    rintro _ rfl
    exact .pure rfl
  have hcount : Run.Delivers aim calm (fun _ => True)
      fun _ => checkCount (σ := σ) f.params args paren := by
    unfold checkCount
    split
    · exact .fail _ _
    · split
      · exact .fail _ _
      · exact .pure trivial
  have hstart : (env.atRoot.enter).Beside root A := henv ▸ (Env.beside_ofRoot env.root).enter
  refine (Run.Delivers.record _).bind fun _ _ => htype.bind ?_
  rintro _ rfl
  refine hcount.bind fun _ _ => ?_
  refine (bindParams_delivers hcalls hhost (fun pa hpa => ?_) hstart (List.cons_ne_nil _ _)).bind
    fun scope hscope => ?_
  · obtain ⟨hp, ha⟩ := List.of_mem_zip hpa
    exact ⟨hparams _ hp, hargs _ ha⟩
  have hblock := statements_delivers hcalls hhost f.body.statements
    (fun s hs => hbody.child (List.mem_map_of_mem hs)) Value.from_void hscope.1.enter
    (List.cons_ne_nil _ _)
  refine Run.Delivers.bind hblock fun result hresult => ?_
  exact .ofOption _ _ fun v hv =>
    Value.from_of_coerce hresult.type (Token.ne_function_of_mem_typeNames ht) hv

end Expressions

end Eval

end ExprLang
