import Mathlib.Data.Set.Finite.List
import Mathlib.Order.WellFounded
import ExprLang.Proofs.Delivery
import ExprLang.Proofs.PlacedRuns

/-!
# Programs that come to an end

A function refers to those that the root binds to the names in its body and in the types of its
parameters. If no function refers to itself, not even through others, and every return type is a
keyword, then whatever is evaluated beside the root of the program comes to an end
(`Session.ends_of_acyclic`).

No function goes into a call or comes out of it, so a call can only lead to calls of functions that
the called one refers to. The root binds finitely many functions, and the relation between them has
no cycle, so that the calls are followed by induction on it (`Eval.calls_end`). What the constants
of the root hold was evaluated when it was smaller. There calls need not end, but they are safe to
every depth (`Eval.calls_safe`).
-/

namespace ExprLang

variable {σ : Type}

/-! ## References -/

/-- The return type is written as a keyword. -/
def Lambda.ReturnsKeyword (f : Lambda) : Prop := ∃ t span, f.ret = .literal (.type t) span

/-- A function of plain parts whose return type is a keyword. -/
structure Lambda.Declared (f : Lambda) : Prop where
  plain : f.Plain
  ret : f.ReturnsKeyword

/-- A name in the body of a function, or in the type of a parameter. -/
def Lambda.Mentions (f : Lambda) (name : String) : Prop :=
  (∃ p ∈ f.params, (Node.expr p.type).Mentions name) ∨ (Node.block f.body).Mentions name

/-- A name stands for a function of the program. -/
def Scope.Binds (root : Scope) (name : String) (f : Lambda) : Prop :=
  ∃ slot, root.get? name = some slot ∧ slot.value? = some (.function (.defined f))

/-- A function mentions a name that stands for another. -/
def Lambda.Refers (root : Scope) (f g : Lambda) : Prop :=
  ∃ name, f.Mentions name ∧ root.Binds name g

theorem Lambda.Refers.bound {root : Scope} {f g : Lambda} (h : f.Refers root g) :
    ∃ name, root.Binds name g := by
  obtain ⟨name, -, hname⟩ := h
  exact ⟨name, hname⟩

/-- No function refers to itself, not even through others. -/
def Scope.Acyclic (root : Scope) : Prop := ∀ f, ¬Relation.TransGen (Lambda.Refers root) f f

namespace Scope

variable {root : Scope} {A : Lambda → Prop}

theorem finite_bound (root : Scope) : {f : Lambda | ∃ name, root.Binds name f}.Finite := by
  have hvalues : {v : Value | v ∈ root.filterMap fun entry => entry.2.value?}.Finite :=
    List.finite_toSet _
  have hinjective : Function.Injective fun f : Lambda => Value.function (.defined f) := by
    rintro f g h
    cases h
    rfl
  refine (hvalues.preimage hinjective.injOn).subset ?_
  rintro f ⟨name, slot, hslot, hf⟩
  obtain ⟨before, after, hroot, -⟩ := List.lookup_eq_some_iff.1 hslot
  have hentry : (name, slot) ∈ root := by simp [hroot]
  exact List.mem_filterMap.2 ⟨(name, slot), hentry, hf⟩

theorem Binds.from (h : root.From A) {name : String} {f : Lambda} (hf : root.Binds name f) :
    A f := by
  obtain ⟨slot, hslot, hv⟩ := hf
  exact (h name slot _ hslot hv).defined f rfl

/-- The functions that a function refers to, and so on, are finitely many and not the function
itself. -/
theorem Acyclic.induction (h : root.Acyclic) {motive : Lambda → Prop}
    (step : ∀ f, (∀ g, f.Refers root g → motive g) → motive f) (f : Lambda) : motive f := by
  let Bound := {f : Lambda // ∃ name, root.Binds name f}
  let reached (g f : Bound) : Prop := Relation.TransGen (Lambda.Refers root) f.1 g.1
  have hfinite : Finite Bound := root.finite_bound
  have htrans : IsTrans Bound reached := ⟨fun _ _ _ hgf hfe => hfe.trans hgf⟩
  have hirrefl : Std.Irrefl reached := ⟨fun f => h f.1⟩
  have hbound : ∀ f : Bound, motive f.1 := by
    intro f
    induction f using (Finite.wellFounded_of_trans_of_irrefl reached).induction with
    | _ f ih => exact step f.1 fun g hg => ih ⟨g, hg.bound⟩ (.single hg)
  exact step f fun g hg => hbound ⟨g, hg.bound⟩

end Scope

/-- Plain code fits beside a root if its names stand for functions of the set. -/
theorem Node.All.fits {root : Scope} {A B : Lambda → Prop} {n : Node} (h : n.All Node.Plain)
    (hroot : root.From B) (hA : ∀ name f, n.Mentions name → root.Binds name f → A f) :
    n.All (Node.Fits root A) := by
  intro m hm
  have hplain := h m hm
  cases m with
  | expr e =>
    cases e with
    | name id =>
      intro slot v hslot hv
      refine ⟨fun f hf => ?_, (hroot id.name slot v hslot hv).type⟩
      exact hA id.name f ⟨id, hm, rfl⟩ ⟨slot, hslot, hf ▸ hv⟩
    | _ => exact hplain
  | _ => exact hplain

namespace Eval

variable {host : Host σ} {aim : Aim} {calm : σ → Prop} {root : Scope}
  (hhost : host.GivesVoid calm)

include hhost

/-- Calling a function, given how the functions are called that it refers to. -/
theorem calls_of_refers (aim : Aim) (hroot : root.From Lambda.Declared) {f : Lambda}
    (hf : f.Declared) (hcalls : ∀ g, f.Refers root g → Calls host aim calm root g) :
    Calls host aim.deeper calm root f := by
  obtain ⟨hplain, t, span, hret⟩ := hf
  have hchild : ∀ n : Node, n ∈ (Node.expr (.function f)).children →
      (∀ name, n.Mentions name → f.Mentions name) → n.All (Node.Fits root (f.Refers root)) :=
    fun n hn hmentions => (hplain n hn).fits hroot fun name g hname hg =>
      ⟨name, hmentions name hname, hg⟩
  have ht : t ∈ Token.typeNames := by
    have hliteral : (Node.expr f.ret).Plain := (hplain _ List.mem_cons_self).self
    rw [hret] at hliteral
    exact hliteral
  refine call_delivers hcalls hhost hret ht (fun p hp => ?_) ?_
  · refine hchild _ ?_ fun name hname => .inl ⟨p, hp, hname⟩
    simp only [Node.children, List.mem_cons, List.mem_append, List.mem_flatMap]
    exact .inr (.inl ⟨p, hp, by simp⟩)
  · exact hchild _ (by simp [Node.children]) fun name hname => .inr hname

/-- Calls are safe to every depth. -/
theorem calls_safe (hroot : root.From Lambda.Declared) (depth : Nat) {f : Lambda}
    (hf : f.Declared) : Calls host (.safe depth) calm root f := by
  induction depth generalizing f with
  | zero =>
    intro args env paren _ _ w _ n hn r hr
    obtain rfl := Nat.le_zero.1 hn
    cases hr
  | succ depth ih =>
    refine calls_of_refers hhost (.safe depth) hroot hf fun g hg => ?_
    obtain ⟨name, hname⟩ := hg.bound
    exact ih (hname.from hroot)

/-- Without cycles, calls end. -/
theorem calls_end (hroot : root.From Lambda.Declared) (hacyclic : root.Acyclic) {f : Lambda}
    (hf : f.Declared) : Calls host .ends calm root f := by
  induction f using hacyclic.induction with
  | step f ih =>
    refine calls_of_refers hhost .ends hroot hf fun g hg => ?_
    obtain ⟨name, hname⟩ := hg.bound
    exact ih g hg (hname.from hroot)

/-- Plain code at the root, given how the functions of the program are called. -/
theorem plain_delivers (hcalls : ∀ f, Lambda.Declared f → Calls host aim calm root f)
    (hroot : root.From Lambda.Declared) {e : Expr} (he : (Node.expr e).All Node.Plain) :
    Run.Delivers aim calm (Value.From Lambda.Declared)
      fun depth => value host depth e (.ofRoot root) :=
  value_delivers hcalls hhost e (he.fits hroot fun _ _ _ hg => hg.from hroot)
    (Env.beside_ofRoot root)

end Eval

/-! ## Resolution -/

/-- A root alone, whose functions are of a set. -/
structure Env.Rooted (A : Lambda → Prop) (env : Env) : Prop where
  inner : env.inner = []
  root : env.root.From A

/-- A declaration in the root. -/
theorem Env.Rooted.declare {A : Lambda → Prop} {aim : Aim} {calm : σ → Prop} {env : Env}
    (henv : env.Rooted A) {name : Ident} {v : Value} (hv : v.From A) (origin : Span) :
    Run.Delivers aim calm (Env.Rooted A) fun _ => Eval.declare name v origin env := by
  by_cases hbound : env.innermost.contains name.name = true
  · rw [Eval.declare_of_contains name v origin env hbound]
    exact .fail _ _
  · rw [Eval.declare_of_not_contains name v origin env hbound]
    refine .pure ?_
    obtain ⟨inner, root⟩ := env
    obtain ⟨rfl, hroot⟩ := henv
    exact ⟨rfl, hroot.cons hv name.name origin⟩

namespace Resolve

variable {aim : Aim} {calm : σ → Prop} {A : Lambda → Prop} {P : Item → Prop}
  {value : Nat → Evaluator σ} (hvalue : ∀ i, P i → ∀ env : Env, env.Rooted A →
    Run.Delivers aim calm (Value.From A) fun depth => value depth i.value env)

include hvalue

theorem pass_delivers (number : Nat) {items : List Item} (hitems : ∀ i ∈ items, P i) {env : Env}
    (henv : env.Rooted A) :
    Run.Delivers aim calm (fun r => (∀ i ∈ r.1, P i) ∧ r.2.Rooted A)
      fun depth => pass (value depth) number items env := by
  induction items generalizing env with
  | nil => exact .pure ⟨List.forall_mem_nil _, henv⟩
  | cons i rest ih =>
    obtain ⟨hi, hrest⟩ := List.forall_mem_cons.1 hitems
    refine (hvalue i hi env henv).attempt.bind fun o ho => ?_
    cases o with
    | ok v =>
      exact (henv.declare (ho v rfl) i.value.span).bind fun env henv => ih hrest henv
    | error d =>
      refine (Run.Delivers.record _).bind fun _ _ => (ih hrest henv).bind ?_
      rintro ⟨left, env⟩ ⟨hleft, henv⟩
      exact .pure ⟨List.forall_mem_cons.2 ⟨hi, hleft⟩, henv⟩

theorem force_delivers {items : List Item} (hitems : ∀ i ∈ items, P i) {env : Env}
    (henv : env.Rooted A) :
    Run.Delivers aim calm (fun r => (∀ i ∈ r.1, P i) ∧ r.2.Rooted A)
      fun depth => force (value depth) items env := by
  cases items with
  | nil => exact .pure ⟨List.forall_mem_nil _, henv⟩
  | cons i rest =>
    obtain ⟨hi, hrest⟩ := List.forall_mem_cons.1 hitems
    have hitem : Run.Delivers aim calm (Env.Rooted A) fun depth => item (value depth) i env :=
      (hvalue i hi env henv).bind fun v hv => henv.declare hv i.value.span
    exact hitem.bind fun env henv => .pure ⟨hrest, henv⟩

theorem round_delivers (number : Nat) {items : List Item} (hitems : ∀ i ∈ items, P i) {env : Env}
    (henv : env.Rooted A) :
    Run.Delivers aim calm (fun r => (∀ i ∈ r.1, P i) ∧ r.2.Rooted A)
      fun depth => round (value depth) number items env := by
  refine (pass_delivers hvalue number hitems henv).bind ?_
  rintro ⟨left, env⟩ ⟨hleft, henv⟩
  refine (Run.Delivers.record _).bind fun _ _ => ?_
  split
  · exact force_delivers hvalue hleft henv
  · exact .pure ⟨hleft, henv⟩

theorem rounds_delivers (bound number : Nat) {items : List Item} (hitems : ∀ i ∈ items, P i)
    {env : Env} (henv : env.Rooted A) :
    Run.Delivers aim calm (Env.Rooted A)
      fun depth => rounds (value depth) bound number items env := by
  induction bound generalizing number items env with
  | zero => cases items <;> exact .pure henv
  | succ bound ih =>
    cases items with
    | nil => exact .pure henv
    | cons i rest =>
      refine (round_delivers hvalue number hitems henv).bind ?_
      rintro ⟨left, env⟩ ⟨hleft, henv⟩
      exact ih (number + 1) hleft henv

end Resolve

/-! ## Sessions -/

namespace Session

variable {aim : Aim} {calm : σ → Prop} {A : Lambda → Prop}

theorem bindNatives_delivers (natives : List NativeRef) {env : Env} (henv : env.Rooted A) :
    Run.Delivers aim calm (Env.Rooted A) fun _ => bindNatives natives env := by
  induction natives generalizing env with
  | nil => exact .pure henv
  | cons native rest ih =>
    have hnative : (Value.function (.native native.name native.handle)).From A := ⟨nofun, nofun⟩
    have hbind : Run.Delivers aim calm (Env.Rooted A) fun _ => bindNative native env :=
      henv.declare hnative Span.origin
    exact (Run.Delivers.record _).bind fun _ _ => hbind.bind fun env henv => ih henv

variable {host : Host σ} (hhost : host.GivesVoid calm)

include hhost

/-- **The functions of a program.** What the root of a session binds to a function was declared in
the text. -/
theorem root_of_build {depth : Nat} {document : Document} {style : Style}
    {natives : List NativeRef} {w w' : World σ} {s : Session} (hw : calm w.host)
    (h : build (Eval.value host depth) document style natives w = some (.ok s, w'))
    (hret : ∀ items, Item.ofText 0 document.text = .ok items → ∀ i ∈ items, ∀ f,
      i.value = .function f → f.ReturnsKeyword) :
    s.root.From Lambda.Declared ∧ calm w'.host := by
  let P (i : Item) : Prop := i.Plain ∧ ∀ f, i.value = .function f → f.ReturnsKeyword
  have hvalue : ∀ i, P i → ∀ env : Env, env.Rooted Lambda.Declared →
      Run.Delivers (.safe depth) calm (Value.From Lambda.Declared)
        fun n => Eval.value host n i.value env := by
    rintro i ⟨hplain, hret⟩ ⟨_, root⟩ ⟨rfl, hroot⟩
    rcases hplain with ⟨f, hf, hplain⟩ | hplain
    · rw [hf]
      refine .of_deeper (.deeper (.pure ⟨?_, nofun⟩) rfl)
      rintro _ ⟨⟩
      exact ⟨hplain, hret f hf⟩
    · have hcalls : ∀ f, Lambda.Declared f → Eval.Calls host (.safe depth) calm root f :=
        fun f hf => Eval.calls_safe hhost hroot depth hf
      exact Eval.plain_delivers hhost hcalls hroot hplain
  have hread : Run.Delivers (.safe depth) calm (fun items => ∀ i ∈ items, P i)
      fun _ => Parse.read (σ := σ) 0 document.text := by
    refine .of_steady fun w hw => ⟨_, ⟨?_, fun items hitems i hi => ?_⟩, fun _ => rfl⟩
    · exact hw
    · exact ⟨Item.plain_of_ofText hitems i hi, hret items hitems i hi⟩
  have hempty : Env.empty.Rooted Lambda.Declared := ⟨rfl, Scope.from_nil⟩
  have hbuild : Run.Delivers (.safe depth) calm (fun s => s.root.From Lambda.Declared)
      fun n => build (Eval.value host n) document style natives := by
    refine hread.bind fun items hitems => (bindNatives_delivers _ hempty).bind fun env henv => ?_
    refine (Resolve.rounds_delivers hvalue _ _ hitems henv).bind fun env henv => ?_
    exact .pure henv.root
  have hgood := hbuild w hw depth (Nat.le_refl depth) _ h
  exact ⟨hgood.result s rfl, hgood.host⟩

omit hhost in
theorem slot_of_main? {s : Session} {f : Function} {span : Span} (h : s.main? = .ok (f, span)) :
    ∃ slot, s.root.get? "main" = some slot ∧ slot.value? = some (.function f) := by
  unfold main? at h
  split at h
  · cases h
  · rename_i slot hslot
    dsimp only at h
    split at h
    · rename_i hv
      split at h
      · cases h
        exact ⟨slot, hslot, hv⟩
      · cases h
    · cases h

omit hhost in
theorem slot_of_function? {s : Session} {name : String} {f : Function} {span : Span}
    (h : s.function? name = .ok (f, span)) :
    ∃ slot, s.root.get? name = some slot ∧ slot.value? = some (.function f) := by
  unfold function? at h
  split at h
  · cases h
  · rename_i slot hslot
    dsimp only at h
    split at h
    · cases h
    · rename_i hv
      cases h
      exact ⟨slot, hslot, hv⟩
    · cases h

/-- Calling what the root binds, without arguments. -/
theorem start_delivers {s : Session}
    (hcalls : ∀ f, Lambda.Declared f → Eval.Calls host aim calm s.root f)
    (hroot : s.root.From Lambda.Declared) {o : Except Diagnostic (Function × Span)}
    (ho : ∀ f span, o = .ok (f, span) →
      ∃ name slot, s.root.get? name = some slot ∧ slot.value? = some (.function f)) :
    Run.Delivers aim calm (fun _ => True) fun n => start (Eval.call host n) s o := by
  cases o with
  | error d =>
    exact .of_steady fun w hw => ⟨(.error d, w), ⟨hw, by rintro _ ⟨⟩⟩, fun _ => rfl⟩
  | ok r =>
    obtain ⟨f, span⟩ := r
    obtain ⟨name, slot, hslot, hf⟩ := ho f span rfl
    have hcall := Eval.callee_delivers hcalls hhost (hroot name slot _ hslot hf) rfl
      (List.forall_mem_nil _) (Env.beside_ofRoot s.root) span
    exact hcall.mono fun _ _ => trivial

end Session

/-! ## Printing -/

/-- What printing gives is `void`. -/
theorem Native.eq_void_of_printAll {args : List Argument} {sink : Sink} {v : Value}
    (h : (printAll args sink).1 = .ok v) : v = .void := by
  induction args generalizing sink with
  | nil => cases h; rfl
  | cons a rest ih =>
    unfold printAll at h
    split at h
    · exact ih h
    · cases h

/-- Printing is done at once and gives `void`. -/
theorem Natives.host_givesVoid : Natives.host.GivesVoid Natives.OnlyPrints := by
  intro handle args env paren w hw
  simp only [Natives.host]
  split
  · rename_i native calls hentry
    obtain rfl := hw.eq_println hentry
    refine ⟨_, _, rfl, hw.count handle, ?_⟩
    intro v hv
    exact Native.eq_void_of_printAll hv
  · refine ⟨_, _, rfl, hw, ?_⟩
    rintro _ ⟨⟩

/-! ## Termination -/

/-- What is below an item: the function that it defines, or plain code. -/
theorem Item.Plain.below {i : Item} (h : i.Plain) {e : Expr} (he : (Node.expr e).Below (.item i)) :
    (∃ f, e = .function f) ∨ (Node.expr e).All Node.Plain :=
  Item.All.below h he

/-- Runs that come to an outcome to some depth, and to the same to every greater depth. The host
stays of its kind. -/
def Run.Ends {α : Type} (calm : σ → Prop) (x : Nat → Run σ α) : Prop :=
  ∀ w : World σ, calm w.host →
    ∃ n r, calm r.2.host ∧ ∀ m, n ≤ m → x m w = some r

theorem Run.Delivers.to_ends {α : Type} {calm : σ → Prop} {good : α → Prop} {x : Nat → Run σ α}
    (h : Delivers .ends calm good x) : Ends calm x := by
  intro w hw
  obtain ⟨n, r, hgood, hx⟩ := h w hw
  exact ⟨n, r, hgood.host, hx⟩

/-- **Programs without cycles of references come to an end.** Let a program be built with `println`
alone, let every return type be a keyword, and let no function of the root refer to itself, not even
through others. Then the evaluation of every expression of a text at the root ends, and so does the
call of `main` and of every other function by its name: some depth is enough, and to every greater
one they come to the same outcome. -/
theorem Session.ends_of_acyclic {document : Document} {style : Style} {depth : Nat}
    {w w' : World Natives} {s : Session} (hw : Natives.OnlyPrints w.host)
    (hbuild : build (Eval.value Natives.host depth) document style [] w = some (.ok s, w'))
    (hret : ∀ items, Item.ofText 0 document.text = .ok items → ∀ i ∈ items, ∀ f,
      i.value = .function f → f.ReturnsKeyword)
    (hacyclic : s.root.Acyclic) :
    Natives.OnlyPrints w'.host ∧
      (∀ unit text items, Item.ofText unit text = .ok items → ∀ i ∈ items, ∀ e : Expr,
        (Node.expr e).Below (.item i) →
        Run.Ends Natives.OnlyPrints fun n => Eval.value Natives.host n e s.env) ∧
      (Run.Ends Natives.OnlyPrints fun n => callMain (Eval.call Natives.host n) s) ∧
      ∀ name, Run.Ends Natives.OnlyPrints
        fun n => callFunction (Eval.call Natives.host n) s name := by
  have hprints := Natives.host_givesVoid
  obtain ⟨hroot, hw'⟩ := root_of_build hprints hw hbuild hret
  have hcalls : ∀ f, Lambda.Declared f →
      Eval.Calls Natives.host .ends Natives.OnlyPrints s.root f :=
    fun f hf => Eval.calls_end hprints hroot hacyclic hf
  refine ⟨hw', fun unit text items hitems i hi e he => ?_, ?_, fun name => ?_⟩
  · rcases (Item.plain_of_ofText hitems i hi).below he with ⟨f, rfl⟩ | hplain
    · have hliteral : Run.Delivers .ends Natives.OnlyPrints (fun _ => True)
          fun n => Eval.value Natives.host n (.function f) s.env :=
        .of_deeper (.deeper (.pure trivial) rfl)
      exact hliteral.to_ends
    · exact (Eval.plain_delivers hprints hcalls hroot hplain).to_ends
  · exact (start_delivers hprints hcalls hroot fun f span h => ⟨_, slot_of_main? h⟩).to_ends
  · exact (start_delivers hprints hcalls hroot fun f span h => ⟨_, slot_of_function? h⟩).to_ends

/-! ## A program without cycles -/

/-- A body that is a call with literals for its arguments mentions the name of what it calls. -/
theorem Block.mentions_of_call {id : Ident} {args : List Expr} {paren close span : Span}
    {name : String} (hargs : ∀ e ∈ args, ∃ l s, e = .literal l s)
    (h : (Node.block ⟨[.expr (.call (.name id) args paren close)], span⟩).Mentions name) :
    name = id.name := by
  let Named (n : Node) : Prop := ∀ id', n = .expr (.name id') → id'.name = id.name
  have hcall : (Node.expr (.call (.name id) args paren close)).All Named := by
    refine .intro (.expr (.name id) :: .mark paren :: args.map .expr) rfl nofun ?_
    refine List.forall_mem_cons.2 ⟨.leaf rfl (by rintro _ ⟨⟩; rfl), ?_⟩
    refine List.forall_mem_cons.2 ⟨.leaf rfl nofun, List.forall_mem_map.2 fun e he => ?_⟩
    obtain ⟨l, s, rfl⟩ := hargs e he
    exact .leaf rfl nofun
  have hstatement : (Node.statement (.expr (.call (.name id) args paren close))).All Named :=
    .intro [_] rfl nofun (List.forall_mem_singleton.2 hcall)
  have hblock : (Node.block ⟨[.expr (.call (.name id) args paren close)], span⟩).All Named :=
    .intro [_] rfl nofun (List.forall_mem_singleton.2 hstatement)
  obtain ⟨id', hbelow, rfl⟩ := h
  exact hblock _ hbelow id' rfl

/-- A scope has no cycle if the functions it binds refer to smaller ones only. -/
theorem Scope.acyclic_of_rank {root : Scope} (rank : Lambda → Nat)
    (h : ∀ f g, (∃ name, root.Binds name f) → f.Refers root g → rank g < rank f) :
    root.Acyclic := by
  intro f hcycle
  obtain ⟨e, -, hlast⟩ := Relation.TransGen.tail'_iff.1 hcycle
  have hsmaller : ∀ g, Relation.TransGen (Lambda.Refers root) f g → rank g < rank f := by
    intro g hg
    induction hg with
    | single hg => exact h f _ hlast.bound hg
    | tail hg hstep ih =>
      obtain ⟨_, -, hprev⟩ := Relation.TransGen.tail'_iff.1 hg
      exact (h _ _ hprev.bound hstep).trans ih
  exact Nat.lt_irrefl _ (hsmaller f hcycle)

/-- The functions of `relayed`: `void say() { println("a") }` and `void main() { speak() }`. -/
def saying : Lambda :=
  ⟨0, .literal (.type .void) ⟨18, 22⟩, [],
    ⟨[.expr (.call (.name ⟨"println", ⟨31, 38⟩⟩) [.literal (.string "a") ⟨39, 42⟩]
      ⟨38, 39⟩ ⟨42, 43⟩)], ⟨29, 45⟩⟩⟩

def relaying : Lambda :=
  ⟨0, .literal (.type .void) ⟨46, 50⟩, [],
    ⟨[.expr (.call (.name ⟨"speak", ⟨60, 65⟩⟩) [] ⟨65, 66⟩ ⟨66, 67⟩)], ⟨58, 69⟩⟩⟩

/-- A program whose `main` calls another function by a second name. -/
def relayed : Document :=
  ⟨"main", "const speak = say void say() \x7b println(\"a\") \x7d void main() \x7b speak() \x7d"⟩

def relayedItems : List Item :=
  [⟨⟨"speak", ⟨6, 11⟩⟩, .name ⟨"say", ⟨14, 17⟩⟩⟩, ⟨⟨"say", ⟨23, 26⟩⟩, .function saying⟩,
    ⟨⟨"main", ⟨51, 55⟩⟩, .function relaying⟩]

def relayedRoot : Scope :=
  ("speak", .ofConstant (.function (.defined saying)) ⟨14, 17⟩) ::
    ("main", .ofConstant (.function (.defined relaying)) relaying.span) ::
    ("say", .ofConstant (.function (.defined saying)) saying.span) :: Natives.printRoot

/-- The program reads as its items. -/
theorem relayed_items : Item.ofText 0 relayed.text = .ok relayedItems := by
  have hts : Token.ofText relayed.text =
      .ok [⟨.const, ⟨0, 5⟩, "const"⟩, ⟨.identifier, ⟨6, 11⟩, "speak"⟩,
        ⟨.symbol .equals, ⟨12, 13⟩, "="⟩, ⟨.identifier, ⟨14, 17⟩, "say"⟩,
        ⟨.typeName .void, ⟨18, 22⟩, "void"⟩, ⟨.identifier, ⟨23, 26⟩, "say"⟩,
        ⟨.symbol .leftParen, ⟨26, 27⟩, "("⟩, ⟨.symbol .rightParen, ⟨27, 28⟩, ")"⟩,
        ⟨.symbol .leftBrace, ⟨29, 30⟩, "\x7b"⟩, ⟨.identifier, ⟨31, 38⟩, "println"⟩,
        ⟨.symbol .leftParen, ⟨38, 39⟩, "("⟩, ⟨.string "a", ⟨39, 42⟩, "\"a\""⟩,
        ⟨.symbol .rightParen, ⟨42, 43⟩, ")"⟩, ⟨.symbol .rightBrace, ⟨44, 45⟩, "\x7d"⟩,
        ⟨.typeName .void, ⟨46, 50⟩, "void"⟩, ⟨.identifier, ⟨51, 55⟩, "main"⟩,
        ⟨.symbol .leftParen, ⟨55, 56⟩, "("⟩, ⟨.symbol .rightParen, ⟨56, 57⟩, ")"⟩,
        ⟨.symbol .leftBrace, ⟨58, 59⟩, "\x7b"⟩, ⟨.identifier, ⟨60, 65⟩, "speak"⟩,
        ⟨.symbol .leftParen, ⟨65, 66⟩, "("⟩, ⟨.symbol .rightParen, ⟨66, 67⟩, ")"⟩,
        ⟨.symbol .rightBrace, ⟨68, 69⟩, "\x7d"⟩] := eq_ok_of_toOption (by decide +kernel)
  exact (Item.ofText_eq_program hts).trans rfl

theorem relayed_binds {name : String} {f : Lambda} (h : relayedRoot.Binds name f) :
    name = "main" ∧ f = relaying ∨ name ∈ ["speak", "say"] ∧ f = saying := by
  obtain ⟨slot, hslot, hf⟩ := h
  simp only [relayedRoot, Natives.printRoot, Scope.get?_cons] at hslot
  split at hslot
  · cases hslot; cases hf
    exact .inr ⟨by simp [*], rfl⟩
  split at hslot
  · cases hslot; cases hf
    exact .inl ⟨‹_›, rfl⟩
  split at hslot
  · cases hslot; cases hf
    exact .inr ⟨by simp [*], rfl⟩
  split at hslot
  · cases hslot; cases hf
  · cases hslot

theorem relayed_acyclic : relayedRoot.Acyclic := by
  refine Scope.acyclic_of_rank (fun f => f.body.span.start) ?_
  rintro f g ⟨_, hf⟩ ⟨name, hmentions, hg⟩
  have hbody : (Node.block f.body).Mentions name := by
    rcases hmentions with ⟨p, hp, -⟩ | hbody
    · rcases relayed_binds hf with ⟨-, rfl⟩ | ⟨-, rfl⟩ <;> cases hp
    · exact hbody
  rcases relayed_binds hf with ⟨-, rfl⟩ | ⟨-, rfl⟩
  · obtain rfl := Block.mentions_of_call (by simp) hbody
    rcases relayed_binds hg with ⟨hname, rfl⟩ | ⟨hname, rfl⟩
    · simp at hname
    · decide
  · obtain rfl := Block.mentions_of_call (by simp) hbody
    rcases relayed_binds hg with ⟨hname, rfl⟩ | ⟨hname, rfl⟩ <;> simp at hname

theorem Session.ends_of_acyclic_relayed :
    ∃ s w', build (Eval.value Natives.host 3) relayed .plain []
        ⟨Sink.empty none, [], Natives.initial⟩ = some (.ok s, w') ∧
      s.root.Acyclic ∧
      Run.Ends Natives.OnlyPrints fun n => callMain (Eval.call Natives.host n) s := by
  obtain ⟨w₁, hread⟩ :=
    Parse.exists_read 0 relayed.text (⟨Sink.empty none, [], Natives.initial⟩ : World Natives)
  rw [relayed_items] at hread
  obtain ⟨w', hbuild⟩ : ∃ w', build (Eval.value Natives.host 3) relayed .plain []
      ⟨Sink.empty none, [], Natives.initial⟩ = some (.ok ⟨relayed, .plain, relayedRoot⟩, w') := by
    rw [build, Run.bind_of_ok hread]
    exact ⟨_, rfl⟩
  have hret : ∀ items, Item.ofText 0 relayed.text = .ok items → ∀ i ∈ items, ∀ f,
      i.value = .function f → f.ReturnsKeyword := by
    intro items h
    rw [relayed_items] at h
    cases h
    simp only [relayedItems, List.forall_mem_cons]
    refine ⟨?_, ?_, ?_, List.forall_mem_nil _⟩
    · rintro _ ⟨⟩
    · rintro _ ⟨⟩
      exact ⟨.void, _, rfl⟩
    · rintro _ ⟨⟩
      exact ⟨.void, _, rfl⟩
  have hprints : Natives.OnlyPrints Natives.initial := rfl
  have hends := ends_of_acyclic (w := ⟨Sink.empty none, [], Natives.initial⟩) hprints hbuild hret
    relayed_acyclic
  exact ⟨_, w', hbuild, relayed_acyclic, hends.2.2.1⟩

end ExprLang
