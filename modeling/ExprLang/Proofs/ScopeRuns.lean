import ExprLang.Scope
import Mathlib.Data.List.Infix

/-!
# Runs of operations on scopes

A chain of scopes changes by five operations (`Env.Op`), one after the other. What a single one can
do to it is said once (`Env.Step`), among it that an operation that fails has changed nothing by
then (`Env.eq_of_perform_eq_error`). What holds after every run follows from it.

* A slot that has a value has one of its type, and the slot of a constant has one
  (`Env.afterAll_sound`).
* A constant keeps its slot for as long as its scope is not left, whatever happens in that scope and
  in those inside it (`Env.get?_outTo_afterAll`).
-/

namespace ExprLang

/-- A value, if there is one, is of the type of its slot, and a constant has one. -/
structure Slot.Sound (s : Slot) : Prop where
  typed : ∀ v, s.value? = some v → v.ty = s.type
  filled : s.constant = true → ∃ v, s.value? = some v

theorem Slot.sound_ofConstant (value : Value) (origin : Span) :
    (Slot.ofConstant value origin).Sound := by
  refine ⟨fun v hv => ?_, fun _ => ⟨value, rfl⟩⟩
  cases hv
  rfl

theorem Slot.sound_ofVariable (t : Ty) : (Slot.ofVariable t).Sound := by
  refine ⟨fun v hv => ?_, fun h => ?_⟩
  · cases hv
  · cases h

/-- A variable that is given a value of its type. -/
theorem Slot.Sound.assign {s : Slot} {v : Value} (hv : v.ty = s.type) (origin : Span) :
    Slot.Sound { s with content := some (v, origin) } := by
  refine ⟨fun u hu => ?_, fun _ => ⟨v, rfl⟩⟩
  cases hu
  exact hv

namespace Scope

/-- Every slot of the scope is sound, also one that a later declaration would hide. -/
def Sound (scope : Scope) : Prop := ∀ entry ∈ scope, entry.2.Sound

theorem Sound.cons {scope : Scope} (h : scope.Sound) {slot : Slot} (hslot : slot.Sound)
    (name : String) : Sound ((name, slot) :: scope) := by
  intro entry hentry
  rcases List.mem_cons.1 hentry with rfl | hentry
  · exact hslot
  · exact h entry hentry

theorem Sound.update {scope : Scope} (h : scope.Sound) {slot : Slot} (hslot : slot.Sound)
    (name : String) : (scope.update name slot).Sound := by
  induction scope with
  | nil => exact h
  | cons entry rest ih =>
    obtain ⟨n, s⟩ := entry
    have hrest : Sound rest := fun entry hentry => h entry (List.mem_cons_of_mem _ hentry)
    unfold Scope.update
    split
    · exact hrest.cons hslot n
    · exact (ih hrest).cons (h (n, s) List.mem_cons_self) n

/-- A change of one slot leaves the others. -/
theorem get?_update_of_ne {n name : String} (h : name ≠ n) (slot : Slot) (scope : Scope) :
    (scope.update n slot).get? name = scope.get? name := by
  induction scope with
  | nil => rfl
  | cons entry rest ih =>
    obtain ⟨m, s⟩ := entry
    unfold Scope.update
    by_cases hm : m = n
    · subst hm
      simp [get?_cons, h]
    · have hne : (m == n) = false := beq_eq_false_iff_ne.2 hm
      simp [hne, get?_cons, ih]

end Scope

namespace Env

/-! ## Operations -/

/-- An operation on a chain of scopes. -/
inductive Op where
  | enter
  | leave
  | declareConstant (name : String) (value : Value) (origin : Span)
  | declareVariable (name : String) (t : Ty)
  | set (name : String) (value : Value) (origin : Span)

/-- Carries an operation out. Entering and leaving always succeed. -/
def perform (env : Env) : Op → Outcome
  | .enter => .ok () env.enter
  | .leave => .ok () env.leave
  | .declareConstant name value origin => env.declareConstant name value origin
  | .declareVariable name t => env.declareVariable name t
  | .set name value origin => env.set name value origin

/-- The name that an operation declares, and the slot it gets. -/
def Op.declared? : Op → Option (String × Slot)
  | .declareConstant name value origin => some (name, .ofConstant value origin)
  | .declareVariable name t => some (name, .ofVariable t)
  | _ => none

/-- The chain that an operation leaves behind, whether it succeeds or not. -/
def after (env : Env) (op : Op) : Env := (env.perform op).chain

/-- The chain after operations, whether they succeed or not. -/
def afterAll (env : Env) (ops : List Op) : Env := ops.foldl after env

/-- What an operation can do to a chain. -/
inductive Step (env : Env) : Op → Env → Prop
  | enter : Step env .enter env.enter
  | leave : Step env .leave env.leave
  | failed {op : Op} {e : ScopeError} (h : env.perform op = .error e env) : Step env op env
  | declared {op : Op} {name : String} {slot : Slot} (h : op.declared? = some (name, slot))
      (free : env.innermost.get? name = none) :
    Step env op (env.withInnermost ((name, slot) :: env.innermost))
  | assigned {name : String} {value v : Value} {origin : Span} {slot : Slot}
      (found : env.innermost.get? name = some slot) (mutable : slot.constant = false)
      (coerced : value.coerce slot.type = some v) :
    Step env (.set name value origin)
      (env.withInnermost (env.innermost.update name { slot with content := some (v, origin) }))

theorem insert_eq_ok {env env' : Env} {name : String} {slot : Slot}
    (h : env.insert name slot = .ok () env') :
    env.innermost.get? name = none ∧ env' = env.withInnermost ((name, slot) :: env.innermost) := by
  cases hname : env.innermost.contains name with
  | true =>
    rw [insert_of_contains hname] at h
    cases h
  | false =>
    rw [insert_of_not_contains hname] at h
    cases h
    exact ⟨Scope.get?_of_not_contains hname, rfl⟩

/-- A name that cannot be added is not added. -/
theorem eq_of_insert_eq_error {env env' : Env} {name : String} {slot : Slot} {e : ScopeError}
    (h : env.insert name slot = .error e env') : env' = env := by
  cases hname : env.innermost.contains name with
  | true =>
    rw [insert_of_contains hname] at h
    cases h
    rfl
  | false =>
    rw [insert_of_not_contains hname] at h
    cases h

theorem set_eq_ok {env env' : Env} {name : String} {value : Value} {origin : Span}
    (h : env.set name value origin = .ok () env') :
    ∃ slot v, env.innermost.get? name = some slot ∧ slot.constant = false ∧
      value.coerce slot.type = some v ∧
      env' = env.withInnermost
        (env.innermost.update name { slot with content := some (v, origin) }) := by
  rw [set_eq] at h
  split at h
  · split at h <;> cases h
  · rename_i slot hslot
    split at h
    · cases h
    · rename_i hmutable
      split at h
      · cases h
      · rename_i v hv
        cases h
        exact ⟨slot, v, hslot, Bool.eq_false_iff.2 hmutable, hv, rfl⟩

/-- The slot of a variable is written last, when nothing can fail any more. -/
theorem eq_of_set_eq_error {env env' : Env} {name : String} {value : Value} {origin : Span}
    {e : ScopeError} (h : env.set name value origin = .error e env') : env' = env := by
  rw [set_eq] at h
  split at h
  · split at h <;> cases h <;> rfl
  · split at h
    · cases h
      rfl
    · split at h <;> cases h
      rfl

/-- An operation that fails leaves the chain behind that it was given. -/
theorem eq_of_perform_eq_error {env env' : Env} {op : Op} {e : ScopeError}
    (h : env.perform op = .error e env') : env' = env := by
  cases op with
  | enter => cases h
  | leave => cases h
  | declareConstant name value origin => exact eq_of_insert_eq_error h
  | declareVariable name t => exact eq_of_insert_eq_error h
  | set name value origin => exact eq_of_set_eq_error h

theorem step_after (env : Env) (op : Op) : env.Step op (env.after op) := by
  unfold after
  cases h : env.perform op with
  | ok _ env' =>
    cases op with
    | enter => cases h; exact .enter
    | leave => cases h; exact .leave
    | declareConstant name value origin =>
      obtain ⟨hfree, rfl⟩ := insert_eq_ok h
      exact .declared rfl hfree
    | declareVariable name t =>
      obtain ⟨hfree, rfl⟩ := insert_eq_ok h
      exact .declared rfl hfree
    | set name value origin =>
      obtain ⟨slot, v, hslot, hmutable, hv, rfl⟩ := set_eq_ok h
      exact .assigned hslot hmutable hv
  | error e env' =>
    obtain rfl := eq_of_perform_eq_error h
    exact .failed h

/-! ## Properties of all scopes -/

theorem innermost_mem_scopes (env : Env) : env.innermost ∈ env.scopes := by
  obtain ⟨inner, root⟩ := env
  cases inner <;> simp [innermost, scopes]

theorem forall_scopes_empty {P : Scope → Prop} (hnil : P []) :
    ∀ scope ∈ Env.empty.scopes, P scope := List.forall_mem_singleton.2 hnil

theorem forall_scopes_enter {P : Scope → Prop} {env : Env} (hnil : P [])
    (h : ∀ scope ∈ env.scopes, P scope) : ∀ scope ∈ env.enter.scopes, P scope :=
  List.forall_mem_cons.2 ⟨hnil, h⟩

theorem forall_scopes_leave {P : Scope → Prop} {env : Env} (h : ∀ scope ∈ env.scopes, P scope) :
    ∀ scope ∈ env.leave.scopes, P scope := by
  intro scope hscope
  apply h scope
  simp only [scopes, leave, List.mem_append] at hscope ⊢
  exact hscope.imp List.mem_of_mem_tail id

theorem forall_scopes_withInnermost {P : Scope → Prop} {env : Env}
    (h : ∀ scope ∈ env.scopes, P scope) {scope : Scope} (hscope : P scope) :
    ∀ s ∈ (env.withInnermost scope).scopes, P s := by
  obtain ⟨inner, root⟩ := env
  cases inner with
  | nil => exact List.forall_mem_singleton.2 hscope
  | cons first outer => exact List.forall_mem_cons.2 ⟨hscope, (List.forall_mem_cons.1 h).2⟩

/-! ## Sound slots -/

theorem Op.sound_of_declared? {op : Op} {name : String} {slot : Slot}
    (h : op.declared? = some (name, slot)) : slot.Sound := by
  cases op with
  | declareConstant n value origin => cases h; exact Slot.sound_ofConstant value origin
  | declareVariable n t => cases h; exact Slot.sound_ofVariable t
  | _ => cases h

/-- Every slot of every scope is sound. -/
def Sound (env : Env) : Prop := ∀ scope ∈ env.scopes, scope.Sound

theorem Sound.empty : Env.empty.Sound := forall_scopes_empty (List.forall_mem_nil _)

/-- One operation keeps all slots sound: what it declares is sound, and what it assigns was coerced
to the type of its slot. -/
theorem Sound.after {env : Env} (h : env.Sound) (op : Op) : (env.after op).Sound := by
  have hinnermost : env.innermost.Sound := h _ env.innermost_mem_scopes
  have hstep := env.step_after op
  generalize env.after op = next at hstep ⊢
  cases hstep with
  | enter => exact forall_scopes_enter (List.forall_mem_nil _) h
  | leave => exact forall_scopes_leave h
  | failed _ => exact h
  | declared hslot _ =>
    exact forall_scopes_withInnermost h (hinnermost.cons (Op.sound_of_declared? hslot) _)
  | assigned _ _ coerced =>
    have hslot := Slot.Sound.assign (Value.ty_of_coerce coerced)
    exact forall_scopes_withInnermost h (hinnermost.update (hslot _) _)

theorem afterAll_sound {env : Env} (h : env.Sound) (ops : List Op) : (env.afterAll ops).Sound := by
  induction ops generalizing env with
  | nil => exact h
  | cons op ops ih => exact ih (h.after op)

/-! ## The scopes around a scope -/

/-- The chain from the scope at a depth outward. -/
def outTo (env : Env) (depth : Nat) : Env :=
  { env with inner := env.inner.drop (env.depth - depth) }

@[simp] theorem outTo_depth (env : Env) : env.outTo env.depth = env := by
  simp [outTo]

@[simp] theorem depth_withInnermost (env : Env) (scope : Scope) :
    (env.withInnermost scope).depth = env.depth := by
  obtain ⟨inner, root⟩ := env
  cases inner <;> rfl

@[simp] theorem innermost_withInnermost (env : Env) (scope : Scope) :
    (env.withInnermost scope).innermost = scope := by
  obtain ⟨inner, root⟩ := env
  cases inner <;> rfl

theorem outTo_enter {env : Env} {depth : Nat} (h : depth ≤ env.depth) :
    env.enter.outTo depth = env.outTo depth := by
  unfold outTo
  have hdrop : env.enter.depth - depth = (env.depth - depth) + 1 := by
    simp only [Env.depth, Env.enter, List.length_cons] at h ⊢
    omega
  rw [hdrop]
  rfl

theorem outTo_leave {env : Env} {depth : Nat} (h : depth ≤ env.leave.depth) :
    env.leave.outTo depth = env.outTo depth := by
  obtain ⟨inner, root⟩ := env
  cases inner with
  | nil => rfl
  | cons scope outer =>
    have hdrop : outer.length + 1 - depth = (outer.length - depth) + 1 := by
      change depth ≤ outer.length at h
      omega
    simp [outTo, leave, Env.depth, hdrop]

/-- A scope is changed without a change to those around it. -/
theorem outTo_withInnermost {env : Env} {depth : Nat} (h : depth < env.depth) (scope : Scope) :
    (env.withInnermost scope).outTo depth = env.outTo depth := by
  obtain ⟨inner, root⟩ := env
  cases inner with
  | nil => exact absurd h (Nat.not_lt_zero depth)
  | cons first outer =>
    have hdrop : outer.length + 1 - depth = (outer.length - depth) + 1 := by
      simp only [Env.depth, List.length_cons] at h
      omega
    simp only [outTo, withInnermost, Env.depth, List.length_cons, hdrop, List.drop_succ_cons]

theorem get?_of_innermost {env : Env} {name : String} {slot : Slot}
    (h : env.innermost.get? name = some slot) : env.get? name = some slot := by
  obtain ⟨inner, root⟩ := env
  cases inner with
  | nil =>
    change root.get? name = some slot at h
    simp [get?, scopes, find?, h]
  | cons scope outer =>
    change scope.get? name = some slot at h
    simp [get?, scopes, find?, h]

/-! ## Constants -/

/-- One operation keeps a constant of a scope that it does not leave. In the scope itself the name
is taken and cannot be assigned, and the scopes inside do not reach it. -/
theorem innermost_outTo_after {env : Env} {op : Op} {depth : Nat} {name : String} {value : Value}
    {origin : Span} (hbefore : depth ≤ env.depth) (hafter : depth ≤ (env.after op).depth)
    (h : (env.outTo depth).innermost.get? name = some (.ofConstant value origin)) :
    ((env.after op).outTo depth).innermost.get? name = some (.ofConstant value origin) := by
  have hchange : ∀ scope : Scope, (env.innermost.get? name = some (.ofConstant value origin) →
      scope.get? name = some (.ofConstant value origin)) →
      ((env.withInnermost scope).outTo depth).innermost.get? name =
        some (.ofConstant value origin) := by
    intro scope hscope
    by_cases hdepth : depth < env.depth
    · rw [outTo_withInnermost hdepth]
      exact h
    · obtain rfl : depth = env.depth := by omega
      rw [outTo_depth] at h
      rw [← depth_withInnermost env scope, outTo_depth, innermost_withInnermost]
      exact hscope h
  have hstep := env.step_after op
  generalize env.after op = next at hstep hafter ⊢
  cases hstep with
  | enter => rwa [outTo_enter hbefore]
  | leave => rwa [outTo_leave hafter]
  | failed _ => exact h
  | declared _ free =>
    refine hchange _ fun hname => ?_
    rw [Scope.get?_cons, if_neg, hname]
    rintro rfl
    rw [hname] at free
    cases free
  | assigned found mutable _ =>
    refine hchange _ fun hname => ?_
    rw [Scope.get?_update_of_ne, hname]
    rintro rfl
    rw [hname] at found
    cases found
    cases mutable

/-- A run keeps a constant of a scope that it does not leave. -/
theorem innermost_outTo_afterAll {env : Env} {ops : List Op} {depth : Nat} {name : String}
    {value : Value} {origin : Span}
    (hdepth : ∀ front, front <+: ops → depth ≤ (env.afterAll front).depth)
    (h : (env.outTo depth).innermost.get? name = some (.ofConstant value origin)) :
    ((env.afterAll ops).outTo depth).innermost.get? name = some (.ofConstant value origin) := by
  induction ops generalizing env with
  | nil => exact h
  | cons op ops ih =>
    have hbefore : depth ≤ env.depth := hdepth [] List.nil_prefix
    have hafter : depth ≤ (env.after op).depth := hdepth [op] ⟨ops, rfl⟩
    refine ih (fun front hfront => ?_) (innermost_outTo_after hbefore hafter h)
    exact hdepth (op :: front) (List.cons_prefix_cons.2 ⟨rfl, hfront⟩)

theorem declareConstant_eq_ok {env env' : Env} {name : String} {value : Value} {origin : Span}
    (h : env.declareConstant name value origin = .ok () env') :
    env'.innermost.get? name = some (.ofConstant value origin) := by
  obtain ⟨_, rfl⟩ := insert_eq_ok h
  rw [innermost_withInnermost, Scope.get?_cons_self]

/-- After every run of operations from an empty root, all slots are sound. A constant that can then
be declared is found in its scope, with the slot it was declared with, after every further run that
does not leave that scope. -/
theorem get?_outTo_afterAll (ops : List Op) :
    (Env.empty.afterAll ops).Sound ∧
      ∀ name value origin env,
        (Env.empty.afterAll ops).declareConstant name value origin = .ok () env →
        ∀ later : List Op, (∀ front, front <+: later → env.depth ≤ (env.afterAll front).depth) →
          ((env.afterAll later).outTo env.depth).get? name =
            some (.ofConstant value origin) := by
  refine ⟨afterAll_sound Sound.empty ops, fun name value origin env hdeclare later hdepth => ?_⟩
  apply get?_of_innermost
  apply innermost_outTo_afterAll hdepth
  rw [outTo_depth]
  exact declareConstant_eq_ok hdeclare

/-- A constant of an inner scope that is assigned to, hidden in a scope inside it, and declared
again. -/
theorem get?_outTo_afterAll_attacked :
    let constant : Slot := .ofConstant (.string "kept") ⟨0, 4⟩
    let env : Env := ⟨[[("x", constant), ("n", .ofVariable .string)]], []⟩
    let later : List Op := [.set "x" .void ⟨5, 9⟩, .enter, .set "x" .void ⟨5, 9⟩,
      .declareConstant "x" (.string "hidden") ⟨5, 9⟩, .leave, .declareVariable "x" .void,
      .set "n" (.string "new") ⟨5, 9⟩]
    (Env.empty.afterAll [.enter, .leave, .enter, .declareVariable "n" .string]).declareConstant
        "x" (.string "kept") ⟨0, 4⟩ = .ok () env ∧
      ((env.afterAll later).outTo 1).get? "x" = some constant := by
  intro constant env later
  have hdeclare : (Env.empty.afterAll
      [.enter, .leave, .enter, .declareVariable "n" .string]).declareConstant
        "x" (.string "kept") ⟨0, 4⟩ = .ok () env := rfl
  have hdepth : ∀ front, front <+: later → env.depth ≤ (env.afterAll front).depth := by
    intro front hfront
    have hall : ∀ front ∈ later.inits, env.depth ≤ (env.afterAll front).depth := by decide
    exact hall front ((List.mem_inits front later).2 hfront)
  have hkept := (get?_outTo_afterAll _).2 "x" _ _ env hdeclare later hdepth
  exact ⟨hdeclare, hkept⟩

end Env

end ExprLang
