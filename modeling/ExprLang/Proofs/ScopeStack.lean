import ExprLang.Proofs.ScopeRuns

/-!
# Scopes as a stack

What the operations on a chain of scopes do, told by the entries of the scopes. In a chain that can
be reached no scope declares a name twice (`Env.Reachable.distinct`), so that an entry is what a
lookup finds.

* When an operation fails and with which error is said by `Env.Refuses`, without the operations.
* One that succeeds changes the entry of one name in the innermost scope (`Env.Rewritten`).
* What happens in a scope ends with it: the chain is what it was once the scope is left
  (`Env.leave_afterAll_enter`).
-/

namespace ExprLang

namespace Scope

/-- The scope has an entry for a name, with a slot. -/
def Declares (scope : Scope) (name : String) (slot : Slot) : Prop := (name, slot) ∈ scope

/-- The scope has no entry for a name. -/
def Free (scope : Scope) (name : String) : Prop := ∀ slot, ¬scope.Declares name slot

/-- No name has two entries. -/
def Distinct (scope : Scope) : Prop := (scope.map Prod.fst).Nodup

theorem get?_eq_none_iff {scope : Scope} {name : String} :
    scope.get? name = none ↔ scope.Free name := by
  unfold get? Free Declares
  rw [List.lookup_eq_none_iff]
  constructor
  · intro h slot hslot
    exact bne_iff_ne.1 (h _ hslot) rfl
  · intro h entry hentry
    refine bne_iff_ne.2 ?_
    rintro rfl
    exact h entry.2 hentry

theorem declares_of_get? {scope : Scope} {name : String} {slot : Slot}
    (h : scope.get? name = some slot) : scope.Declares name slot := by
  obtain ⟨front, rest, rfl, -⟩ := List.lookup_eq_some_iff.1 h
  exact List.mem_append_right _ List.mem_cons_self

namespace Distinct

/-- Where no name has two entries, the entries are what a lookup finds. -/
theorem get?_eq_some_iff {scope : Scope} (h : scope.Distinct) {name : String} {slot : Slot} :
    scope.get? name = some slot ↔ scope.Declares name slot := by
  refine ⟨declares_of_get?, fun hslot => ?_⟩
  induction scope with
  | nil => cases hslot
  | cons entry rest ih =>
    obtain ⟨n, s⟩ := entry
    obtain ⟨hnew, hrest⟩ := List.nodup_cons.1 h
    rw [get?_cons]
    rcases List.mem_cons.1 hslot with heq | hmem
    · cases heq
      exact if_pos rfl
    · rw [if_neg, ih hrest hmem]
      rintro rfl
      exact hnew (List.mem_map.2 ⟨_, hmem, rfl⟩)

theorem cons {scope : Scope} (h : scope.Distinct) {name : String} (hfree : scope.Free name)
    (slot : Slot) : Distinct ((name, slot) :: scope) := by
  refine List.nodup_cons.2 ⟨fun hmem => ?_, h⟩
  obtain ⟨entry, hentry, rfl⟩ := List.mem_map.1 hmem
  exact hfree entry.2 hentry

end Distinct

/-- A change of a slot changes no name. -/
theorem map_fst_update (name : String) (slot : Slot) (scope : Scope) :
    (scope.update name slot).map Prod.fst = scope.map Prod.fst := by
  induction scope with
  | nil => rfl
  | cons entry rest ih =>
    unfold update
    split
    · rfl
    · exact congrArg (entry.1 :: ·) ih

theorem Distinct.update {scope : Scope} (h : scope.Distinct) (name : String) (slot : Slot) :
    (scope.update name slot).Distinct := by
  unfold Distinct
  rw [map_fst_update]
  exact h

theorem get?_update_self {scope : Scope} {name : String} {old : Slot}
    (h : scope.get? name = some old) (slot : Slot) :
    (scope.update name slot).get? name = some slot := by
  induction scope with
  | nil => cases h
  | cons entry rest ih =>
    obtain ⟨n, s⟩ := entry
    unfold Scope.update
    rw [get?_cons] at h
    by_cases hn : name = n
    · subst hn
      simp [get?_cons]
    · rw [if_neg hn] at h
      have hne : (n == name) = false := beq_eq_false_iff_ne.2 (Ne.symm hn)
      simp [hne, get?_cons, hn, ih h]

end Scope

namespace Env

/-! ## Chains that can be reached -/

/-- The chains that operations lead to from an empty root, and those that a function called from
them starts with. -/
inductive Reachable : Env → Prop
  | empty : Reachable Env.empty
  | after {env : Env} (h : Reachable env) (op : Op) : Reachable (env.after op)
  | atRoot {env : Env} (h : Reachable env) : Reachable env.atRoot

/-- No scope of the chain declares a name twice. -/
def Distinct (env : Env) : Prop := ∀ scope ∈ env.scopes, scope.Distinct

/-- A name that is declared is not declared yet, and one that is assigned stays where it is. -/
theorem Distinct.after {env : Env} (h : env.Distinct) (op : Op) : (env.after op).Distinct := by
  have hinnermost : env.innermost.Distinct := h _ env.innermost_mem_scopes
  have hstep := env.step_after op
  generalize env.after op = next at hstep ⊢
  cases hstep with
  | enter => exact forall_scopes_enter List.nodup_nil h
  | leave => exact forall_scopes_leave h
  | failed _ => exact h
  | declared _ free =>
    exact forall_scopes_withInnermost h (hinnermost.cons (Scope.get?_eq_none_iff.1 free) _)
  | assigned _ _ _ => exact forall_scopes_withInnermost h (hinnermost.update _ _)

theorem Reachable.distinct {env : Env} (h : env.Reachable) : env.Distinct := by
  induction h with
  | empty => exact forall_scopes_empty List.nodup_nil
  | after _ op ih => exact ih.after op
  | atRoot _ ih =>
    exact List.forall_mem_singleton.2 (ih _ (List.mem_append_right _ List.mem_cons_self))

/-! ## Lookup -/

/-- The slot is that of the innermost scope that declares the name. -/
def Shows (env : Env) (name : String) (slot : Slot) : Prop :=
  ∃ inside scope around, env.scopes = inside ++ scope :: around ∧
    (∀ s ∈ inside, s.Free name) ∧ scope.Declares name slot

theorem find?_eq_findSome? (name : String) (scopes : List Scope) :
    find? name scopes = scopes.findSome? (·.get? name) := by
  induction scopes with
  | nil => rfl
  | cons scope outer ih =>
    simp only [find?, List.findSome?_cons, ih]
    cases scope.get? name <;> rfl

theorem get?_eq_some_iff {env : Env} (h : env.Distinct) {name : String} {slot : Slot} :
    env.get? name = some slot ↔ env.Shows name slot := by
  rw [get?, find?_eq_findSome?, List.findSome?_eq_some_iff]
  constructor
  · rintro ⟨inside, scope, around, hscopes, hslot, hfree⟩
    refine ⟨inside, scope, around, hscopes, fun s hs => ?_, Scope.declares_of_get? hslot⟩
    exact Scope.get?_eq_none_iff.1 (hfree s hs)
  · rintro ⟨inside, scope, around, hscopes, hfree, hslot⟩
    have hmem : scope ∈ env.scopes := hscopes ▸ List.mem_append_right _ List.mem_cons_self
    refine ⟨inside, scope, around, hscopes, (h scope hmem).get?_eq_some_iff.2 hslot, fun s hs => ?_⟩
    exact Scope.get?_eq_none_iff.2 (hfree s hs)

theorem find?_eq_none_iff {name : String} {scopes : List Scope} :
    find? name scopes = none ↔ ∀ scope ∈ scopes, scope.Free name := by
  rw [find?_eq_findSome?, List.findSome?_eq_none_iff]
  exact forall₂_congr fun _ _ => Scope.get?_eq_none_iff

/-! ## Operations that fail -/

theorem scopes_eq_cons (env : Env) : env.scopes = env.innermost :: env.around := by
  obtain ⟨inner, root⟩ := env
  cases inner <;> rfl

theorem around_withInnermost (env : Env) (scope : Scope) :
    (env.withInnermost scope).around = env.around := by
  obtain ⟨inner, root⟩ := env
  cases inner <;> rfl

/-- The operations that fail, each with its error: a declaration of a name that the innermost scope
has, and an assignment to a constant of that scope, to a name of the scopes around it only, to a
name of none, or to a variable of that scope that the value does not fit. -/
inductive Refuses (env : Env) : Op → ScopeError → Prop
  | taken {op : Op} {name : String} {slot old : Slot} (new : op.declared? = some (name, slot))
      (here : env.innermost.Declares name old) : Refuses env op (.alreadyExists name)
  | constant {name : String} {value : Value} {origin : Span} {slot : Slot}
      (here : env.innermost.Declares name slot) (constant : slot.constant = true) :
    Refuses env (.set name value origin) (.constant name)
  | outer {name : String} {value : Value} {origin : Span} {scope : Scope} {slot : Slot}
      (free : env.innermost.Free name) (outside : scope ∈ env.around)
      (there : scope.Declares name slot) : Refuses env (.set name value origin) (.outerScope name)
  | nowhere {name : String} {value : Value} {origin : Span}
      (free : ∀ scope ∈ env.scopes, scope.Free name) :
    Refuses env (.set name value origin) (.doesNotExist name)
  | unfit {name : String} {value : Value} {origin : Span} {slot : Slot}
      (here : env.innermost.Declares name slot) (mutable : slot.constant = false)
      (unfit : value.coerce slot.type = none) :
    Refuses env (.set name value origin) (.wrongType name slot.type value.ty)

/-- A declaration fails exactly if the innermost scope has the name. -/
theorem declare_error?_iff {env : Env} {op : Op} {name : String} {slot : Slot} {e : ScopeError}
    (h : op.declared? = some (name, slot)) :
    (env.insert name slot).error? = some e ↔ env.Refuses op e := by
  cases hname : env.innermost.contains name with
  | true =>
    rw [insert_of_contains hname]
    obtain ⟨old, hold⟩ := Option.isSome_iff_exists.1 hname
    constructor
    · rintro ⟨⟩
      exact .taken h (Scope.declares_of_get? hold)
    · intro hrefuses
      cases hrefuses with
      | taken new _ =>
        rw [h] at new
        cases new
        rfl
      | _ => cases h
  | false =>
    rw [insert_of_not_contains hname]
    have hfree := Scope.get?_eq_none_iff.1 (Scope.get?_of_not_contains hname)
    constructor
    · rintro ⟨⟩
    · intro hrefuses
      cases hrefuses with
      | taken new here =>
        rw [h] at new
        cases new
        exact absurd here (hfree _)
      | _ => cases h

theorem refuses_of_set {env : Env} {name : String} {value : Value} {origin : Span}
    {e : ScopeError} (h : (env.set name value origin).error? = some e) :
    env.Refuses (.set name value origin) e := by
  rw [set_eq] at h
  split at h
  · rename_i hhere
    have hfree := Scope.get?_eq_none_iff.1 hhere
    split at h
    · rename_i slot hslot
      cases h
      obtain ⟨scope, hscope, hget⟩ := exists_of_find? hslot
      exact .outer hfree hscope (Scope.declares_of_get? hget)
    · rename_i hnone
      cases h
      refine .nowhere ?_
      rw [scopes_eq_cons]
      exact List.forall_mem_cons.2 ⟨hfree, find?_eq_none_iff.1 hnone⟩
  · rename_i slot hslot
    have hhere := Scope.declares_of_get? hslot
    split at h
    · rename_i hconstant
      cases h
      exact .constant hhere hconstant
    · rename_i hmutable
      split at h
      · rename_i hunfit
        cases h
        exact .unfit hhere (Bool.eq_false_iff.2 hmutable) hunfit
      · cases h

theorem set_error?_iff {env : Env} (hdistinct : env.Distinct) {name : String} {value : Value}
    {origin : Span} {e : ScopeError} :
    (env.set name value origin).error? = some e ↔ env.Refuses (.set name value origin) e := by
  have hfound : ∀ {slot}, env.innermost.Declares name slot →
      env.innermost.get? name = some slot :=
    (hdistinct _ env.innermost_mem_scopes).get?_eq_some_iff.2
  refine ⟨refuses_of_set, fun h => ?_⟩
  rw [set_eq]
  cases h with
  | taken new _ => cases new
  | constant here hconstant =>
    simp only [hfound here, hconstant, if_true]
    rfl
  | outer free outside there =>
    have hsome : find? name env.around ≠ none :=
      fun hnone => find?_eq_none_iff.1 hnone _ outside _ there
    obtain ⟨slot, hslot⟩ := Option.ne_none_iff_exists'.1 hsome
    simp only [Scope.get?_eq_none_iff.2 free, hslot]
    rfl
  | nowhere free =>
    rw [scopes_eq_cons] at free
    obtain ⟨hhere, haround⟩ := List.forall_mem_cons.1 free
    simp only [Scope.get?_eq_none_iff.2 hhere, find?_eq_none_iff.2 haround]
    rfl
  | unfit here hmutable hunfit =>
    simp only [hfound here, hmutable, hunfit, Bool.false_eq_true, if_false]
    rfl

/-- An operation fails exactly where it is refused. -/
theorem perform_error?_iff {env : Env} (hdistinct : env.Distinct) {op : Op} {e : ScopeError} :
    (env.perform op).error? = some e ↔ env.Refuses op e := by
  cases op with
  | declareConstant name value origin => exact declare_error?_iff rfl
  | declareVariable name t => exact declare_error?_iff rfl
  | set name value origin => exact set_error?_iff hdistinct
  | enter =>
    refine ⟨fun h => ?_, fun h => ?_⟩
    · cases h
    · cases h with
      | taken new _ => cases new
  | leave =>
    refine ⟨fun h => ?_, fun h => ?_⟩
    · cases h
    · cases h with
      | taken new _ => cases new

/-! ## Operations that succeed -/

/-- The name that an operation declares or assigns. -/
def Op.target? : Op → Option String
  | .declareConstant name _ _ => some name
  | .declareVariable name _ => some name
  | .set name _ _ => some name
  | _ => none

/-- The slot that an operation gives a name: the one it declares, or that of the variable, with the
value as one of its type. -/
inductive Writes (env : Env) : Op → String → Slot → Prop
  | declared {op : Op} {name : String} {slot : Slot} (new : op.declared? = some (name, slot)) :
    Writes env op name slot
  | assigned {name : String} {value v : Value} {origin : Span} {slot : Slot}
      (here : env.innermost.Declares name slot) (mutable : slot.constant = false)
      (coerced : value.coerce slot.type = some v) :
    Writes env (.set name value origin) name { slot with content := some (v, origin) }

/-- The second chain is the first, but for one name of the innermost scope, which has the slot. -/
structure Rewritten (env : Env) (name : String) (slot : Slot) (next : Env) : Prop where
  around : next.around = env.around
  here : ∀ n s, next.innermost.Declares n s ↔
    if n = name then s = slot else env.innermost.Declares n s

/-- It is enough to know what lookups find in the new scope. -/
theorem rewritten_withInnermost {env : Env} (hdistinct : env.Distinct) {scope : Scope}
    (hscope : scope.Distinct) {name : String} {slot : Slot} (hself : scope.get? name = some slot)
    (hothers : ∀ n, n ≠ name → scope.get? n = env.innermost.get? n) :
    env.Rewritten name slot (env.withInnermost scope) := by
  have hinnermost : env.innermost.Distinct := hdistinct _ env.innermost_mem_scopes
  refine ⟨around_withInnermost env scope, fun n s => ?_⟩
  rw [innermost_withInnermost, ← hscope.get?_eq_some_iff]
  by_cases hn : n = name
  · subst hn
    rw [if_pos rfl, hself, Option.some_inj, eq_comm]
  · rw [if_neg hn, hothers n hn, hinnermost.get?_eq_some_iff]

theorem rewritten_of_insert {env next : Env} (hdistinct : env.Distinct) {name : String}
    {slot : Slot} (h : env.insert name slot = .ok () next) : env.Rewritten name slot next := by
  obtain ⟨hfree, rfl⟩ := insert_eq_ok h
  have hinnermost : env.innermost.Distinct := hdistinct _ env.innermost_mem_scopes
  refine rewritten_withInnermost hdistinct (hinnermost.cons (Scope.get?_eq_none_iff.1 hfree) slot)
    (Scope.get?_cons_self _ _ _) fun n hn => ?_
  rw [Scope.get?_cons, if_neg hn]

theorem rewritten_of_set {env next : Env} (hdistinct : env.Distinct) {name : String}
    {value : Value} {origin : Span} (h : env.set name value origin = .ok () next) :
    ∃ slot, env.Writes (.set name value origin) name slot ∧ env.Rewritten name slot next := by
  obtain ⟨slot, v, hslot, hmutable, hv, rfl⟩ := set_eq_ok h
  have hinnermost : env.innermost.Distinct := hdistinct _ env.innermost_mem_scopes
  refine ⟨_, .assigned (Scope.declares_of_get? hslot) hmutable hv, ?_⟩
  exact rewritten_withInnermost hdistinct (hinnermost.update _ _)
    (Scope.get?_update_self hslot _) fun n hn => Scope.get?_update_of_ne hn _ _

theorem rewritten_of_perform {env next : Env} (hdistinct : env.Distinct) {op : Op} {name : String}
    (hname : op.target? = some name) (h : env.perform op = .ok () next) :
    ∃ slot, env.Writes op name slot ∧ env.Rewritten name slot next := by
  cases op with
  | declareConstant n value origin =>
    cases hname
    exact ⟨_, .declared rfl, rewritten_of_insert hdistinct h⟩
  | declareVariable n t =>
    cases hname
    exact ⟨_, .declared rfl, rewritten_of_insert hdistinct h⟩
  | set n value origin =>
    cases hname
    exact rewritten_of_set hdistinct h
  | _ => cases hname

/-! ## Leaving a scope -/

/-- How many scopes are entered and not left after an operation, if so many were before it. None of
those that were entered earlier is left. -/
def Op.nesting (n : Nat) : Op → Option Nat
  | .enter => some (n + 1)
  | .leave => if n = 0 then none else some (n - 1)
  | _ => some n

/-- The operations leave the scopes that they enter, and no others. -/
def Op.Balanced (ops : List Op) : Prop := ops.foldlM Op.nesting 0 = some 0

theorem leave_eq_outTo {env : Env} {depth : Nat} (h : env.depth = depth + 1) :
    env.leave = env.outTo depth := by
  obtain ⟨inner, root⟩ := env
  change inner.length = depth + 1 at h
  simp [leave, outTo, Env.depth, h]

/-- A declaration or an assignment keeps the chain around the scope it is made in. -/
theorem outTo_after_of_target {env : Env} {op : Op} {name : String} (hname : op.target? = some name)
    {depth : Nat} (hdepth : depth < env.depth) :
    (env.after op).outTo depth = env.outTo depth ∧ (env.after op).depth = env.depth := by
  have hstep := env.step_after op
  generalize env.after op = next at hstep ⊢
  cases hstep with
  | enter => cases hname
  | leave => cases hname
  | failed _ => exact ⟨rfl, rfl⟩
  | declared _ _ => exact ⟨outTo_withInnermost hdepth _, depth_withInnermost _ _⟩
  | assigned _ _ _ => exact ⟨outTo_withInnermost hdepth _, depth_withInnermost _ _⟩

/-- An operation inside a scope keeps the chain around that scope. -/
theorem outTo_after {env : Env} {op : Op} {depth n m : Nat} (hdepth : env.depth = depth + 1 + n)
    (hop : op.nesting n = some m) :
    (env.after op).outTo depth = env.outTo depth ∧ (env.after op).depth = depth + 1 + m := by
  have hinside : depth < env.depth := by omega
  cases op with
  | enter =>
    cases hop
    have henter : env.enter.depth = env.depth + 1 := rfl
    exact ⟨outTo_enter (by omega), henter.trans (by omega)⟩
  | leave =>
    simp only [Op.nesting] at hop
    split at hop
    · cases hop
    · cases hop
      have hleave : env.leave.depth = env.depth - 1 := List.length_tail
      exact ⟨outTo_leave (by omega), hleave.trans (by omega)⟩
  | declareConstant name value origin =>
    cases hop
    exact hdepth ▸ outTo_after_of_target rfl hinside
  | declareVariable name t =>
    cases hop
    exact hdepth ▸ outTo_after_of_target rfl hinside
  | set name value origin =>
    cases hop
    exact hdepth ▸ outTo_after_of_target rfl hinside

/-- A run inside a scope keeps the chain around that scope. -/
theorem outTo_afterAll {env : Env} {ops : List Op} {depth n m : Nat}
    (hdepth : env.depth = depth + 1 + n) (hops : ops.foldlM Op.nesting n = some m) :
    (env.afterAll ops).outTo depth = env.outTo depth ∧
      (env.afterAll ops).depth = depth + 1 + m := by
  -- the number of scopes that are open inside the scope changes from one operation to the next
  induction ops generalizing env n with
  | nil =>
    cases hops
    exact ⟨rfl, hdepth⟩
  | cons op ops ih =>
    rw [List.foldlM_cons] at hops
    obtain ⟨k, hop, hrest⟩ := Option.bind_eq_some_iff.1 hops
    obtain ⟨hout, hnext⟩ := outTo_after hdepth hop
    obtain ⟨houtAll, hdepthAll⟩ := ih hnext hrest
    exact ⟨houtAll.trans hout, hdepthAll⟩

/-- Once a scope is left, nothing shows that it was entered. -/
theorem leave_afterAll_enter (env : Env) {ops : List Op} (h : Op.Balanced ops) :
    (env.enter.afterAll ops).leave = env := by
  have henter : env.enter.depth = env.depth + 1 + 0 := rfl
  obtain ⟨hout, hdepth⟩ := outTo_afterAll henter h
  calc (env.enter.afterAll ops).leave
      = (env.enter.afterAll ops).outTo env.depth := leave_eq_outTo hdepth
    _ = env.enter.outTo env.depth := hout
    _ = env.outTo env.depth := outTo_enter (Nat.le_refl _)
    _ = env := outTo_depth env

/-- The operations on a chain that can be reached. One that fails leaves the chain behind as it was;
one that declares or assigns a name changes the entry of that name in the innermost scope, and
nothing else. After a scope is entered, used and left, the chain is as before. A name stands for its
slot in the innermost scope that declares it. And an operation fails exactly where it is refused. -/
theorem perform_of_reachable {env : Env} (h : env.Reachable) :
    (∀ op e next, env.perform op = .error e next → next = env) ∧
    (∀ op name next, op.target? = some name → env.perform op = .ok () next →
      ∃ slot, env.Writes op name slot ∧ env.Rewritten name slot next) ∧
    (∀ ops, Op.Balanced ops → (env.enter.afterAll ops).leave = env) ∧
    (∀ name slot, env.get? name = some slot ↔ env.Shows name slot) ∧
    (∀ op e, (env.perform op).error? = some e ↔ env.Refuses op e) := by
  have hdistinct := h.distinct
  refine ⟨fun op e next => eq_of_perform_eq_error, fun op name next hname hok => ?_,
    fun ops hops => ?_, ?_, ?_⟩
  · exact rewritten_of_perform hdistinct hname hok
  · exact env.leave_afterAll_enter hops
  · exact fun name slot => get?_eq_some_iff hdistinct
  · exact fun op e => perform_error?_iff hdistinct

/-- A variable of an inner scope that hides a constant of the root. Beside it stands a constant that
is not hidden. -/
theorem perform_of_reachable_shadowed :
    let constant : Slot := .ofConstant (.string "outer") ⟨0, 5⟩
    let env : Env := ⟨[[("x", .ofVariable .string)]], [("k", constant), ("x", constant)]⟩
    let next : Env := ⟨[[("x", ⟨false, .string, some (.string "new", ⟨6, 9⟩)⟩)]], env.root⟩
    let inside : List Op := [.declareVariable "k" .void, .enter, .declareConstant "x" .void ⟨6, 9⟩,
      .set "k" .void ⟨6, 9⟩, .leave, .set "k" (.string "any") ⟨6, 9⟩]
    env.Reachable ∧
      env.perform (.set "k" (.string "new") ⟨6, 9⟩) = .error (.outerScope "k") env ∧
      (∃ slot, env.Writes (.set "x" (.string "new") ⟨6, 9⟩) "x" slot ∧
        env.Rewritten "x" slot next) ∧
      (env.enter.afterAll inside).leave = env ∧
      env.Shows "x" (.ofVariable .string) ∧
      (env.perform (.set "k" (.string "new") ⟨6, 9⟩)).error? = some (.outerScope "k") ∧
      env.Refuses (.set "x" (.type .void) ⟨6, 9⟩) (.wrongType "x" .string .type) := by
  intro constant env next inside
  have hreach : env.Reachable := by
    have hroot := (Reachable.empty.after (.declareConstant "x" (.string "outer") ⟨0, 5⟩)).after
      (.declareConstant "k" (.string "outer") ⟨0, 5⟩)
    exact (hroot.after .enter).after (.declareVariable "x" .string)
  obtain ⟨hfailed, hwritten, hleft, hshown, hrefused⟩ := perform_of_reachable hreach
  obtain ⟨left, hperform⟩ : ∃ left,
      env.perform (.set "k" (.string "new") ⟨6, 9⟩) = .error (.outerScope "k") left := ⟨_, rfl⟩
  obtain rfl := hfailed _ _ _ hperform
  have hfree : env.innermost.Free "k" := Scope.get?_eq_none_iff.1 rfl
  have houter := (hrefused (.set "k" (.string "new") ⟨6, 9⟩) _).2
    (.outer hfree List.mem_cons_self List.mem_cons_self)
  refine ⟨hreach, hperform, hwritten _ _ next rfl rfl, hleft inside rfl, ?_, houter, ?_⟩
  · exact (hshown _ _).1 rfl
  · exact (hrefused _ _).1 rfl

end Env

end ExprLang
