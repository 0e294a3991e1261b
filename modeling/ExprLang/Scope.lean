import ExprLang.Value.Coerce
import ExprLang.Diagnostic

/-!
# Scopes

A scope holds the names declared in one place, each with a slot: a constant with its value, or a
variable with its type and perhaps a value. An environment is a chain of scopes from the innermost
one to the root. A name is looked up from the inside out; only the innermost scope can be changed.
-/

namespace ExprLang

/-- What a name stands for: whether it is constant, its type, and its value, if it has one, with the
span that the value came from. -/
structure Slot where
  constant : Bool
  type : Ty
  content : Option (Value × Span)

namespace Slot

/-- The slot of a constant. -/
def ofConstant (value : Value) (origin : Span) : Slot := ⟨true, value.ty, some (value, origin)⟩

/-- The slot of a variable that has no value yet. -/
def ofVariable (t : Ty) : Slot := ⟨false, t, none⟩

/-- The value in a slot. -/
def value? (s : Slot) : Option Value := s.content.map Prod.fst

/-- Where the value in a slot came from. -/
def origin? (s : Slot) : Option Span := s.content.map Prod.snd

/-- Equality of the contents of two slots: equal values of the same origin, or none in both. -/
def equalContent : Option (Value × Span) → Option (Value × Span) → Bool
  | some (v, s), some (w, t) => v.equals w && s == t
  | none, none => true
  | _, _ => false

/-- Equality of slots. -/
def equals (a b : Slot) : Bool :=
  a.constant == b.constant && a.type == b.type && equalContent a.content b.content

end Slot

/-- Why an operation on a scope fails. -/
inductive ScopeError where
  | alreadyExists (name : String)
  | doesNotExist (name : String)
  | wrongType (name : String) (expected found : Ty)
  | constant (name : String)
  | outerScope (name : String)
deriving DecidableEq, Repr

/-- The problem that a failed operation on a scope is. -/
def ScopeError.problem : ScopeError → Problem
  | alreadyExists name => .redeclared name
  | doesNotExist name => .unbound name
  | wrongType name expected found => .wrongAssignment name expected found
  | constant name => .assignedConstant name
  | outerScope name => .assignedOuter name

/-- The names declared in one place, the latest first. -/
abbrev Scope := List (String × Slot)

namespace Scope

/-- The slot of a name in the scope itself. -/
def get? (scope : Scope) (name : String) : Option Slot := scope.lookup name

/-- Whether the scope itself declares a name. -/
def contains (scope : Scope) (name : String) : Bool := (scope.get? name).isSome

theorem get?_cons (n name : String) (slot : Slot) (scope : Scope) :
    get? ((n, slot) :: scope) name = if name = n then some slot else scope.get? name := by
  unfold get?
  rw [List.lookup_cons]
  by_cases h : name = n
  · rw [if_pos h, beq_iff_eq.2 h]
  · rw [if_neg h, beq_eq_false_iff_ne.2 h]

theorem get?_cons_self (n : String) (slot : Slot) (scope : Scope) :
    get? ((n, slot) :: scope) n = some slot := by
  rw [get?_cons, if_pos rfl]

theorem contains_of_get? {scope : Scope} {name : String} {slot : Slot}
    (h : scope.get? name = some slot) : scope.contains name = true := by
  rw [contains, h]
  rfl

theorem get?_of_not_contains {scope : Scope} {name : String} (h : scope.contains name = false) :
    scope.get? name = none := by
  rw [contains, Option.isSome_eq_false_iff, Option.isNone_iff_eq_none] at h
  exact h

theorem contains_cons_of_ne {n name : String} (h : name ≠ n) (slot : Slot) (scope : Scope) :
    contains ((n, slot) :: scope) name = scope.contains name := by
  rw [contains, get?_cons, if_neg h, contains]

/-- Changes the slot of a name. -/
def update (name : String) (slot : Slot) : Scope → Scope
  | [] => []
  | (n, s) :: rest => if n == name then (n, slot) :: rest else (n, s) :: update name slot rest

end Scope

/-- A chain of scopes: those inside the root, the innermost first, and the root. -/
structure Env where
  inner : List Scope
  root : Scope

namespace Env

/-- The chain of an empty root alone. -/
def empty : Env := ⟨[], []⟩

/-- The chain of a root alone. -/
def ofRoot (root : Scope) : Env := ⟨[], root⟩

/-- The scopes from the innermost to the root. -/
def scopes (env : Env) : List Scope := env.inner ++ [env.root]

/-- The number of scopes inside the root. -/
def depth (env : Env) : Nat := env.inner.length

/-- Enters a new, empty scope. -/
def enter (env : Env) : Env := { env with inner := [] :: env.inner }

/-- Leaves the innermost scope. The root is never left. -/
def leave (env : Env) : Env := { env with inner := env.inner.tail }

/-- The root of a chain, as a chain of its own. -/
def atRoot (env : Env) : Env := ofRoot env.root

/-- The innermost scope. -/
def innermost (env : Env) : Scope := env.inner.headD env.root

/-- The scope around the innermost one. -/
def enclosing? (env : Env) : Option Scope :=
  match env.inner with
  | [] => none
  | _ :: outer => some (outer.headD env.root)

/-- The slot of a name in the first of some scopes that declares it. -/
def find? (name : String) : List Scope → Option Slot
  | [] => none
  | scope :: outer =>
    match scope.get? name with
    | some slot => some slot
    | none => find? name outer

/-- The slot of a name, in the innermost scope that declares it. -/
def get? (env : Env) (name : String) : Option Slot := find? name env.scopes

theorem exists_of_find? {name : String} {scopes : List Scope} {slot : Slot}
    (h : find? name scopes = some slot) : ∃ scope ∈ scopes, scope.get? name = some slot := by
  induction scopes with
  | nil => cases h
  | cons scope outer ih =>
    simp only [find?] at h
    split at h
    · rename_i hget
      cases h
      exact ⟨scope, List.mem_cons_self, hget⟩
    · obtain ⟨scope', hmem, hget⟩ := ih h
      exact ⟨scope', List.mem_cons_of_mem scope hmem, hget⟩

theorem find?_append (name : String) (xs ys : List Scope) :
    find? name (xs ++ ys) = (find? name xs).or (find? name ys) := by
  induction xs with
  | nil => rfl
  | cons scope xs ih =>
    simp only [List.cons_append, find?]
    cases scope.get? name with
    | some slot => rfl
    | none => exact ih

/-- A name stands for what the scopes inside the root declare, or else for what the root does. -/
theorem get?_eq_or (env : Env) (name : String) :
    env.get? name = (find? name env.inner).or (env.root.get? name) := by
  rw [get?, scopes, find?_append]
  simp only [find?]
  cases env.root.get? name <;> rfl

/-- Replaces the innermost scope. -/
def withInnermost (env : Env) (scope : Scope) : Env :=
  match env.inner with
  | [] => { env with root := scope }
  | _ :: outer => { env with inner := scope :: outer }

/-- A name added to the innermost scope hides the others of that name, and nothing else. -/
theorem get?_withInnermost_cons (env : Env) (n name : String) (slot : Slot) :
    (env.withInnermost ((n, slot) :: env.innermost)).get? name =
      if name = n then some slot else env.get? name := by
  obtain ⟨inner, root⟩ := env
  cases inner with
  | nil =>
    simp only [withInnermost, innermost, List.headD_nil, get?, scopes, List.nil_append, find?]
    rw [Scope.get?_cons]
    by_cases h : name = n
    · rw [if_pos h, if_pos h]
    · rw [if_neg h, if_neg h]
  | cons scope outer =>
    simp only [withInnermost, innermost, List.headD_cons, get?, scopes, List.cons_append, find?]
    rw [Scope.get?_cons]
    by_cases h : name = n
    · rw [if_pos h, if_pos h]
    · rw [if_neg h, if_neg h]

/-! ## Changes -/

/-- The scopes around the innermost one. -/
def around (env : Env) : List Scope := env.scopes.tail

/-- What changing a chain comes to: success or an error, and either way the chain that is left
behind. -/
abbrev Outcome := EStateM.Result ScopeError Env Unit

namespace Outcome

/-- The chain that is left behind. -/
def chain : Outcome → Env
  | .ok _ env => env
  | .error _ env => env

/-- The error, if there is one. -/
def error? : Outcome → Option ScopeError
  | .ok _ _ => none
  | .error e _ => some e

/-- The chain after a success, or the error. -/
def toExcept : Outcome → Except ScopeError Env
  | .ok _ env => .ok env
  | .error e _ => .error e

instance : Coe Outcome (Except ScopeError Env) := ⟨toExcept⟩

end Outcome

/-- Changes a chain in place, step by step. An error ends the steps, and takes none of them back. -/
def change (env : Env) (steps : EStateM ScopeError Env Unit) : Outcome := steps.run env

/-- Adds a name to the innermost scope, which does not declare it yet. -/
def insert (env : Env) (name : String) (slot : Slot) : Outcome :=
  change env do
    if (← get).innermost.contains name then
      throw (.alreadyExists name)
    modify fun env => env.withInnermost ((name, slot) :: env.innermost)

/-- Declares a constant in the innermost scope. -/
def declareConstant (env : Env) (name : String) (value : Value) (origin : Span) : Outcome :=
  env.insert name (.ofConstant value origin)

/-- Declares a variable without a value in the innermost scope. -/
def declareVariable (env : Env) (name : String) (t : Ty) : Outcome :=
  env.insert name (.ofVariable t)

/-- Gives a variable of the innermost scope a value, coerced to its type. -/
def set (env : Env) (name : String) (value : Value) (origin : Span) : Outcome :=
  change env do
    let some slot := (← get).innermost.get? name
      | match find? name (← get).around with
        | some _ => throw (.outerScope name)
        | none => throw (.doesNotExist name)
    if slot.constant then
      throw (.constant name)
    let some v := value.coerce slot.type
      | throw (.wrongType name slot.type value.ty)
    modify fun env => env.withInnermost
      (env.innermost.update name { slot with content := some (v, origin) })

theorem insert_of_contains {env : Env} {name : String} (h : env.innermost.contains name = true)
    (slot : Slot) : env.insert name slot = .error (.alreadyExists name) env := by
  simp [insert, change, h]

theorem insert_of_not_contains {env : Env} {name : String}
    (h : env.innermost.contains name = false) (slot : Slot) :
    env.insert name slot = .ok () (env.withInnermost ((name, slot) :: env.innermost)) := by
  simp [insert, change, h]

/-- What an assignment does, by what the innermost scope has under the name. -/
theorem set_eq (env : Env) (name : String) (value : Value) (origin : Span) :
    env.set name value origin =
      match env.innermost.get? name with
      | none =>
        match find? name env.around with
        | some _ => .error (.outerScope name) env
        | none => .error (.doesNotExist name) env
      | some slot =>
        if slot.constant then .error (.constant name) env
        else
          match value.coerce slot.type with
          | none => .error (.wrongType name slot.type value.ty) env
          | some v => .ok () (env.withInnermost
              (env.innermost.update name { slot with content := some (v, origin) })) := by
  cases hslot : env.innermost.get? name with
  | none => cases hfound : find? name env.around <;> simp [set, change, hslot, hfound]
  | some slot =>
    by_cases hconstant : slot.constant = true
    · simp [set, change, hslot, hconstant]
    · cases hv : value.coerce slot.type <;> simp [set, change, hslot, hconstant, hv]

end Env

end ExprLang
