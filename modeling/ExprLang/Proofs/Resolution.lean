import Mathlib.Data.List.Nodup
import ExprLang.Proofs.Comparisons
import ExprLang.Proofs.Depth

/-!
# What a resolution comes to

A resolution declares items one by one, each with a value that its initializer gives beside the root
reached so far (`Resolve.Reached`). It ends with every item declared, or with a root beside which
each item that is left fails (`Resolve.rounds_ended`).

Which value an item gives beside a root does not depend on the world (`Resolve.Gives.unique`). If a
greater root changes no success (`Resolve.Gives.of_within`), then a root beside which nothing more
succeeds has all bindings of every other root that can be reached
(`Resolve.Reached.within_of_stuck`).
-/

namespace ExprLang

namespace Scope

theorem Within.contains {a b : Scope} (h : a.Within b) {name : String}
    (ha : a.contains name = true) : b.contains name = true := by
  obtain ⟨slot, hslot⟩ := Option.isSome_iff_exists.1 ha
  exact contains_of_get? (h name slot hslot)

/-- A new name takes nothing away. -/
theorem within_cons {scope : Scope} {n : String} (h : scope.contains n = false) (slot : Slot) :
    scope.Within ((n, slot) :: scope) := by
  intro name s hs
  rw [get?_cons]
  split
  · rename_i hname
    rw [hname, get?_of_not_contains h] at hs
    cases hs
  · exact hs

theorem cons_within {scope scope' : Scope} {n : String} {slot : Slot} (h : scope.Within scope')
    (hn : scope'.get? n = some slot) : Within ((n, slot) :: scope) scope' := by
  intro name s hs
  rw [get?_cons] at hs
  split at hs
  · rename_i hname
    cases hs
    rw [hname]
    exact hn
  · exact h name s hs

end Scope

namespace Resolve

/-! ## The roots that can be reached -/

section Reached

variable (gives : Item → Scope → Value → Prop) (items : List Item) (start : Scope)

/-- The roots that come from declaring items, each with a value that it gives at the time. -/
inductive Reached : Scope → Prop
  | start : Reached start
  | declare {root : Scope} {i : Item} {v : Value} (before : Reached root) (mem : i ∈ items)
    (value : gives i root v) (free : root.contains i.name.name = false) :
    Reached ((i.name.name, .ofConstant v i.value.span) :: root)

/-- Every item that still gives a value is declared. -/
def Stuck (root : Scope) : Prop :=
  ∀ i ∈ items, ∀ v, gives i root v → root.contains i.name.name = true

variable {gives items start} {root : Scope}

/-- A binding stands in the root from the start, or an item gave it beside a smaller root. -/
theorem Reached.origin (h : Reached gives items start root) {name : String} {slot : Slot}
    (hslot : root.get? name = some slot) :
    start.get? name = some slot ∨ ∃ i ∈ items, i.name.name = name ∧ ∃ r v, r.Within root ∧
      gives i r v ∧ slot = .ofConstant v i.value.span := by
  induction h with
  | start => exact .inl hslot
  | @declare root i v _ hmem hvalue hfree ih =>
    have hwithin := Scope.within_cons hfree (.ofConstant v i.value.span)
    rw [Scope.get?_cons] at hslot
    split at hslot
    · rename_i hname
      cases hslot
      exact .inr ⟨i, hmem, hname.symm, root, v, hwithin, hvalue, rfl⟩
    · rcases ih hslot with hstart | ⟨j, hj, hname, r, u, hr, hu, hs⟩
      · exact .inl hstart
      · exact .inr ⟨j, hj, hname, r, u, hr.trans hwithin, hu, hs⟩

theorem Reached.start_within (h : Reached gives items start root) : start.Within root := by
  induction h with
  | start => exact Scope.Within.refl start
  | declare _ _ _ hfree ih => exact ih.trans (Scope.within_cons hfree _)

/-- Success that a greater root preserves, with one value, makes a stuck root the greatest. -/
theorem Reached.within_of_stuck
    (hmono : ∀ {i r r' v}, gives i r v → r.Within r' → gives i r' v)
    (hone : ∀ {i r v v'}, gives i r v → gives i r v' → v = v')
    (hnames : ∀ i ∈ items, ∀ j ∈ items, i.name.name = j.name.name → i = j)
    (hfree : ∀ i ∈ items, start.contains i.name.name = false)
    (h : Reached gives items start root) {top : Scope} (htop : Reached gives items start top)
    (hstuck : Stuck gives items top) : root.Within top := by
  induction h with
  | start => exact htop.start_within
  | @declare root i v _ hmem hvalue _ ih =>
    refine Scope.cons_within ih ?_
    have hgives := hmono hvalue ih
    obtain ⟨slot, hslot⟩ := Option.isSome_iff_exists.1 (hstuck i hmem v hgives)
    -- The binding in the stuck root came from the same item, and so with the same value.
    rcases htop.origin hslot with hstart | ⟨j, hj, hname, r, u, hr, hu, rfl⟩
    · rw [Scope.get?_of_not_contains (hfree i hmem)] at hstart
      cases hstart
    · have hji : j = i := hnames j hj i hmem hname
      subst hji
      have huv : u = v := hone (hmono hu hr) hgives
      rw [← huv]
      exact hslot

end Reached

/-! ## What a resolution does -/

variable {σ : Type}

/-- An initializer has a value beside a root, in some world of a kind. -/
def Gives (value : Evaluator σ) (calm : Sink → σ → Prop) (i : Item) (root : Scope) (v : Value) :
    Prop :=
  ∃ w w', w.Meets calm ∧ value i.value (.ofRoot root) w = some (.ok v, w')

/-- An initializer fails beside a root, in some world of a kind. -/
def Fails (value : Evaluator σ) (calm : Sink → σ → Prop) (i : Item) (root : Scope) : Prop :=
  ∃ w w' d, w.Meets calm ∧ value i.value (.ofRoot root) w = some (.error d, w')

section Runs

variable {value : Evaluator σ} {calm : Sink → σ → Prop} {items : List Item} {start : Scope}

variable (value calm items start) in
/-- The state of a resolution: a root that can be reached, and the items that it does not declare
yet. -/
structure State (root : Scope) (pending : List Item) : Prop where
  reached : Reached (Gives value calm) items start root
  mem : ∀ i ∈ pending, i ∈ items
  distinct : (pending.map fun i => i.name.name).Nodup
  free : ∀ i ∈ pending, root.contains i.name.name = false
  complete : ∀ i ∈ items, i ∈ pending ∨ root.contains i.name.name = true

theorem declare_atRoot {name : Ident} {root : Scope} (v : Value) (origin : Span)
    (h : root.contains name.name = false) :
    (Eval.declare name v origin (.ofRoot root) : Run σ Env) =
      pure (.ofRoot ((name.name, .ofConstant v origin) :: root)) := by
  have hfree : ¬(Env.ofRoot root).innermost.contains name.name = true := by
    show ¬root.contains name.name = true
    rw [h]
    exact Bool.false_ne_true
  rw [Eval.declare_of_not_contains name v origin _ hfree]
  rfl

theorem State.perm {root : Scope} {pending pending' : List Item}
    (h : State value calm items start root pending) (hperm : pending.Perm pending') :
    State value calm items start root pending' := by
  obtain ⟨hreached, hmem, hdistinct, hfree, hcomplete⟩ := h
  refine ⟨hreached, ?_, (hperm.map _).nodup_iff.1 hdistinct, ?_, ?_⟩
  · intro i hi
    exact hmem i (hperm.mem_iff.2 hi)
  · intro i hi
    exact hfree i (hperm.mem_iff.2 hi)
  · intro i hi
    rw [← hperm.mem_iff]
    exact hcomplete i hi

/-- The state after an item is declared. -/
theorem State.declare {root : Scope} {i : Item} {rest : List Item}
    (h : State value calm items start root (i :: rest)) {v : Value}
    (hv : Gives value calm i root v) :
    State value calm items start ((i.name.name, .ofConstant v i.value.span) :: root) rest := by
  obtain ⟨hreached, hmem, hdistinct, hfree, hcomplete⟩ := h
  rw [List.map_cons, List.nodup_cons] at hdistinct
  have hi := hfree i (List.mem_cons_self ..)
  refine ⟨.declare hreached (hmem i (List.mem_cons_self ..)) hv hi, ?_, hdistinct.2, ?_, ?_⟩
  · intro j hj
    exact hmem j (List.mem_cons_of_mem i hj)
  · intro j hj
    have hne : j.name.name ≠ i.name.name := by
      intro hname
      exact hdistinct.1 (List.mem_map.2 ⟨j, hj, hname⟩)
    rw [Scope.contains_cons_of_ne hne]
    exact hfree j (List.mem_cons_of_mem i hj)
  · intro j hj
    rcases hcomplete j hj with hpending | hdeclared
    · rcases List.mem_cons.1 hpending with rfl | hrest
      · exact .inr (Scope.contains_of_get? (Scope.get?_cons_self ..))
      · exact .inl hrest
    · exact .inr ((Scope.within_cons hi _).contains hdeclared)

variable (value calm) in
/-- What a pass leaves of the items it looks at. If it declares none, the root is the same and each
of them fails beside it. -/
structure Passed (root : Scope) (pending : List Item) (root' : Scope) (left : List Item) : Prop where
  length_le : left.length ≤ pending.length
  fruitless : left.length = pending.length →
    root' = root ∧ ∀ i ∈ left, Fails value calm i root

variable (hkeep : ∀ {e env w o w'}, w.Meets calm → value e env w = some (o, w') → w'.Meets calm)

include hkeep

/-- A pass leads from one state to another. The items set aside before it stay pending. -/
theorem pass_outcome {number : Nat} {pending : List Item} (aside : List Item) {root : Scope}
    {w w' : World σ} {o : Except Diagnostic (List Item × Env)} (hw : w.Meets calm)
    (hs : State value calm items start root (aside ++ pending))
    (h : pass value number pending (.ofRoot root) w = some (o, w')) :
    ∃ left root', o = .ok (left, .ofRoot root') ∧ w'.Meets calm ∧
      State value calm items start root' (aside ++ left) ∧
      Passed value calm root pending root' left := by
  induction pending generalizing aside root w o w' with
  | nil =>
    cases h
    refine ⟨[], root, rfl, hw, hs, Nat.le_refl _, fun _ => ⟨rfl, ?_⟩⟩
    intro i hi
    cases hi
  | cons i rest ih =>
    obtain ⟨out, w₁, hvalue, h⟩ := Run.bind_attempt_eq_some h
    have hw₁ := hkeep hw hvalue
    cases out with
    | ok v =>
      have hs' := hs.perm List.perm_middle
      have hgives : Gives value calm i root v := ⟨w, w₁, hw, hvalue⟩
      dsimp only at h
      rw [declare_atRoot v i.value.span (hs'.free i (List.mem_cons_self ..))] at h
      obtain ⟨left, root', ho, hw', hstate, hpassed⟩ := ih aside hw₁ (hs'.declare hgives) h
      have hle := hpassed.length_le
      refine ⟨left, root', ho, hw', hstate, Nat.le_succ_of_le hle, fun hlen => ?_⟩
      rw [List.length_cons] at hlen
      omega
    | error d =>
      rcases Run.bind_eq_some h with ⟨_, w₂, hrecord, h⟩ | ⟨_, _, hrecord, _⟩
      · cases hrecord
        have hs' : State value calm items start root ((aside ++ [i]) ++ rest) := by
          rw [List.append_assoc]
          exact hs
        rcases Run.bind_eq_some h with ⟨⟨left, env⟩, w₃, hrest, h⟩ | ⟨d', w₃, hrest, h⟩
        · obtain ⟨left', root', ho, hw', hstate, hpassed⟩ := ih _ (hw₁.record _) hs' hrest
          cases ho
          cases h
          rw [List.append_assoc] at hstate
          have hle := hpassed.length_le
          refine ⟨i :: left, root', rfl, hw', hstate, Nat.succ_le_succ hle, fun hlen => ?_⟩
          obtain ⟨hroot, hfails⟩ := hpassed.fruitless (Nat.succ.inj hlen)
          refine ⟨hroot, fun j hj => ?_⟩
          rcases List.mem_cons.1 hj with rfl | hj
          · exact ⟨w, w₁, d, hw, hvalue⟩
          · exact hfails j hj
        · obtain ⟨_, _, ho, _⟩ := ih _ (hw₁.record _) hs' hrest
          cases ho
      · cases hrecord

/-- A round leads to a state with fewer pending items, or ends the resolution with a diagnostic in a
state in which every pending item fails. -/
theorem round_outcome {number : Nat} {pending : List Item} {root : Scope} {w w' : World σ}
    {o : Except Diagnostic (List Item × Env)} (hw : w.Meets calm) (hne : pending ≠ [])
    (hs : State value calm items start root pending)
    (h : round value number pending (.ofRoot root) w = some (o, w')) :
    (∃ left root', o = .ok (left, .ofRoot root') ∧ w'.Meets calm ∧
      State value calm items start root' left ∧ left.length < pending.length) ∨
    ∃ d left, o = .error d ∧ left ≠ [] ∧ State value calm items start root left ∧
      ∀ i ∈ left, Fails value calm i root := by
  rcases Run.bind_eq_some h with ⟨⟨left, env⟩, w₁, hpass, h⟩ | ⟨d, w₁, hpass, h⟩
  · obtain ⟨left', root', ho, hw₁, hstate, hpassed⟩ := pass_outcome hkeep [] hw hs hpass
    cases ho
    rcases Run.bind_eq_some h with ⟨_, w₂, hrecord, h⟩ | ⟨_, _, hrecord, _⟩
    · cases hrecord
      by_cases hlen : left.length = pending.length
      · rw [if_pos hlen] at h
        obtain ⟨rfl, hfails⟩ := hpassed.fruitless hlen
        cases left with
        | nil => exact absurd (List.length_eq_zero_iff.1 hlen.symm) hne
        | cons i rest =>
          have hfree := hstate.free i (List.mem_cons_self ..)
          rcases Run.bind_eq_some h with ⟨env, w₃, hitem, h⟩ | ⟨d, w₃, hitem, h⟩
          · obtain ⟨v, w₄, hvalue, hdeclare⟩ := Run.bind_eq_ok hitem
            rw [declare_atRoot v i.value.span hfree] at hdeclare
            cases hdeclare
            cases h
            have hw₂ := hw₁.record (.passEnded number (pending.length - (i :: rest).length)
              (i :: rest).length)
            have hgives : Gives value calm i root' v := ⟨_, _, hw₂, hvalue⟩
            refine .inl ⟨rest, _, rfl, hkeep hw₂ hvalue, hstate.declare hgives, ?_⟩
            rw [← hlen]
            exact Nat.lt_succ_self _
          · cases h
            exact .inr ⟨d, i :: rest, rfl, List.cons_ne_nil _ _, hstate, hfails⟩
      · rw [if_neg hlen] at h
        cases h
        exact .inl ⟨left, root', rfl, hw₁, hstate, Nat.lt_of_le_of_ne hpassed.length_le hlen⟩
    · cases hrecord
  · obtain ⟨_, _, ho, _⟩ := pass_outcome hkeep [] hw hs hpass
    cases ho

variable (value calm items start) in
omit hkeep in
/-- How a resolution ends: with a root that declares every item, or with a diagnostic and a root
beside which each of the items that are left fails. -/
inductive Ended : Except Diagnostic Env → Prop
  | resolved {root : Scope} (state : State value calm items start root []) :
    Ended (.ok (.ofRoot root))
  | failed {root : Scope} {left : List Item} (d : Diagnostic) (ne : left ≠ [])
    (state : State value calm items start root left)
    (fails : ∀ i ∈ left, Fails value calm i root) : Ended (.error d)

theorem rounds_ended {bound number : Nat} {pending : List Item} {root : Scope} {w w' : World σ}
    {o : Except Diagnostic Env} (hw : w.Meets calm) (hbound : pending.length ≤ bound)
    (hs : State value calm items start root pending)
    (h : rounds value bound number pending (.ofRoot root) w = some (o, w')) :
    Ended value calm items start o := by
  induction bound generalizing number pending root w with
  | zero =>
    cases pending with
    | nil => cases h; exact .resolved hs
    | cons i rest => cases hbound
  | succ bound ih =>
    cases pending with
    | nil => cases h; exact .resolved hs
    | cons i rest =>
      rcases Run.bind_eq_some h with ⟨⟨left, env⟩, w₁, hround, h⟩ | ⟨d, w₁, hround, h⟩
      · rcases round_outcome hkeep hw (List.cons_ne_nil i rest) hs hround with
          ⟨left', root', ho, hw₁, hstate, hlt⟩ | ⟨_, _, ho, _⟩
        · cases ho
          rw [List.length_cons] at hlt hbound
          exact ih hw₁ (by omega) hstate h
        · cases ho
      · rcases round_outcome hkeep hw (List.cons_ne_nil i rest) hs hround with
          ⟨_, _, ho, _⟩ | ⟨d', left, ho, hne, hstate, hfails⟩
        · cases ho
        · cases h
          exact .failed d hne hstate hfails

end Runs

/-! ## What evaluation gives -/

section Giving

variable {host : Host σ} {calm : Sink → σ → Prop} {depth : Nat}

theorem meets_of_value (hdet : host.Deterministic calm) {e : Expr} {env : Env} {w w' : World σ}
    {o : Except Diagnostic Value} (hw : w.Meets calm)
    (h : Eval.value host depth e env w = some (o, w')) : w'.Meets calm :=
  ((Comparison.value_runs hdet depth e (Comparison.steady_envs calm env)).of_steady hw hw h).1

theorem Gives.of_within (hpres : host.Preserving calm) {i : Item} {r r' : Scope} {v : Value}
    (h : Gives (Eval.value host depth) calm i r v) (hr : r.Within r') :
    Gives (Eval.value host depth) calm i r' v := by
  obtain ⟨w, w₁, hw, hvalue⟩ := h
  have henv : (Comparison.growth calm).Envs (.ofRoot r) (.ofRoot r') := ⟨rfl, hr⟩
  obtain ⟨w₂, hvalue'⟩ := (Comparison.value_runs hpres depth i.value henv).of_growth hw hw hvalue
  exact ⟨w, w₂, hw, hvalue'⟩

theorem Gives.unique (hdet : host.Deterministic calm) {i : Item} {r : Scope} {v v' : Value}
    (h : Gives (Eval.value host depth) calm i r v)
    (h' : Gives (Eval.value host depth) calm i r v') : v = v' := by
  obtain ⟨w, w₁, hw, hvalue⟩ := h
  obtain ⟨w', w₁', hw', hvalue'⟩ := h'
  cases Eval.value_agrees hdet hw hw' hvalue hvalue'
  rfl

theorem Gives.not_fails (hdet : host.Deterministic calm) {i : Item} {r : Scope} {v : Value}
    (h : Gives (Eval.value host depth) calm i r v) :
    ¬Fails (Eval.value host depth) calm i r := by
  rintro ⟨w', w₁', d, hw', hfails⟩
  obtain ⟨w, w₁, hw, hvalue⟩ := h
  cases Eval.value_agrees hdet hw hw' hvalue hfails

end Giving

end Resolve

end ExprLang
