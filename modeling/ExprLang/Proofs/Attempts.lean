import ExprLang.Proofs.Resolution

/-!
# The course of a resolution

Nothing is assumed here about evaluation: the evaluator is any function, so that native functions
may fail once and succeed later, or count, or forget.

**The end.** A resolution asks for evaluations one by one (`Resolve.Asks`). If each of them returns,
then the loop over rounds, which `Resolve.Loop` describes without a bound, ends after at most as
many rounds as there are items, and `Resolve.all` gives its result.

**The journal.** `Evaluator.noting` evaluates as before and notes what was evaluated and what came
of it. If a resolution succeeds then its journal is made of attempts at the items: each item fails a
number of times, succeeds once, is bound to the value of that attempt, and is left alone afterwards
(`Resolve.all_ends_once`). The attempts are followed on the root and the items still pending
(`Resolve.Course`).
-/

namespace ExprLang

variable {σ : Type}

/-! ## Noting evaluations -/

/-- What was evaluated, and what came of it, the latest last. -/
abbrev Journal := List (Expr × Except Diagnostic Value)

/-- A world with a journal in the hands of the host. -/
def World.noted (w : World σ) (journal : Journal) : World (σ × Journal) :=
  ⟨w.sink, w.events, (w.host, journal)⟩

/-- Evaluates as before, and notes it in the journal. -/
def Evaluator.noting (value : Evaluator σ) : Evaluator (σ × Journal) := fun e env w =>
  (value e env ⟨w.sink, w.events, w.host.1⟩).map fun (o, w₁) =>
    (o, w₁.noted (w.host.2 ++ [(e, o)]))

theorem Evaluator.noting_of_some {value : Evaluator σ} {e : Expr} {env : Env} {w w₁ : World σ}
    {o : Except Diagnostic Value} (h : value e env w = some (o, w₁)) (journal : Journal) :
    value.noting e env (w.noted journal) = some (o, w₁.noted (journal ++ [(e, o)])) := by
  have hplain : value e env ⟨(w.noted journal).sink, (w.noted journal).events,
      (w.noted journal).host.1⟩ = some (o, w₁) := h
  simp only [noting, hplain, Option.map_some]
  rfl

/-- An attempt at an item: its initializer was evaluated, with an outcome. -/
structure Attempt where
  item : Item
  outcome : Except Diagnostic Value

/-- The line of an attempt in the journal. -/
def Attempt.note (a : Attempt) : Expr × Except Diagnostic Value := (a.item.value, a.outcome)

namespace Resolve

/-! ## What attempts do to the root -/

/-- The binding that an item gets with a value. -/
def binding (i : Item) (v : Value) : String × Slot := (i.name.name, .ofConstant v i.value.span)

/-- Attempts lead from a root and pending items to a root with more bindings and the items that are
still pending, in whatever order. An item is attempted while it is pending, and is bound and no
longer pending when it succeeds. -/
inductive Course : Scope → List Item → List Attempt → Scope → List Item → Prop
  | nil {root : Scope} {pending left : List Item} (perm : pending.Perm left) :
    Course root pending [] root left
  | ok {root root' : Scope} {pending rest left : List Item} {i : Item} {v : Value}
      {as : List Attempt} (perm : pending.Perm (i :: rest))
      (free : root.contains i.name.name = false)
      (others : Course (binding i v :: root) rest as root' left) :
    Course root pending (⟨i, .ok v⟩ :: as) root' left
  | error {root root' : Scope} {pending left : List Item} {i : Item} {d : Diagnostic}
      {as : List Attempt} (mem : i ∈ pending) (others : Course root pending as root' left) :
    Course root pending (⟨i, .error d⟩ :: as) root' left

namespace Course

variable {root root' root'' : Scope} {pending left left' : List Item} {as bs : List Attempt}

theorem perm_left {pending' : List Item} (hperm : pending'.Perm pending)
    (h : Course root pending as root' left) : Course root pending' as root' left := by
  induction h generalizing pending' with
  | nil perm => exact .nil (hperm.trans perm)
  | ok perm free others _ => exact .ok (hperm.trans perm) free others
  | error mem _ ih => exact .error (hperm.mem_iff.2 mem) (ih hperm)

theorem append (h : Course root pending as root' left) (h' : Course root' left bs root'' left') :
    Course root pending (as ++ bs) root'' left' := by
  induction h with
  | nil perm => exact h'.perm_left perm
  | ok perm free _ ih => exact .ok perm free (ih h')
  | error mem _ ih => exact .error mem (ih h')

/-- An item that is not attempted stays pending. -/
theorem frame (i : Item) (h : Course root pending as root' left) :
    Course root (i :: pending) as root' (i :: left) := by
  induction h with
  | nil perm => exact .nil (perm.cons i)
  | @ok _ _ _ rest _ j _ _ perm free _ ih =>
    have hperm : (i :: _ :: _).Perm (j :: i :: rest) := List.Perm.swap j i rest
    exact .ok ((perm.cons i).trans hperm) free ih
  | error mem _ ih => exact .error (List.mem_cons_of_mem i mem) ih

theorem length_le (h : Course root pending as root' left) : left.length ≤ pending.length := by
  induction h with
  | nil perm => exact Nat.le_of_eq perm.length_eq.symm
  | ok perm _ _ ih =>
    have hlen := perm.length_eq
    simp only [List.length_cons] at hlen
    omega
  | error _ _ ih => exact ih

theorem within (h : Course root pending as root' left) : root.Within root' := by
  induction h with
  | nil _ => exact Scope.Within.refl _
  | ok _ free _ ih => exact (Scope.within_cons free _).trans ih
  | error _ _ ih => exact ih

theorem mem_pending (h : Course root pending as root' left) : ∀ a ∈ as, a.item ∈ pending := by
  induction h with
  | nil _ => simp
  | ok perm _ _ ih =>
    intro a ha
    rw [perm.mem_iff]
    rcases List.mem_cons.1 ha with rfl | ha
    · exact List.mem_cons_self
    · exact List.mem_cons_of_mem _ (ih a ha)
  | error mem _ ih =>
    intro a ha
    rcases List.mem_cons.1 ha with rfl | ha
    · exact mem
    · exact ih a ha

/-- Where nothing is left pending, the items had names of their own that the root did not bind. -/
theorem names (h : Course root pending as root' []) :
    (pending.map fun i => i.name.name).Nodup ∧
      ∀ i ∈ pending, root.contains i.name.name = false := by
  generalize hnone : ([] : List Item) = none at h
  induction h with
  | nil perm =>
    subst hnone
    obtain rfl := perm.eq_nil
    simp
  | @ok root _ pending rest _ i v _ perm free _ ih =>
    obtain ⟨hdistinct, hfree⟩ := ih hnone
    -- What is free beside the new binding has another name, and was free before.
    have hother : ∀ j ∈ rest, j.name.name ≠ i.name.name ∧ root.contains j.name.name = false := by
      intro j hj
      have hj' := hfree j hj
      by_cases hname : j.name.name = i.name.name
      · rw [hname, binding, Scope.contains_of_get? (Scope.get?_cons_self ..)] at hj'
        cases hj'
      · rw [binding, Scope.contains_cons_of_ne hname] at hj'
        exact ⟨hname, hj'⟩
    refine ⟨(perm.map _).nodup_iff.2 ?_, fun j hj => ?_⟩
    · rw [List.map_cons, List.nodup_cons]
      refine ⟨fun hmem => ?_, hdistinct⟩
      obtain ⟨j, hj, hname⟩ := List.mem_map.1 hmem
      exact (hother j hj).1 hname
    · rcases List.mem_cons.1 (perm.mem_iff.1 hj) with rfl | hj
      · exact free
      · exact (hother j hj).2
  | error _ _ ih => exact ih hnone

/-- Where nothing is left pending, each item was attempted in vain a number of times, then gave the
value that it is bound to, and was not attempted again. -/
theorem once (h : Course root pending as root' []) : ∀ i ∈ pending, ∃ v before after,
    as = before ++ ⟨i, .ok v⟩ :: after ∧
      (∀ a ∈ before, a.item = i → ∃ d, a.outcome = .error d) ∧ (∀ a ∈ after, a.item ≠ i) ∧
      root'.get? i.name.name = some (.ofConstant v i.value.span) := by
  have hnames := h.names.1
  generalize hnone : ([] : List Item) = none at h
  induction h with
  | nil perm =>
    subst hnone
    obtain rfl := perm.eq_nil
    simp
  | @ok root root' pending rest _ i v as perm free others ih =>
    rw [(perm.map _).nodup_iff, List.map_cons, List.nodup_cons] at hnames
    obtain ⟨hnew, hrest⟩ := hnames
    intro j hj
    by_cases hji : j = i
    · subst hji
      have hbound := others.within _ _ (Scope.get?_cons_self j.name.name _ root)
      refine ⟨v, [], as, rfl, by simp, fun a ha haj => ?_, hbound⟩
      have hmem := others.mem_pending a ha
      rw [haj] at hmem
      exact hnew (List.mem_map_of_mem hmem)
    · have hmem : j ∈ rest := (List.mem_cons.1 (perm.mem_iff.1 hj)).resolve_left hji
      obtain ⟨u, before, after, has, hbefore, hafter, hbound⟩ := ih hrest hnone j hmem
      refine ⟨u, ⟨i, .ok v⟩ :: before, after, by rw [has]; rfl, fun a ha haj => ?_, hafter, hbound⟩
      rcases List.mem_cons.1 ha with rfl | ha
      · exact absurd haj.symm hji
      · exact hbefore a ha haj
  | @error root root' pending _ i d as mem _ ih =>
    intro j hj
    obtain ⟨u, before, after, has, hbefore, hafter, hbound⟩ := ih hnames hnone j hj
    refine ⟨u, ⟨i, .error d⟩ :: before, after, by rw [has]; rfl, fun a ha haj => ?_, hafter, hbound⟩
    rcases List.mem_cons.1 ha with rfl | ha
    · exact ⟨d, rfl⟩
    · exact hbefore a ha haj

end Course

/-! ## One item, one round

What a pass does with the first item, for each outcome of its initializer, and what a round does
with what a pass leaves. -/

section Steps

variable {value : Evaluator σ} {number : Nat} {i : Item} {pending rest left : List Item}
  {root : Scope} {env env₁ : Env} {w w₁ : World σ}

theorem declare_of_free {v : Value} (hfree : root.contains i.name.name = false) (w : World σ) :
    Eval.declare i.name v i.value.span (.ofRoot root) w =
      some (.ok (.ofRoot (binding i v :: root)), w) := by
  rw [declare_atRoot v i.value.span hfree]
  rfl

theorem declare_of_bound {v : Value} (hbound : root.contains i.name.name = true) (w : World σ) :
    Eval.declare i.name v i.value.span (.ofRoot root) w =
      some (.error ⟨.redeclared i.name.name, i.name.span⟩, w) := by
  have hdeclared : (Env.ofRoot root).innermost.contains i.name.name = true := hbound
  rw [Eval.declare_of_contains _ _ _ _ hdeclared]
  rfl

theorem pass_of_free {v : Value} (hvalue : value i.value (.ofRoot root) w = some (.ok v, w₁))
    (hfree : root.contains i.name.name = false) :
    pass value number (i :: rest) (.ofRoot root) w =
      pass value number rest (.ofRoot (binding i v :: root)) w₁ := by
  rw [pass, Run.bind_attempt_of_some hvalue]
  exact Run.bind_of_ok (declare_of_free hfree w₁)

theorem pass_of_bound {v : Value} (hvalue : value i.value (.ofRoot root) w = some (.ok v, w₁))
    (hbound : root.contains i.name.name = true) :
    pass value number (i :: rest) (.ofRoot root) w =
      some (.error ⟨.redeclared i.name.name, i.name.span⟩, w₁) := by
  rw [pass, Run.bind_attempt_of_some hvalue]
  exact Run.bind_of_error (declare_of_bound hbound w₁)

theorem pass_of_error {d : Diagnostic} (hvalue : value i.value env w = some (.error d, w₁)) :
    pass value number (i :: rest) env w =
      (pass value number rest env >>= fun (left, env) => pure (i :: left, env))
        { w₁ with events := .deferred number i.name.name d.problem :: w₁.events } := by
  rw [pass, Run.bind_attempt_of_some hvalue]
  exact Run.bind_of_ok rfl

theorem pass_of_none (hvalue : value i.value env w = none) :
    pass value number (i :: rest) env w = none := by
  rw [pass]
  apply Run.bind_of_none
  rw [Run.attempt, hvalue]
  rfl

theorem force_of_free {v : Value} (hvalue : value i.value (.ofRoot root) w = some (.ok v, w₁))
    (hfree : root.contains i.name.name = false) :
    force value (i :: rest) (.ofRoot root) w =
      some (.ok (rest, .ofRoot (binding i v :: root)), w₁) := by
  have hitem : item value i (.ofRoot root) w =
      some (.ok (.ofRoot (binding i v :: root)), w₁) := by
    rw [item, Run.bind_of_ok hvalue, declare_of_free hfree]
  exact Run.bind_of_ok hitem

theorem force_of_bound {v : Value} (hvalue : value i.value (.ofRoot root) w = some (.ok v, w₁))
    (hbound : root.contains i.name.name = true) :
    force value (i :: rest) (.ofRoot root) w =
      some (.error ⟨.redeclared i.name.name, i.name.span⟩, w₁) := by
  have hitem : item value i (.ofRoot root) w =
      some (.error ⟨.redeclared i.name.name, i.name.span⟩, w₁) := by
    rw [item, Run.bind_of_ok hvalue, declare_of_bound hbound]
  exact Run.bind_of_error hitem

theorem force_of_error {d : Diagnostic} (hvalue : value i.value env w = some (.error d, w₁)) :
    force value (i :: rest) env w = some (.error d, w₁) :=
  Run.bind_of_error (Run.bind_of_error hvalue)

theorem force_of_none (hvalue : value i.value env w = none) :
    force value (i :: rest) env w = none :=
  Run.bind_of_none (Run.bind_of_none hvalue)

/-- The world after a pass that left some of its items. -/
def passEnded (number : Nat) (pending left : List Item) (w : World σ) : World σ :=
  { w with events :=
      .passEnded number (pending.length - left.length) left.length :: w.events }

theorem round_of_pass (hpass : pass value number pending env w = some (.ok (left, env₁), w₁)) :
    round value number pending env w =
      (if left.length = pending.length then force value left env₁ else pure (left, env₁))
        (passEnded number pending left w₁) := by
  have hrecord : Run.record (.passEnded number (pending.length - left.length) left.length) w₁ =
      some (.ok (), passEnded number pending left w₁) := rfl
  rw [round, Run.bind_of_ok hpass]
  exact Run.bind_of_ok hrecord

theorem round_of_fruitful (hpass : pass value number pending env w = some (.ok (left, env₁), w₁))
    (hlen : left.length ≠ pending.length) :
    round value number pending env w =
      some (.ok (left, env₁), passEnded number pending left w₁) := by
  rw [round_of_pass hpass, if_neg hlen]
  rfl

theorem round_of_fruitless (hpass : pass value number pending env w = some (.ok (left, env₁), w₁))
    (hlen : left.length = pending.length) :
    round value number pending env w =
      force value left env₁ (passEnded number pending left w₁) := by
  rw [round_of_pass hpass, if_pos hlen]

theorem rounds_of_ok {bound : Nat} (hne : pending ≠ [])
    (hround : round value number pending env w = some (.ok (left, env₁), w₁)) :
    rounds value (bound + 1) number pending env w =
      rounds value bound (number + 1) left env₁ w₁ := by
  rw [rounds]
  · exact Run.bind_of_ok hround
  · exact hne

theorem rounds_of_error {bound : Nat} {d : Diagnostic} (hne : pending ≠ [])
    (hround : round value number pending env w = some (.error d, w₁)) :
    rounds value (bound + 1) number pending env w = some (.error d, w₁) := by
  rw [rounds]
  · exact Run.bind_of_error hround
  · exact hne

theorem rounds_nil (bound : Nat) :
    rounds value bound number [] env w = some (.ok env, w) := by
  cases bound <;> rfl

end Steps

/-! ## The attempts of a resolution -/

section Noted

variable {value : Evaluator σ} {number : Nat} {pending left : List Item} {root : Scope} {env : Env}
  {w w' : World σ}

theorem pass_noted
    (h : pass value number pending (.ofRoot root) w = some (.ok (left, env), w')) :
    ∃ as root', env = .ofRoot root' ∧ Course root pending as root' left ∧
      ∀ journal, pass value.noting number pending (.ofRoot root) (w.noted journal) =
        some (.ok (left, env), w'.noted (journal ++ as.map Attempt.note)) := by
  induction pending generalizing left root w with
  | nil =>
    cases h
    exact ⟨[], root, rfl, .nil (.refl _), fun journal => by simp [pass]⟩
  | cons i rest ih =>
    match hvalue : value i.value (.ofRoot root) w with
    | none =>
      rw [pass_of_none hvalue] at h
      cases h
    | some (.ok v, w₁) =>
      cases hname : root.contains i.name.name with
      | true =>
        rw [pass_of_bound hvalue hname] at h
        cases h
      | false =>
        rw [pass_of_free hvalue hname] at h
        obtain ⟨as, root', henv, hcourse, hpass⟩ := ih h
        refine ⟨⟨i, .ok v⟩ :: as, root', henv, .ok (.refl _) hname hcourse, fun journal => ?_⟩
        rw [pass_of_free (Evaluator.noting_of_some hvalue journal) hname, hpass,
          List.append_assoc]
        rfl
    | some (.error d, w₁) =>
      rw [pass_of_error hvalue] at h
      obtain ⟨⟨left', env'⟩, w₂, hrest, h⟩ := Run.bind_eq_ok h
      cases h
      obtain ⟨as, root', henv, hcourse, hpass⟩ := ih hrest
      refine ⟨⟨i, .error d⟩ :: as, root', henv, .error List.mem_cons_self (hcourse.frame i),
        fun journal => ?_⟩
      have hrest' := hpass (journal ++ [(i.value, .error d)])
      rw [List.append_assoc] at hrest'
      rw [pass_of_error (Evaluator.noting_of_some hvalue journal)]
      exact Run.bind_of_ok hrest'

theorem force_noted (h : force value pending (.ofRoot root) w = some (.ok (left, env), w')) :
    ∃ as root', env = .ofRoot root' ∧ Course root pending as root' left ∧
      (pending ≠ [] → left.length < pending.length) ∧
      ∀ journal, force value.noting pending (.ofRoot root) (w.noted journal) =
        some (.ok (left, env), w'.noted (journal ++ as.map Attempt.note)) := by
  cases pending with
  | nil =>
    cases h
    exact ⟨[], root, rfl, .nil (.refl _), by simp, fun journal => by simp [force]⟩
  | cons i rest =>
    match hvalue : value i.value (.ofRoot root) w with
    | none =>
      rw [force_of_none hvalue] at h
      cases h
    | some (.error d, w₁) =>
      rw [force_of_error hvalue] at h
      cases h
    | some (.ok v, w₁) =>
      cases hname : root.contains i.name.name with
      | true =>
        rw [force_of_bound hvalue hname] at h
        cases h
      | false =>
        rw [force_of_free hvalue hname] at h
        cases h
        refine ⟨[⟨i, .ok v⟩], _, rfl, .ok (.refl _) hname (.nil (.refl _)),
          fun _ => Nat.lt_succ_self _, fun journal => ?_⟩
        exact force_of_free (Evaluator.noting_of_some hvalue journal) hname

theorem round_noted
    (h : round value number pending (.ofRoot root) w = some (.ok (left, env), w')) :
    ∃ as root', env = .ofRoot root' ∧ Course root pending as root' left ∧
      (pending ≠ [] → left.length < pending.length) ∧
      ∀ journal, round value.noting number pending (.ofRoot root) (w.noted journal) =
        some (.ok (left, env), w'.noted (journal ++ as.map Attempt.note)) := by
  obtain ⟨⟨left₁, env₁⟩, w₁, hpass, -⟩ := Run.bind_eq_ok h
  obtain ⟨as, root₁, rfl, hcourse, hpass'⟩ := pass_noted hpass
  by_cases hlen : left₁.length = pending.length
  · rw [round_of_fruitless hpass hlen] at h
    obtain ⟨bs, root', rfl, hforced, hless, hforce'⟩ := force_noted h
    refine ⟨as ++ bs, root', rfl, hcourse.append hforced, fun hne => ?_, fun journal => ?_⟩
    · have hne₁ : left₁ ≠ [] := by
        rw [← List.length_pos_iff, hlen]
        exact List.length_pos_iff.2 hne
      rw [← hlen]
      exact hless hne₁
    · have hforced' := hforce' (journal ++ as.map Attempt.note)
      rw [List.append_assoc, ← List.map_append] at hforced'
      rw [round_of_fruitless (hpass' journal) hlen]
      exact hforced'
  · rw [round_of_fruitful hpass hlen] at h
    cases h
    have hle := hcourse.length_le
    refine ⟨as, root₁, rfl, hcourse, fun _ => by omega, fun journal => ?_⟩
    rw [round_of_fruitful (hpass' journal) hlen]
    rfl

theorem rounds_noted {bound : Nat} (hbound : pending.length ≤ bound)
    (h : rounds value bound number pending (.ofRoot root) w = some (.ok env, w')) :
    ∃ as root', env = .ofRoot root' ∧ Course root pending as root' [] ∧
      ∀ journal, rounds value.noting bound number pending (.ofRoot root) (w.noted journal) =
        some (.ok env, w'.noted (journal ++ as.map Attempt.note)) := by
  induction bound generalizing number pending root w with
  | zero =>
    obtain rfl : pending = [] := List.length_eq_zero_iff.1 (Nat.le_zero.1 hbound)
    cases h
    exact ⟨[], root, rfl, .nil (.refl _), fun journal => by simp [rounds_nil]⟩
  | succ bound ih =>
    by_cases hne : pending = []
    · subst hne
      cases h
      exact ⟨[], root, rfl, .nil (.refl _), fun journal => by simp [rounds_nil]⟩
    · match hround : round value number pending (.ofRoot root) w with
      | none =>
        rw [rounds, Run.bind_of_none hround] at h
        · cases h
        · exact hne
      | some (.error d, w₁) =>
        rw [rounds_of_error hne hround] at h
        cases h
      | some (.ok (left, env₁), w₁) =>
        rw [rounds_of_ok hne hround] at h
        obtain ⟨as, root₁, rfl, hcourse, hless, hround'⟩ := round_noted hround
        have hlt := hless hne
        obtain ⟨bs, root', rfl, hothers, hrounds'⟩ := ih (by omega) h
        refine ⟨as ++ bs, root', rfl, hcourse.append hothers, fun journal => ?_⟩
        have hlater := hrounds' (journal ++ as.map Attempt.note)
        rw [List.append_assoc, ← List.map_append] at hlater
        rw [rounds_of_ok hne (hround' journal)]
        exact hlater

end Noted

/-! ## The end of a resolution -/

/-- Rounds until no item is left, however many that takes: the number of rounds and the result. -/
inductive Loop (value : Evaluator σ) :
    Nat → Nat → List Item → Env → World σ → Except Diagnostic Env × World σ → Prop
  | done {number : Nat} {env : Env} {w : World σ} : Loop value 0 number [] env w (.ok env, w)
  | failed {number : Nat} {pending : List Item} {env : Env} {w w' : World σ} {d : Diagnostic}
      (more : pending ≠ []) (round : round value number pending env w = some (.error d, w')) :
    Loop value 1 number pending env w (.error d, w')
  | again {number passes : Nat} {pending left : List Item} {env env₁ : Env} {w w₁ : World σ}
      {r : Except Diagnostic Env × World σ} (more : pending ≠ [])
      (round : round value number pending env w = some (.ok (left, env₁), w₁))
      (others : Loop value passes (number + 1) left env₁ w₁ r) :
    Loop value (passes + 1) number pending env w r

/-- The evaluations that a round asks for, whether they return or not: an item, and the environment
and the world in which its initializer is evaluated. -/
inductive RoundAsks (value : Evaluator σ) (number : Nat) (pending : List Item) (env : Env)
    (w : World σ) : Item → Env → World σ → Prop
  | inPass {before after left : List Item} {i : Item} {env' : Env} {w' : World σ}
      (split : pending = before ++ i :: after)
      (pass : pass value number before env w = some (.ok (left, env'), w')) :
    RoundAsks value number pending env w i env' w'
  | forced {rest : List Item} {i : Item} {env' : Env} {w' : World σ}
      (pass : pass value number pending env w = some (.ok (i :: rest, env'), w'))
      (fruitless : (i :: rest).length = pending.length) :
    RoundAsks value number pending env w i env' (passEnded number pending (i :: rest) w')

/-- The evaluations that the rounds over pending items ask for. -/
inductive Asks (value : Evaluator σ) :
    Nat → List Item → Env → World σ → Item → Env → World σ → Prop
  | now {number : Nat} {pending : List Item} {i : Item} {env env' : Env} {w w' : World σ}
      (asks : RoundAsks value number pending env w i env' w') :
    Asks value number pending env w i env' w'
  | later {number : Nat} {pending left : List Item} {i : Item} {env env₁ env' : Env}
      {w w₁ w' : World σ} (round : round value number pending env w = some (.ok (left, env₁), w₁))
      (asks : Asks value (number + 1) left env₁ w₁ i env' w') :
    Asks value number pending env w i env' w'

section Returns

variable {value : Evaluator σ} {number : Nat} {pending : List Item} {root : Scope} {w : World σ}

theorem Loop.rounds_eq {passes bound : Nat} {env : Env} {r : Except Diagnostic Env × World σ}
    (h : Loop value passes number pending env w r) (hle : passes ≤ bound) :
    rounds value bound number pending env w = some r := by
  induction h generalizing bound with
  | done => exact rounds_nil bound
  | failed more round =>
    obtain ⟨bound, rfl⟩ : ∃ n, bound = n + 1 := ⟨bound - 1, by omega⟩
    exact rounds_of_error more round
  | again more round _ ih =>
    obtain ⟨bound, rfl⟩ : ∃ n, bound = n + 1 := ⟨bound - 1, by omega⟩
    rw [rounds_of_ok more round]
    exact ih (by omega)

-- The evaluation of an item is asked for where the pass over the items before it has led.
theorem pass_returns
    (hreturns : ∀ before i after left env' w', pending = before ++ i :: after →
      pass value number before (.ofRoot root) w = some (.ok (left, env'), w') →
      ∃ r, value i.value env' w' = some r) :
    ∃ r, pass value number pending (.ofRoot root) w = some r := by
  induction pending generalizing root w with
  | nil => exact ⟨_, rfl⟩
  | cons i rest ih =>
    obtain ⟨⟨o, w₁⟩, hvalue⟩ := hreturns [] i rest [] _ _ rfl rfl
    cases o with
    | ok v =>
      cases hname : root.contains i.name.name with
      | true => exact ⟨_, pass_of_bound hvalue hname⟩
      | false =>
        rw [pass_of_free hvalue hname]
        refine ih fun before j after left env' w' hsplit hpass => ?_
        refine hreturns (i :: before) j after left env' w' (by rw [hsplit]; rfl) ?_
        rw [pass_of_free hvalue hname]
        exact hpass
    | error d =>
      rw [pass_of_error hvalue]
      have hrest : ∃ r, pass value number rest (.ofRoot root)
          { w₁ with events := .deferred number i.name.name d.problem :: w₁.events } = some r := by
        refine ih fun before j after left env' w' hsplit hpass => ?_
        refine hreturns (i :: before) j after (i :: left) env' w' (by rw [hsplit]; rfl) ?_
        rw [pass_of_error hvalue]
        exact Run.bind_of_ok hpass
      obtain ⟨⟨o, w₂⟩, hrest⟩ := hrest
      cases o with
      | ok a => exact ⟨_, Run.bind_of_ok hrest⟩
      | error d' => exact ⟨_, Run.bind_of_error hrest⟩

theorem force_returns
    (hreturns : ∀ i rest, pending = i :: rest → ∃ r, value i.value (.ofRoot root) w = some r) :
    ∃ r, force value pending (.ofRoot root) w = some r := by
  cases pending with
  | nil => exact ⟨_, rfl⟩
  | cons i rest =>
    obtain ⟨⟨o, w₁⟩, hvalue⟩ := hreturns i rest rfl
    cases o with
    | error d => exact ⟨_, force_of_error hvalue⟩
    | ok v =>
      cases hname : root.contains i.name.name with
      | true => exact ⟨_, force_of_bound hvalue hname⟩
      | false => exact ⟨_, force_of_free hvalue hname⟩

theorem round_returns
    (hreturns : ∀ i env' w', RoundAsks value number pending (.ofRoot root) w i env' w' →
      ∃ r, value i.value env' w' = some r) :
    ∃ r, round value number pending (.ofRoot root) w = some r := by
  obtain ⟨⟨o, w₁⟩, hpass⟩ : ∃ r, pass value number pending (.ofRoot root) w = some r :=
    pass_returns fun _ i _ _ env' w' hsplit hbefore => hreturns i env' w' (.inPass hsplit hbefore)
  cases o with
  | error d => exact ⟨_, Run.bind_of_error hpass⟩
  | ok a =>
    obtain ⟨left, env₁⟩ := a
    obtain ⟨as, root₁, rfl, -, -⟩ := pass_noted hpass
    by_cases hlen : left.length = pending.length
    · rw [round_of_fruitless hpass hlen]
      refine force_returns fun i rest hleft => ?_
      subst hleft
      exact hreturns i _ _ (.forced hpass hlen)
    · exact ⟨_, round_of_fruitful hpass hlen⟩

theorem loop_ends
    (hreturns : ∀ i env' w', Asks value number pending (.ofRoot root) w i env' w' →
      ∃ r, value i.value env' w' = some r) :
    ∃ passes r, passes ≤ pending.length ∧ Loop value passes number pending (.ofRoot root) w r := by
  generalize hlen : pending.length = n
  induction n using Nat.strongRecOn generalizing number pending root w with
  | ind n ih =>
    by_cases hne : pending = []
    · subst hne
      exact ⟨0, _, Nat.zero_le _, .done⟩
    · have hpos : 0 < pending.length := List.length_pos_iff.2 hne
      obtain ⟨⟨o, w₁⟩, hround⟩ :=
        round_returns fun i env' w' hasks => hreturns i env' w' (.now hasks)
      cases o with
      | error d => exact ⟨1, _, by omega, .failed hne hround⟩
      | ok a =>
        obtain ⟨left, env₁⟩ := a
        obtain ⟨as, root₁, rfl, -, hless, -⟩ := round_noted hround
        have hlt := hless hne
        obtain ⟨passes, r, hle, hloop⟩ := ih left.length (by omega)
          (fun i env' w' hasks => hreturns i env' w' (.later hround hasks)) rfl
        exact ⟨passes + 1, r, by omega, .again hne hround hloop⟩

/-- A resolution returns if every evaluation that it asks for does. -/
theorem all_returns
    (hreturns : ∀ i env' w', Asks value 1 pending (.ofRoot root) w i env' w' →
      ∃ r, value i.value env' w' = some r) :
    ∃ r, all value pending (.ofRoot root) w = some r := by
  obtain ⟨passes, r, hle, hloop⟩ := loop_ends hreturns
  exact ⟨r, hloop.rounds_eq hle⟩

-- The converse: what does not return keeps the pass from returning.
theorem pass_of_asked_none {before after left : List Item} {i : Item} {env' : Env} {w' : World σ}
    (hpass : pass value number before (.ofRoot root) w = some (.ok (left, env'), w'))
    (hvalue : value i.value env' w' = none) :
    pass value number (before ++ i :: after) (.ofRoot root) w = none := by
  induction before generalizing left root w with
  | nil =>
    cases hpass
    exact pass_of_none hvalue
  | cons j before ih =>
    rw [List.cons_append]
    match hj : value j.value (.ofRoot root) w with
    | none => exact pass_of_none hj
    | some (.ok v, w₁) =>
      cases hname : root.contains j.name.name with
      | true =>
        rw [pass_of_bound hj hname] at hpass
        cases hpass
      | false =>
        rw [pass_of_free hj hname] at hpass ⊢
        exact ih hpass
    | some (.error d, w₁) =>
      rw [pass_of_error hj] at hpass ⊢
      obtain ⟨⟨left', env₁⟩, w₂, hrest, hpass⟩ := Run.bind_eq_ok hpass
      cases hpass
      exact Run.bind_of_none (ih hrest)

theorem round_of_asked_none {i : Item} {env' : Env} {w' : World σ}
    (hasks : RoundAsks value number pending (.ofRoot root) w i env' w')
    (hvalue : value i.value env' w' = none) :
    round value number pending (.ofRoot root) w = none := by
  cases hasks with
  | inPass hsplit hpass =>
    subst hsplit
    exact Run.bind_of_none (pass_of_asked_none hpass hvalue)
  | forced hpass hlen =>
    rw [round_of_fruitless hpass hlen]
    exact force_of_none hvalue

theorem not_asks_nil {env env' : Env} {i : Item} {w' : World σ} :
    ¬Asks value number [] env w i env' w' := by
  intro hasks
  generalize hnone : ([] : List Item) = none at hasks
  induction hasks with
  | now hasks =>
    subst hnone
    cases hasks with
    | inPass hsplit _ => simp at hsplit
    | forced _ hlen => simp at hlen
  | later hround _ ih =>
    subst hnone
    cases hround
    exact ih rfl

theorem Loop.asks_return {passes : Nat} {r : Except Diagnostic Env × World σ}
    (h : Loop value passes number pending (.ofRoot root) w r) {i : Item} {env' : Env}
    {w' : World σ} (hasks : Asks value number pending (.ofRoot root) w i env' w') :
    ∃ r, value i.value env' w' = some r := by
  rw [← Option.ne_none_iff_exists']
  intro hvalue
  generalize henv : Env.ofRoot root = env at h hasks
  induction h generalizing root with
  | done => exact not_asks_nil hasks
  | failed _ hround =>
    subst henv
    cases hasks with
    | now hasks => rw [round_of_asked_none hasks hvalue] at hround; cases hround
    | later hround' _ => rw [hround'] at hround; cases hround
  | again _ hround _ ih =>
    subst henv
    obtain ⟨_, root₁, rfl, -⟩ := round_noted hround
    cases hasks with
    | now hasks => rw [round_of_asked_none hasks hvalue] at hround; cases hround
    | later hround' hasks =>
      rw [hround'] at hround
      cases hround
      exact ih rfl hasks

end Returns

/-- Resolution ends and succeeds once for each item, whatever evaluation does. It returns exactly if
every evaluation that it asks for does, and then after at most as many passes as there are items. If
it returns successfully, the evaluations it made are attempts at the items, and for each item one
attempt succeeds: those before fail, there are none after, and the item is bound to its value. -/
theorem all_ends_once (value : Evaluator σ) (items : List Item) (start : Scope) (w : World σ) :
    ((∀ i env' w', Asks value 1 items (.ofRoot start) w i env' w' →
        ∃ r, value i.value env' w' = some r) ↔
      ∃ passes r, passes ≤ items.length ∧ Loop value passes 1 items (.ofRoot start) w r ∧
        all value items (.ofRoot start) w = some r) ∧
    ∀ env w', all value items (.ofRoot start) w = some (.ok env, w') →
      ∃ attempts : List Attempt,
        all value.noting items (.ofRoot start) (w.noted []) =
          some (.ok env, w'.noted (attempts.map Attempt.note)) ∧
        (∀ a ∈ attempts, a.item ∈ items) ∧
        ∀ i ∈ items, ∃ v before after, attempts = before ++ ⟨i, .ok v⟩ :: after ∧
          (∀ a ∈ before, a.item = i → ∃ d, a.outcome = .error d) ∧
          (∀ a ∈ after, a.item ≠ i) ∧
          env.root.get? i.name.name = some (.ofConstant v i.value.span) := by
  refine ⟨⟨fun hreturns => ?_, ?_⟩, fun env w' h => ?_⟩
  · obtain ⟨passes, r, hle, hloop⟩ := loop_ends hreturns
    exact ⟨passes, r, hle, hloop, hloop.rounds_eq hle⟩
  · rintro ⟨passes, r, -, hloop, -⟩ i env' w' hasks
    exact hloop.asks_return hasks
  · obtain ⟨attempts, root, rfl, hcourse, hnoted⟩ := rounds_noted (Nat.le_refl _) h
    exact ⟨attempts, hnoted [], hcourse.mem_pending, hcourse.once⟩

/-- The item `const a = ready()`. -/
def waits : Item := ⟨⟨"a", ⟨6, 7⟩⟩, .call (.name ⟨"ready", ⟨10, 15⟩⟩) [] ⟨15, 16⟩ ⟨16, 17⟩⟩

/-- The item `const b = a`. -/
def waitsToo : Item := ⟨⟨"b", ⟨24, 25⟩⟩, .name ⟨"a", ⟨28, 29⟩⟩⟩

/-- A root that binds the native function of handle zero. -/
def readyRoot : Scope := [("ready", .ofConstant (.function (.native "ready" 0)) Span.origin)]

/-- A world in which that function fails once and then gives a text. -/
def readyLater : World Natives :=
  ⟨Sink.empty none, [], [(.failFirst 1 (.string "text"), 0)]⟩

/-- The first pass declares nothing, and the second look at `a` succeeds. -/
theorem all_ends_once_readyLater :
    (∀ i env' w', Asks (Eval.value Natives.host 3) 1 [waits, waitsToo] (.ofRoot readyRoot)
        readyLater i env' w' → ∃ r, Eval.value Natives.host 3 i.value env' w' = some r) ∧
      ∃ env w', all (Eval.value Natives.host 3) [waits, waitsToo] (.ofRoot readyRoot) readyLater =
          some (.ok env, w') ∧
        ∃ (attempts before after : List Attempt) (v : Value),
          all (Eval.value Natives.host 3).noting [waits, waitsToo] (.ofRoot readyRoot)
            (readyLater.noted []) = some (.ok env, w'.noted (attempts.map Attempt.note)) ∧
          attempts = before ++ ⟨waits, .ok v⟩ :: after ∧ (∀ a ∈ after, a.item ≠ waits) ∧
          env.root.get? "a" = some (.ofConstant v waits.value.span) := by
  obtain ⟨r, hloop, hall⟩ : ∃ r,
      Loop (Eval.value Natives.host 3) 2 1 [waits, waitsToo] (.ofRoot readyRoot) readyLater r ∧
        all (Eval.value Natives.host 3) [waits, waitsToo] (.ofRoot readyRoot) readyLater = some r :=
    ⟨_, .again (by simp) rfl (.again (by simp) rfl .done), rfl⟩
  obtain ⟨env, w', h⟩ : ∃ env w', all (Eval.value Natives.host 3) [waits, waitsToo]
      (.ofRoot readyRoot) readyLater = some (.ok env, w') := ⟨_, _, rfl⟩
  obtain ⟨hends, honce⟩ := all_ends_once (Eval.value Natives.host 3) [waits, waitsToo] readyRoot
    readyLater
  obtain ⟨attempts, hnoted, -, hitems⟩ := honce env w' h
  obtain ⟨v, before, after, hsplit, -, hafter, hbound⟩ := hitems waits List.mem_cons_self
  exact ⟨hends.2 ⟨2, r, Nat.le_refl 2, hloop, hall⟩, env, w', h, attempts, before, after, v, hnoted,
    hsplit, hafter, hbound⟩

end Resolve

end ExprLang
