import ExprLang.Proofs.Attempts

/-!
# Resolution in any order

Two resolutions of the same items, in any two orders, end alike: both declare every item, or both
fail (`Resolve.Ended.agree`). For if one of them fails then it has reached a root beside which no
item that is left succeeds, and that root has the bindings of every root that can be reached, that
of a successful resolution among them.

So the order of declarations does not matter as long as each evaluation that is asked for returns:
then both resolutions return, and their roots have the same bindings (`Resolve.all_perm`).
-/

namespace ExprLang

namespace Resolve

variable {σ : Type} {host : Host σ} {calm : Sink → σ → Prop} {depth : Nat} {items : List Item}
  {start : Scope}

theorem State.stuck (hdet : host.Deterministic calm) {root : Scope} {left : List Item}
    (hs : State (Eval.value host depth) calm items start root left)
    (hfails : ∀ i ∈ left, Fails (Eval.value host depth) calm i root) :
    Stuck (Gives (Eval.value host depth) calm) items root := by
  intro i hi v hv
  rcases hs.complete i hi with hleft | hdeclared
  · exact absurd (hfails i hleft) (hv.not_fails hdet)
  · exact hdeclared

section Agreement

variable (hdet : host.Deterministic calm) (hpres : host.Preserving calm)
  (hnames : (items.map fun i => i.name.name).Nodup)
  (hfree : ∀ i ∈ items, start.contains i.name.name = false)
include hdet hpres hnames hfree

/-- Every root that can be reached has its bindings in one beside which nothing more succeeds. -/
theorem State.within {root top : Scope} {left left' : List Item}
    (hs : State (Eval.value host depth) calm items start root left)
    (htop : State (Eval.value host depth) calm items start top left')
    (hfails : ∀ i ∈ left', Fails (Eval.value host depth) calm i top) : root.Within top := by
  refine hs.reached.within_of_stuck (fun h hr => h.of_within hpres hr)
    (fun h h' => h.unique hdet h') ?_ hfree htop.reached (htop.stuck hdet hfails)
  intro i hi j hj hname
  exact List.inj_on_of_nodup_map hnames hi hj hname

/-- A resolution does not end with a diagnostic if another one of the same items succeeds. -/
theorem State.not_failed {root top : Scope} {left : List Item}
    (hs : State (Eval.value host depth) calm items start root [])
    (htop : State (Eval.value host depth) calm items start top left)
    (hfails : ∀ i ∈ left, Fails (Eval.value host depth) calm i top) : left = [] := by
  cases left with
  | nil => rfl
  | cons i rest =>
    have hi : i ∈ items := htop.mem i (List.mem_cons_self ..)
    rcases hs.complete i hi with hnil | hdeclared
    · cases hnil
    · have hwithin := hs.within hdet hpres hnames hfree htop hfails
      have htrue := hwithin.contains hdeclared
      rw [htop.free i (List.mem_cons_self ..)] at htrue
      cases htrue

/-- Two ends that resolutions of the same items can come to are alike. -/
theorem Ended.agree {o o' : Except Diagnostic Env}
    (h : Ended (Eval.value host depth) calm items start o)
    (h' : Ended (Eval.value host depth) calm items start o') :
    ((∃ env, o = .ok env) ↔ ∃ env', o' = .ok env') ∧
      ∀ env env', o = .ok env → o' = .ok env' →
        env.inner = [] ∧ env'.inner = [] ∧ env.root.SameBindings env'.root := by
  have hnone : ∀ {root : Scope}, ∀ i ∈ ([] : List Item),
      Fails (Eval.value host depth) calm i root := fun i hi => nomatch hi
  cases h with
  | @resolved root hs =>
    cases h' with
    | @resolved root' hs' =>
      refine ⟨⟨fun _ => ⟨_, rfl⟩, fun _ => ⟨_, rfl⟩⟩, ?_⟩
      rintro _ _ ⟨⟩ ⟨⟩
      exact ⟨rfl, rfl, (hs.within hdet hpres hnames hfree hs' hnone).antisymm
        (hs'.within hdet hpres hnames hfree hs hnone)⟩
    | failed d hne hs' hfails =>
      exact absurd (hs.not_failed hdet hpres hnames hfree hs' hfails) hne
  | failed d hne hs hfails =>
    cases h' with
    | resolved hs' =>
      exact absurd (hs'.not_failed hdet hpres hnames hfree hs hfails) hne
    | failed d' hne' hs' hfails' =>
      refine ⟨⟨?_, ?_⟩, ?_⟩
      · rintro ⟨_, ⟨⟩⟩
      · rintro ⟨_, ⟨⟩⟩
      · rintro _ _ ⟨⟩

/-- **Declaration order does not matter.** Two resolutions of the same items, in any two orders and
any two worlds of a kind, return if each evaluation that they ask for does, and then succeed both or
fail both. If they succeed, their roots bind the same names to the same slots. -/
theorem all_perm {items' : List Item} (hperm : items.Perm items') {depth' : Nat} {w w' : World σ}
    (hw : w.Meets calm) (hw' : w'.Meets calm)
    (hreturns : ∀ i env v, Asks (Eval.value host depth) 1 items (.ofRoot start) w i env v →
      ∃ r, Eval.value host depth i.value env v = some r)
    (hreturns' : ∀ i env v, Asks (Eval.value host depth') 1 items' (.ofRoot start) w' i env v →
      ∃ r, Eval.value host depth' i.value env v = some r) :
    ∃ o w₁ o' w₁',
      all (Eval.value host depth) items (.ofRoot start) w = some (o, w₁) ∧
      all (Eval.value host depth') items' (.ofRoot start) w' = some (o', w₁') ∧
      ((∃ env, o = .ok env) ↔ ∃ env', o' = .ok env') ∧
      ∀ env env', o = .ok env → o' = .ok env' →
        env.inner = [] ∧ env'.inner = [] ∧ env.root.SameBindings env'.root := by
  obtain ⟨⟨o, w₁⟩, h⟩ := all_returns hreturns
  obtain ⟨⟨o', w₁'⟩, h'⟩ := all_returns hreturns'
  -- at the greater of the two depths both resolutions come to what they came to
  have hstate : State (Eval.value host (max depth depth')) calm items start start items :=
    ⟨.start, fun _ hi => hi, hnames, hfree, fun _ hi => .inl hi⟩
  have hended := rounds_ended (fun hw h => meets_of_value hdet hw h) hw (Nat.le_refl _) hstate
    (all_of_le (Nat.le_max_left depth depth') h)
  have hended' := rounds_ended (fun hw h => meets_of_value hdet hw h) hw' (Nat.le_refl _)
    (hstate.perm hperm) (all_of_le (Nat.le_max_right depth depth') h')
  exact ⟨o, w₁, o', w₁', h, h', hended.agree hdet hpres hnames hfree hended'⟩

end Agreement

/-- The item `const a = println(b)`. -/
def printsLater : Item :=
  ⟨⟨"a", Span.point 6⟩,
    .call (.name ⟨"println", ⟨10, 17⟩⟩) [.name ⟨"b", ⟨18, 19⟩⟩] ⟨17, 18⟩ ⟨19, 20⟩⟩

/-- The item `const b = "text"`. -/
def later : Item := ⟨⟨"b", ⟨27, 28⟩⟩, .literal (.string "text") ⟨31, 37⟩⟩

/-- In one order `println(b)` has to wait for `b`, in the other it does not. -/
theorem all_perm_printsLater :
    let w : World Natives := ⟨Sink.empty none, [], Natives.initial⟩
    (∀ i env v, Asks (Eval.value Natives.host 4) 1 [printsLater, later]
        (.ofRoot Natives.printRoot) w i env v →
      ∃ r, Eval.value Natives.host 4 i.value env v = some r) ∧
    (∀ i env v, Asks (Eval.value Natives.host 5) 1 [later, printsLater]
        (.ofRoot Natives.printRoot) w i env v →
      ∃ r, Eval.value Natives.host 5 i.value env v = some r) ∧
    ∃ env w₁ env' w₁',
      all (Eval.value Natives.host 4) [printsLater, later] (.ofRoot Natives.printRoot) w =
        some (.ok env, w₁) ∧
      all (Eval.value Natives.host 5) [later, printsLater] (.ofRoot Natives.printRoot) w =
        some (.ok env', w₁') ∧
      env.root.SameBindings env'.root := by
  intro w
  have hcounts : ∀ n ∈ [Native.println], n.counts = false := by simp [Native.counts]
  have hlooks : ∀ n ∈ [Native.println], n.looks = false := by simp [Native.looks]
  have hfree : ∀ i ∈ [printsLater, later], Natives.printRoot.contains i.name.name = false := by
    intro i hi
    rcases List.mem_cons.1 hi with rfl | hi
    · rfl
    · rcases List.mem_cons.1 hi with rfl | hi
      · rfl
      · cases hi
  obtain ⟨r, hloop⟩ : ∃ r, Loop (Eval.value Natives.host 4) 2 1 [printsLater, later]
      (.ofRoot Natives.printRoot) w r :=
    ⟨_, .again (by simp) rfl (.again (by simp) rfl .done)⟩
  obtain ⟨r', hloop'⟩ : ∃ r, Loop (Eval.value Natives.host 5) 1 1 [later, printsLater]
      (.ofRoot Natives.printRoot) w r := ⟨_, .again (by simp) rfl .done⟩
  obtain ⟨env, w₁, h⟩ : ∃ env w₁, all (Eval.value Natives.host 4) [printsLater, later]
      (.ofRoot Natives.printRoot) w = some (.ok env, w₁) := ⟨_, _, rfl⟩
  obtain ⟨env', w₁', h'⟩ : ∃ env w₁, all (Eval.value Natives.host 5) [later, printsLater]
      (.ofRoot Natives.printRoot) w = some (.ok env, w₁) := ⟨_, _, rfl⟩
  obtain ⟨o, w₂, o', w₂', hall, hall', -, hsame⟩ :=
    all_perm (Natives.deterministic hcounts) (Natives.preserving hcounts hlooks) (by decide) hfree
      (List.Perm.swap later printsLater []) ⟨rfl, rfl⟩ ⟨rfl, rfl⟩
      (fun _ _ _ => hloop.asks_return) (fun _ _ _ => hloop'.asks_return)
  cases hall.symm.trans h
  cases hall'.symm.trans h'
  exact ⟨fun _ _ _ => hloop.asks_return, fun _ _ _ => hloop'.asks_return, env, w₁, env', w₁', h, h',
    (hsame env env' rfl rfl).2.2⟩

end Resolve

end ExprLang
