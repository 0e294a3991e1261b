import Mathlib.Data.List.Find
import Mathlib.Data.List.Nodup
import Mathlib.Data.List.Perm.Subperm
import ExprLang.Proofs.Attempts

/-!
# The cause of a failed resolution

A root is *closed* if it binds every item whose initializer succeeds beside it. The constants that
can be resolved at all are the bindings of the least closed root (`Resolve.IsLeastClosed`). A
resolution that fails has reached this root, and its diagnostic is the one that the first item in
the order of the text outside of it comes to (`Resolve.all_blames_first`).

Passes keep the order of what they set aside (`Resolve.pass_sublist`), so what is pending is always
the list of items that the root does not bind (`Resolve.State.filter_eq`).
-/

namespace ExprLang

namespace Resolve

variable {σ : Type}

/-! ## The least closed root -/

section Closed

variable (host : Host σ) (calm : Sink → σ → Prop) (items : List Item) (start : Scope)

/-- What the initializer of an item comes to beside a root, to some depth and in some world of a
kind. -/
def ComesTo (i : Item) (root : Scope) (o : Except Diagnostic Value) : Prop :=
  ∃ depth w w', w.Meets calm ∧ Eval.value host depth i.value (.ofRoot root) w = some (o, w')

/-- A root beside which no initializer succeeds that it does not bind. -/
structure IsClosed (root : Scope) : Prop where
  within : start.Within root
  bound : ∀ i ∈ items, ∀ v, ComesTo host calm i root (.ok v) →
    root.get? i.name.name = some (.ofConstant v i.value.span)

structure IsLeastClosed (root : Scope) : Prop extends IsClosed host calm items start root where
  least : ∀ other, IsClosed host calm items start other → root.Within other

/-- The first item that a root does not bind comes to a diagnostic beside it, in every world of a
kind and to every depth that suffices. -/
def Blames (root : Scope) (d : Diagnostic) : Prop :=
  ∃ i, items.find? (fun i => !root.contains i.name.name) = some i ∧
    ∀ w : World σ, w.Meets calm →
      (∃ depth w', Eval.value host depth i.value (.ofRoot root) w = some (.error d, w')) ∧
      ∀ depth o w', Eval.value host depth i.value (.ofRoot root) w = some (o, w') → o = .error d

end Closed

section Closed

variable {host : Host σ} {calm : Sink → σ → Prop} {items : List Item} {start : Scope} {depth : Nat}

theorem Reached.within_of_isClosed (hpres : host.Preserving calm) {root other : Scope}
    (h : Reached (Gives (Eval.value host depth) calm) items start root)
    (hother : IsClosed host calm items start other) : root.Within other := by
  induction h with
  | start => exact hother.within
  | @declare root i v _ hmem hvalue _ ih =>
    obtain ⟨w, w', hw, hgives⟩ := hvalue.of_within hpres ih
    exact Scope.cons_within ih (hother.bound i hmem v ⟨depth, w, w', hw, hgives⟩)

theorem State.isClosed (hdet : host.Deterministic calm) (hpres : host.Preserving calm)
    (hnames : (items.map fun i => i.name.name).Nodup)
    (hfree : ∀ i ∈ items, start.contains i.name.name = false) {root : Scope} {left : List Item}
    (hs : State (Eval.value host depth) calm items start root left)
    (hfails : ∀ i ∈ left, Fails (Eval.value host depth) calm i root) :
    IsClosed host calm items start root := by
  refine ⟨hs.reached.start_within, ?_⟩
  rintro i hi v ⟨n, w, w', hw, hvalue⟩
  rcases hs.complete i hi with hleft | hdeclared
  · obtain ⟨w₁, w₁', d, hw₁, hfail⟩ := hfails i hleft
    have habsurd := Eval.value_agrees hdet hw hw₁ hvalue hfail
    cases habsurd
  · -- The binding came from the same item, whose value beside the greater root is still the same.
    obtain ⟨slot, hslot⟩ := Option.isSome_iff_exists.1 hdeclared
    rcases hs.reached.origin hslot with hstart | ⟨j, hj, hname, r, u, hr, hu, rfl⟩
    · have hnone := Scope.get?_of_not_contains (hfree i hi)
      rw [hnone] at hstart
      cases hstart
    · obtain rfl : j = i := List.inj_on_of_nodup_map hnames hj hi hname
      obtain ⟨w₁, w₁', hw₁, hgives⟩ := hu.of_within hpres hr
      have hsame := Eval.value_agrees hdet hw hw₁ hvalue hgives
      cases hsame
      exact hslot

theorem IsLeastClosed.sameBindings {root other : Scope}
    (h : IsLeastClosed host calm items start root)
    (hother : IsLeastClosed host calm items start other) : root.SameBindings other :=
  (h.least other hother.toIsClosed).antisymm (hother.least root h.toIsClosed)

theorem Blames.of_sameBindings (hbindings : host.Respects Comparison.bindings)
    {root other : Scope} (hsame : root.SameBindings other) {d : Diagnostic}
    (h : Blames host calm items root d) : Blames host calm items other d := by
  obtain ⟨i, hfirst, hcause⟩ := h
  have hcontains : ∀ name, other.contains name = root.contains name := by
    intro name
    rw [Scope.contains, Scope.contains, hsame name]
  have heval : ∀ n, Eval.value host n i.value (.ofRoot root) =
      Eval.value host n i.value (.ofRoot other) := by
    intro n
    have henv : Comparison.bindings.Envs (σ := σ) (.ofRoot root) (.ofRoot other) := ⟨rfl, hsame⟩
    exact (Comparison.value_runs hbindings n i.value henv).eq_of_bindings
  refine ⟨i, ?_, fun w hw => ?_⟩
  · simp only [hcontains]
    exact hfirst
  · simp only [← heval]
    exact hcause w hw

end Closed

/-! ## What is pending, in order -/

section Order

variable {value : Evaluator σ}

theorem pass_sublist {number : Nat} {pending left : List Item} {env env' : Env} {w w' : World σ}
    (h : pass value number pending env w = some (.ok (left, env'), w')) :
    left.Sublist pending := by
  induction pending generalizing left env w w' with
  | nil => cases h; exact List.Sublist.refl []
  | cons i rest ih =>
    match hvalue : value i.value env w with
    | none => rw [pass_of_none hvalue] at h; cases h
    | some (.ok v, w₁) =>
      rw [pass, Run.bind_attempt_of_some hvalue] at h
      obtain ⟨env₁, w₂, -, h⟩ := Run.bind_eq_ok h
      exact (ih h).cons i
    | some (.error d, w₁) =>
      rw [pass_of_error hvalue] at h
      obtain ⟨⟨left', env₁⟩, w₂, hrest, h⟩ := Run.bind_eq_ok h
      cases h
      exact (ih hrest).cons_cons i

theorem round_sublist {number : Nat} {pending left : List Item} {env env' : Env} {w w' : World σ}
    (h : round value number pending env w = some (.ok (left, env'), w')) :
    left.Sublist pending := by
  obtain ⟨⟨left', env₁⟩, w₁, hpass, -⟩ := Run.bind_eq_ok h
  have hsub := pass_sublist hpass
  by_cases hlen : left'.length = pending.length
  · rw [round_of_fruitless hpass hlen] at h
    cases left' with
    | nil => cases h; exact hsub
    | cons i rest =>
      obtain ⟨env₂, w₂, -, h⟩ := Run.bind_eq_ok h
      cases h
      exact (List.sublist_cons_self i _).trans hsub
  · rw [round_of_fruitful hpass hlen] at h
    cases h
    exact hsub

variable {calm : Sink → σ → Prop} {items : List Item} {start : Scope}

/-- What is pending in order is what the root does not bind. -/
theorem State.filter_eq {root : Scope} {pending : List Item}
    (hs : State value calm items start root pending) (hsub : pending.Sublist items)
    (hnames : (items.map fun i => i.name.name).Nodup) :
    items.filter (fun i => !root.contains i.name.name) = pending := by
  have hall : pending.filter (fun i => !root.contains i.name.name) = pending := by
    rw [List.filter_eq_self]
    intro i hi
    simp [hs.free i hi]
  have hle : pending.Sublist (items.filter fun i => !root.contains i.name.name) := by
    have hfilter := hsub.filter fun i => !root.contains i.name.name
    rwa [hall] at hfilter
  have hmem : items.filter (fun i => !root.contains i.name.name) ⊆ pending := by
    intro i hi
    obtain ⟨hi, hfree⟩ := List.mem_filter.1 hi
    rcases hs.complete i hi with hpending | hbound
    · exact hpending
    · simp [hbound] at hfree
  have hnodup : (items.filter fun i => !root.contains i.name.name).Nodup :=
    (List.Nodup.of_map _ hnames).filter _
  exact (hle.eq_of_length_le (List.subperm_of_subset hnodup hmem).length_le).symm

end Order

/-! ## The diagnostic of a failed resolution -/

section Failed

variable {value : Evaluator σ} {calm : Sink → σ → Prop} {items : List Item} {start : Scope}
  (hkeep : ∀ {e env w o w'}, w.Meets calm → value e env w = some (o, w') → w'.Meets calm)

include hkeep

/-- A round fails with the diagnostic of the first pending item, beside a root that makes every
pending item fail. -/
theorem round_error {number : Nat} {pending : List Item} {root : Scope} {w w' : World σ}
    {d : Diagnostic} (hw : w.Meets calm) (hne : pending ≠ [])
    (hs : State value calm items start root pending)
    (h : round value number pending (.ofRoot root) w = some (.error d, w')) :
    ∃ i rest w₁ w₂, pending = i :: rest ∧ w₁.Meets calm ∧
      value i.value (.ofRoot root) w₁ = some (.error d, w₂) ∧
      ∀ j ∈ pending, Fails value calm j root := by
  rcases Run.bind_eq_some h with ⟨⟨left, env⟩, w₁, hpass, -⟩ | ⟨d', w₁, hpass, -⟩
  · obtain ⟨left', root', ho, hw₁, -, hpassed⟩ := pass_outcome hkeep [] hw hs hpass
    cases ho
    by_cases hlen : left.length = pending.length
    · have hleft : left = pending := (pass_sublist hpass).eq_of_length hlen
      obtain ⟨rfl, hfails⟩ := hpassed.fruitless hlen
      rw [round_of_fruitless hpass hlen, hleft] at h
      rw [hleft] at hfails
      obtain ⟨i, rest, rfl⟩ := List.exists_cons_of_ne_nil hne
      have hfree := hs.free i List.mem_cons_self
      have hw₂ : (passEnded number (i :: rest) left w₁).Meets calm := hw₁
      rw [hleft] at hw₂
      match hvalue : value i.value (.ofRoot root')
        (passEnded number (i :: rest) (i :: rest) w₁) with
      | none => rw [force_of_none hvalue] at h; cases h
      | some (.ok v, w₂) => rw [force_of_free hvalue hfree] at h; cases h
      | some (.error d', w₂) =>
        rw [force_of_error hvalue] at h
        cases h
        exact ⟨i, rest, _, w', rfl, hw₂, hvalue, hfails⟩
    · rw [round_of_fruitful hpass hlen] at h
      cases h
  · obtain ⟨_, _, ho, -⟩ := pass_outcome hkeep [] hw hs hpass
    cases ho

theorem rounds_error {bound number : Nat} {pending : List Item} {root : Scope} {w w' : World σ}
    {d : Diagnostic} (hw : w.Meets calm) (hs : State value calm items start root pending)
    (hsub : pending.Sublist items)
    (h : rounds value bound number pending (.ofRoot root) w = some (.error d, w')) :
    ∃ top i rest w₁ w₂, State value calm items start top (i :: rest) ∧
      (i :: rest).Sublist items ∧ w₁.Meets calm ∧
      value i.value (.ofRoot top) w₁ = some (.error d, w₂) ∧
      ∀ j ∈ i :: rest, Fails value calm j top := by
  induction bound generalizing number pending root w with
  | zero => cases pending <;> cases h
  | succ bound ih =>
    by_cases hne : pending = []
    · subst hne
      cases h
    · match hround : round value number pending (.ofRoot root) w with
      | none =>
        rw [rounds, Run.bind_of_none hround] at h
        · cases h
        · exact hne
      | some (.error d', w₁) =>
        rw [rounds_of_error hne hround] at h
        cases h
        obtain ⟨i, rest, w₁, w₂, rfl, hw₁, hvalue, hfails⟩ := round_error hkeep hw hne hs hround
        exact ⟨root, i, rest, w₁, w₂, hs, hsub, hw₁, hvalue, hfails⟩
      | some (.ok (left, env₁), w₁) =>
        rw [rounds_of_ok hne hround] at h
        have hleft := (round_sublist hround).trans hsub
        rcases round_outcome hkeep hw hne hs hround with
          ⟨left', root', ho, hw₁, hstate, -⟩ | ⟨_, _, ho, -⟩
        · cases ho
          exact ih hw₁ hstate hleft h
        · cases ho

end Failed

section Blame

variable {host : Host σ} {calm : Sink → σ → Prop} {items : List Item} {start : Scope} {depth : Nat}

/-- **A failed resolution reports its first cause.** Its diagnostic is what the first item that
cannot be resolved comes to beside the root of all constants that can. This root is unique up to the
order of its bindings, which makes no difference where it does not show to native functions. -/
theorem all_blames_first (hdet : host.Deterministic calm) (hpres : host.Preserving calm)
    (hnames : (items.map fun i => i.name.name).Nodup)
    (hfree : ∀ i ∈ items, start.contains i.name.name = false) {w w' : World σ}
    (hw : w.Meets calm) {d : Diagnostic}
    (h : all (Eval.value host depth) items (.ofRoot start) w = some (.error d, w')) :
    (∃ root, IsLeastClosed host calm items start root ∧ Blames host calm items root d) ∧
      (host.Respects Comparison.bindings →
        ∀ root, IsLeastClosed host calm items start root → Blames host calm items root d) := by
  have hstate : State (Eval.value host depth) calm items start start items :=
    ⟨.start, fun _ hi => hi, hnames, hfree, fun _ hi => .inl hi⟩
  obtain ⟨top, i, rest, w₁, w₂, hs, hsub, hw₁, hvalue, hfails⟩ := rounds_error
    (fun hw h => meets_of_value hdet hw h) hw hstate (List.Sublist.refl items) h
  have hleast : IsLeastClosed host calm items start top :=
    ⟨hs.isClosed hdet hpres hnames hfree hfails,
      fun other hother => hs.reached.within_of_isClosed hpres hother⟩
  have hblames : Blames host calm items top d := by
    refine ⟨i, ?_, fun u hu => ⟨?_, fun n o u' hother => ?_⟩⟩
    · rw [← List.head?_filter, hs.filter_eq hsub hnames]
      rfl
    · have hruns := Comparison.value_runs hdet depth i.value
        (Comparison.steady_envs calm (.ofRoot top))
      obtain ⟨-, u', hvalue', -⟩ := hruns.of_steady hw₁ hu hvalue
      exact ⟨depth, u', hvalue'⟩
    · exact Eval.value_agrees hdet hu hw₁ hother hvalue
  refine ⟨⟨top, hleast, hblames⟩, fun hbindings root hroot => ?_⟩
  exact hblames.of_sameBindings hbindings (hleast.sameBindings hroot)

/-- The items `const a = b`, `const c = d` and `const b = "text"`. -/
def stuckProgram : List Item :=
  [⟨⟨"a", ⟨6, 7⟩⟩, .name ⟨"b", ⟨10, 11⟩⟩⟩, ⟨⟨"c", ⟨18, 19⟩⟩, .name ⟨"d", ⟨22, 23⟩⟩⟩,
    ⟨⟨"b", ⟨30, 31⟩⟩, .literal (.string "text") ⟨34, 40⟩⟩]

/-- The first item is resolved in the second pass, so that the second one is to blame. -/
theorem all_blames_first_stuckProgram :
    ∃ w', all (Eval.value Natives.host 2) stuckProgram (.ofRoot Natives.printRoot)
        ⟨Sink.empty none, [], Natives.initial⟩ = some (.error ⟨.unbound "d", ⟨22, 23⟩⟩, w') ∧
      ∃ root, IsLeastClosed Natives.host (Natives.Unlimited [.println]) stuckProgram
          Natives.printRoot root ∧
        Blames Natives.host (Natives.Unlimited [.println]) stuckProgram root
          ⟨.unbound "d", ⟨22, 23⟩⟩ := by
  have hcounts : ∀ n ∈ [Native.println], n.counts = false := by simp [Native.counts]
  have hlooks : ∀ n ∈ [Native.println], n.looks = false := by simp [Native.looks]
  obtain ⟨w', h⟩ : ∃ w', all (Eval.value Natives.host 2) stuckProgram (.ofRoot Natives.printRoot)
      ⟨Sink.empty none, [], Natives.initial⟩ = some (.error ⟨.unbound "d", ⟨22, 23⟩⟩, w') :=
    ⟨_, rfl⟩
  have hfree : ∀ i ∈ stuckProgram, Natives.printRoot.contains i.name.name = false := by decide
  have hblames := all_blames_first (Natives.deterministic hcounts)
    (Natives.preserving hcounts hlooks) (by decide) hfree ⟨rfl, rfl⟩ h
  exact ⟨w', h, hblames.1⟩

end Blame

end Resolve

end ExprLang
