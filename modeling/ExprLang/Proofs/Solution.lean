import ExprLang.Session
import ExprLang.Proofs.Attempts

/-!
# A resolved program solves its equations

The root of a session binds the native functions and the items of the program under names of their
own, each as a constant, and nothing else (`Session.Binds`). That holds whatever the native
functions do. If they are deterministic, and a greater root preserves their success, then the
initializer of each item, evaluated beside the whole root, gives the value that the item is bound
to: the root is a solution of the equations that the program consists of (`Session.build_solves`).

An item was evaluated beside the root of its time, which was smaller. What it gave then it still
gives, since its success is preserved.
-/

namespace ExprLang

variable {σ : Type}

namespace Resolve

namespace Course

variable {root root' : Scope} {pending left : List Item} {as : List Attempt}

/-- A binding stood in the root before, or belongs to an item. -/
theorem origin (h : Course root pending as root' left) {name : String} {slot : Slot}
    (hslot : root'.get? name = some slot) :
    root.get? name = some slot ∨
      ∃ i ∈ pending, i.name.name = name ∧ ∃ v, slot = .ofConstant v i.value.span := by
  induction h with
  | nil _ => exact .inl hslot
  | @ok _ _ _ rest _ i v _ perm _ _ ih =>
    rcases ih hslot with hbound | ⟨j, hj, hname, hv⟩
    · rw [binding, Scope.get?_cons] at hbound
      split at hbound
      · rename_i hname
        cases hbound
        exact .inr ⟨i, perm.mem_iff.2 List.mem_cons_self, hname.symm, v, rfl⟩
      · exact .inl hbound
    · exact .inr ⟨j, perm.mem_iff.2 (List.mem_cons_of_mem i hj), hname, hv⟩
  | error _ _ ih => exact ih hslot

end Course

end Resolve

/-- The slot of a native function. -/
def NativeRef.slot (n : NativeRef) : Slot :=
  .ofConstant (.function (.native n.name n.handle)) Span.origin

namespace Session

/-! ## The native functions -/

/-- A root with native functions added to another one. -/
structure NativesBound (natives : List NativeRef) (root root' : Scope) : Prop where
  distinct : (natives.map NativeRef.name).Nodup
  free : ∀ n ∈ natives, root.contains n.name = false
  within : root.Within root'
  bound : ∀ n ∈ natives, root'.get? n.name = some n.slot
  origin : ∀ {name slot}, root'.get? name = some slot →
    root.get? name = some slot ∨ ∃ n ∈ natives, n.name = name ∧ slot = n.slot

theorem bindNative_eq_ok {n : NativeRef} {root : Scope} {env : Env} {w w' : World σ}
    (h : bindNative n (.ofRoot root) w = some (.ok env, w')) :
    root.contains n.name = false ∧ env = .ofRoot ((n.name, n.slot) :: root) ∧ w' = w := by
  cases hname : root.contains n.name with
  | true =>
    have hdeclared : (Env.ofRoot root).innermost.contains n.name = true := hname
    rw [bindNative, Eval.declare_of_contains _ _ _ _ hdeclared] at h
    cases h
  | false =>
    have hfree : ¬(Env.ofRoot root).innermost.contains n.name = true := by
      show ¬root.contains n.name = true
      simp [hname]
    rw [bindNative, Eval.declare_of_not_contains _ _ _ _ hfree] at h
    cases h
    exact ⟨rfl, rfl, rfl⟩

theorem NativesBound.nil (root : Scope) : NativesBound [] root root :=
  ⟨by simp, by simp, Scope.Within.refl root, by simp, .inl⟩

theorem NativesBound.cons {n : NativeRef} {natives : List NativeRef} {root root' : Scope}
    (hfree : root.contains n.name = false)
    (h : NativesBound natives ((n.name, n.slot) :: root) root') :
    NativesBound (n :: natives) root root' := by
  have hself : Scope.get? ((n.name, n.slot) :: root) n.name = some n.slot :=
    Scope.get?_cons_self n.name n.slot root
  have hother : ∀ m ∈ natives, m.name ≠ n.name := by
    intro m hm hname
    have hm' := h.free m hm
    rw [hname, Scope.contains_of_get? hself] at hm'
    cases hm'
  refine ⟨?_, ?_, (Scope.within_cons hfree n.slot).trans h.within, ?_, fun {name slot} hslot => ?_⟩
  · rw [List.map_cons, List.nodup_cons]
    refine ⟨fun hmem => ?_, h.distinct⟩
    obtain ⟨m, hm, hname⟩ := List.mem_map.1 hmem
    exact hother m hm hname
  · intro m hm
    rcases List.mem_cons.1 hm with rfl | hm
    · exact hfree
    · rw [← Scope.contains_cons_of_ne (hother m hm) n.slot root]
      exact h.free m hm
  · intro m hm
    rcases List.mem_cons.1 hm with rfl | hm
    · exact h.within _ _ hself
    · exact h.bound m hm
  · rcases h.origin hslot with hbound | ⟨m, hm, hname, hs⟩
    · rw [Scope.get?_cons] at hbound
      split at hbound
      · rename_i hname
        cases hbound
        exact .inr ⟨n, List.mem_cons_self, hname.symm, rfl⟩
      · exact .inl hbound
    · exact .inr ⟨m, List.mem_cons_of_mem n hm, hname, hs⟩

theorem bindNatives_eq_ok {natives : List NativeRef} {root : Scope} {env : Env} {w w' : World σ}
    (h : bindNatives natives (.ofRoot root) w = some (.ok env, w')) :
    ∃ root', env = .ofRoot root' ∧ NativesBound natives root root' ∧
      w'.sink = w.sink ∧ w'.host = w.host := by
  induction natives generalizing root w with
  | nil =>
    cases h
    exact ⟨root, rfl, .nil root, rfl, rfl⟩
  | cons n natives ih =>
    obtain ⟨_, w₁, hrecord, h⟩ := Run.bind_eq_ok h
    cases hrecord
    obtain ⟨env₁, w₂, hbind, h⟩ := Run.bind_eq_ok h
    obtain ⟨hfree, rfl, rfl⟩ := bindNative_eq_ok hbind
    obtain ⟨root', henv, hbound, hsink, hhost⟩ := ih h
    exact ⟨root', henv, hbound.cons hfree, hsink, hhost⟩

/-! ## The whole program -/

/-- A root binds native functions and items under different names, as constants, and nothing else.
Each native function is bound to itself, and each item to a value that came from its initializer. -/
structure Binds (root : Scope) (natives : List NativeRef) (items : List Item) : Prop where
  distinct : (natives.map NativeRef.name ++ items.map fun i => i.name.name).Nodup
  bound : ∀ name, root.contains name = true ↔
    name ∈ natives.map NativeRef.name ++ items.map fun i => i.name.name
  constant : ∀ name slot, root.get? name = some slot → ∃ v origin, slot = .ofConstant v origin
  native : ∀ n ∈ natives, root.get? n.name = some n.slot
  item : ∀ i ∈ items, ∃ v, root.get? i.name.name = some (.ofConstant v i.value.span)

/-- Natives bound to an empty root, and then items until none is pending. -/
theorem Binds.of_course {natives : List NativeRef} {items : List Item} {as : List Attempt}
    {start root : Scope} (hnatives : NativesBound natives [] start)
    (hcourse : Resolve.Course start items as root []) : Binds root natives items := by
  obtain ⟨hdistinct, hfree⟩ := hcourse.names
  have hnative : ∀ n ∈ natives, root.get? n.name = some n.slot :=
    fun n hn => hcourse.within _ _ (hnatives.bound n hn)
  have hitem : ∀ i ∈ items, ∃ v, root.get? i.name.name = some (.ofConstant v i.value.span) := by
    intro i hi
    obtain ⟨v, _, _, -, -, -, hbound⟩ := hcourse.once i hi
    exact ⟨v, hbound⟩
  have horigin : ∀ name slot, root.get? name = some slot →
      (∃ n ∈ natives, n.name = name ∧ slot = n.slot) ∨
        ∃ i ∈ items, i.name.name = name ∧ ∃ v, slot = .ofConstant v i.value.span := by
    intro name slot hslot
    rcases hcourse.origin hslot with hstart | hi
    · rcases hnatives.origin hstart with hempty | hn
      · cases hempty
      · exact .inl hn
    · exact .inr hi
  refine ⟨?_, fun name => ?_, fun name slot hslot => ?_, hnative, hitem⟩
  · rw [List.nodup_append]
    refine ⟨hnatives.distinct, hdistinct, fun a ha b hb hab => ?_⟩
    obtain ⟨n, hn, rfl⟩ := List.mem_map.1 ha
    obtain ⟨i, hi, rfl⟩ := List.mem_map.1 hb
    have hclash := hfree i hi
    rw [← hab, Scope.contains_of_get? (hnatives.bound n hn)] at hclash
    cases hclash
  · rw [List.mem_append]
    constructor
    · intro hcontains
      obtain ⟨slot, hslot⟩ := Option.isSome_iff_exists.1 hcontains
      rcases horigin name slot hslot with ⟨n, hn, hname, -⟩ | ⟨i, hi, hname, -⟩
      · exact .inl (List.mem_map.2 ⟨n, hn, hname⟩)
      · exact .inr (List.mem_map.2 ⟨i, hi, hname⟩)
    · rintro (hname | hname)
      · obtain ⟨n, hn, rfl⟩ := List.mem_map.1 hname
        exact Scope.contains_of_get? (hnative n hn)
      · obtain ⟨i, hi, rfl⟩ := List.mem_map.1 hname
        obtain ⟨v, hv⟩ := hitem i hi
        exact Scope.contains_of_get? hv
  · rcases horigin name slot hslot with ⟨n, -, -, hs⟩ | ⟨i, -, -, v, hs⟩
    · exact ⟨_, _, hs⟩
    · exact ⟨v, _, hs⟩

/-- What a build that succeeds consists of. -/
theorem build_eq_ok {value : Evaluator σ} {document : Document} {style : Style}
    {natives : List NativeRef} {w w' : World σ} {s : Session}
    (h : build value document style natives w = some (.ok s, w')) :
    ∃ items start root w₁, Item.ofText 0 document.text = .ok items ∧
      NativesBound (NativeRef.builtin ++ natives) [] start ∧ w₁.sink = w.sink ∧ w₁.host = w.host ∧
      Resolve.all value items (.ofRoot start) w₁ = some (.ok (.ofRoot root), w') ∧
      s.root = root := by
  obtain ⟨items, w₁, hread, h⟩ := Run.bind_eq_ok h
  obtain ⟨_, w₂, hrecord, hread⟩ := Run.bind_eq_ok hread
  cases hrecord
  obtain ⟨env, w₃, hbind, h⟩ := Run.bind_eq_ok h
  obtain ⟨start, rfl, hnatives, hsink, hhost⟩ := bindNatives_eq_ok hbind
  obtain ⟨env', w₄, hall, h⟩ := Run.bind_eq_ok h
  cases h
  obtain ⟨_, root, rfl, -, -⟩ := Resolve.rounds_noted (Nat.le_refl _) hall
  have hitems : Item.ofText 0 document.text = .ok items := by
    have hpair := Option.some.inj hread
    exact congrArg Prod.fst hpair
  have hw₁ : w₁.sink = w.sink ∧ w₁.host = w.host := by
    have hpair := congrArg Prod.snd (Option.some.inj hread)
    dsimp only at hpair
    rw [← hpair]
    exact ⟨rfl, rfl⟩
  exact ⟨items, start, root, w₃, hitems, hnatives, hsink.trans hw₁.1, hhost.trans hw₁.2, hall, rfl⟩

/-- Beside the root that a resolution led to, an item still gives the value that it is bound to. -/
theorem gives_of_all {host : Host σ} {calm : Sink → σ → Prop} (hdet : host.Deterministic calm)
    (hpres : host.Preserving calm) {depth : Nat} {items : List Item} {start root : Scope}
    {w w' : World σ} (hw : w.Meets calm)
    (h : Resolve.all (Eval.value host depth) items (.ofRoot start) w =
      some (.ok (.ofRoot root), w')) {i : Item} (hi : i ∈ items) :
    ∃ v, root.get? i.name.name = some (.ofConstant v i.value.span) ∧
      Resolve.Gives (Eval.value host depth) calm i root v := by
  obtain ⟨as, _, hroot, hcourse, -⟩ := Resolve.rounds_noted (Nat.le_refl _) h
  cases hroot
  obtain ⟨hnames, hfree⟩ := hcourse.names
  have hstate : Resolve.State (Eval.value host depth) calm items start start items :=
    ⟨.start, fun _ hj => hj, hnames, hfree, fun _ hj => .inl hj⟩
  have hended := Resolve.rounds_ended (fun hw h => Resolve.meets_of_value hdet hw h) hw
    (Nat.le_refl _) hstate h
  cases hended with
  | resolved hs =>
    obtain ⟨v, _, _, -, -, -, hbound⟩ := hcourse.once i hi
    rcases hs.reached.origin hbound with hstart | ⟨j, hj, hname, r, u, hr, hu, hslot⟩
    · rw [Scope.get?_of_not_contains (hfree i hi)] at hstart
      cases hstart
    · obtain rfl : j = i := List.inj_on_of_nodup_map hnames hj hi hname
      have hvalue : some v = some u := congrArg Slot.value? hslot
      cases hvalue
      exact ⟨v, hbound, hu.of_within hpres hr⟩

/-- **A successful build solves the program.** The root binds `println`, the other native functions
and the items, and nothing else. Where native functions are deterministic and their success is
preserved by a greater root, the initializer of each item, evaluated beside the root in any world of
the kind, comes to the value that the item is bound to. -/
theorem build_solves {host : Host σ} {depth : Nat} {document : Document} {style : Style}
    {natives : List NativeRef} {w w' : World σ} {s : Session}
    (h : build (Eval.value host depth) document style natives w = some (.ok s, w')) :
    ∃ items, Item.ofText 0 document.text = .ok items ∧
      Binds s.root (NativeRef.builtin ++ natives) items ∧
      ∀ calm : Sink → σ → Prop, host.Deterministic calm → host.Preserving calm → w.Meets calm →
        ∀ i ∈ items, ∃ v, s.root.get? i.name.name = some (.ofConstant v i.value.span) ∧
          ∀ w₁ : World σ, w₁.Meets calm →
            (∃ depth' w₂, Eval.value host depth' i.value s.env w₁ = some (.ok v, w₂)) ∧
            ∀ depth' o w₂, Eval.value host depth' i.value s.env w₁ = some (o, w₂) → o = .ok v := by
  obtain ⟨items, start, root, w₁, hitems, hnatives, hsink, hhost, hall, hroot⟩ := build_eq_ok h
  obtain ⟨as, _, hroot', hcourse, -⟩ := Resolve.rounds_noted (Nat.le_refl _) hall
  cases hroot'
  have henv : s.env = .ofRoot root := by rw [env, hroot]
  rw [hroot, henv]
  refine ⟨items, hitems, .of_course hnatives hcourse, fun calm hdet hpres hw i hi => ?_⟩
  have hw₁ : w₁.Meets calm := by
    rw [World.Meets, hsink, hhost]
    exact hw
  obtain ⟨v, hbound, w₂, w₂', hw₂, hvalue⟩ := gives_of_all hdet hpres hw₁ hall hi
  refine ⟨v, hbound, fun w₃ hw₃ => ⟨?_, fun depth' o w₄ hother => ?_⟩⟩
  · obtain ⟨-, w₄, hvalue', -⟩ :=
      (Comparison.value_runs hdet depth i.value (Comparison.steady_envs calm _)).of_steady hw₂ hw₃
        hvalue
    exact ⟨depth, w₄, hvalue'⟩
  · exact Eval.value_agrees hdet hw₃ hw₂ hother hvalue

/-- The program `const a = b const b = answer()`, whose first item has to wait for the second. -/
def answered : Document := ⟨"main", "const a = b const b = answer()"⟩

/-- A world in which the native function of handle one gives a text. -/
def answering : World Natives :=
  ⟨Sink.empty none, [], [(.println, 0), (.constant (.string "text"), 0)]⟩

theorem build_solves_answered :
    ∃ s w', build (Eval.value Natives.host 4) answered .plain [⟨"answer", 1⟩] answering =
        some (.ok s, w') ∧
      ∃ items, Item.ofText 0 answered.text = .ok items ∧
        Binds s.root [⟨"println", 0⟩, ⟨"answer", 1⟩] items ∧
        ∀ i ∈ items, ∃ v, s.root.get? i.name.name = some (.ofConstant v i.value.span) ∧
          ∃ depth w₂, Eval.value Natives.host depth i.value s.env answering = some (.ok v, w₂) := by
  have hok : (build (Eval.value Natives.host 4) answered .plain [⟨"answer", 1⟩] answering).map
      (fun r => r.1.isOk) = some true := by decide +kernel
  obtain ⟨⟨d | s, w'⟩, h, hbuilt⟩ := Option.map_eq_some_iff.1 hok
  · cases hbuilt
  obtain ⟨items, hitems, hbinds, hsolves⟩ := build_solves h
  refine ⟨s, w', h, items, hitems, hbinds, fun i hi => ?_⟩
  have hcounts : ∀ n ∈ [Native.println, .constant (.string "text")], n.counts = false := by
    simp [Native.counts]
  have hlooks : ∀ n ∈ [Native.println, .constant (.string "text")], n.looks = false := by
    simp [Native.looks]
  obtain ⟨v, hbound, hvalue⟩ := hsolves _ (Natives.deterministic hcounts)
    (Natives.preserving hcounts hlooks) ⟨rfl, rfl⟩ i hi
  exact ⟨v, hbound, (hvalue answering ⟨rfl, rfl⟩).1⟩

end Session

end ExprLang
