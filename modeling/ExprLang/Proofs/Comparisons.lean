import ExprLang.Native
import ExprLang.Proofs.TwoRuns

/-!
# What native functions may depend on

Four ways to compare two runs, and the native functions that keep them.

* `Comparison.bindings`: one world, and roots of the same bindings. Every native function of the
  library keeps it: the order in which names were declared does not show.
* `Comparison.steady`: one environment, and any two worlds of a kind (`World.Meets`). It is kept by
  the functions whose outcome depends on their arguments, the environment and the parenthesis alone
  (`Host.Deterministic`). Printing is one of them where the output refuses nothing.
* `Comparison.growth`: the second root has all bindings of the first one, and perhaps more. It is
  kept by the functions whose success is preserved by that (`Host.Preserving`), so that functions
  that ask whether a name is bound do not keep it.
* `Comparison.echo`: as `growth`, and the second run writes what the first one wrote. The second
  world may be of another kind, with further native functions that the first one does not know
  (`Host.Echoing`).
-/

namespace ExprLang

variable {σ α : Type}

namespace Scope

/-- The same slots under the same names, in whatever order they were declared. -/
def SameBindings (a b : Scope) : Prop := ∀ name, a.get? name = b.get? name

/-- Every binding of the first scope is one of the second. -/
def Within (a b : Scope) : Prop := ∀ name slot, a.get? name = some slot → b.get? name = some slot

theorem Within.refl (a : Scope) : a.Within a := fun _ _ h => h

theorem Within.trans {a b c : Scope} (hab : a.Within b) (hbc : b.Within c) : a.Within c :=
  fun name slot h => hbc name slot (hab name slot h)

theorem Within.antisymm {a b : Scope} (hab : a.Within b) (hba : b.Within a) : a.SameBindings b := by
  intro name
  cases ha : a.get? name with
  | some slot => exact (hab name slot ha).symm
  | none =>
    cases hb : b.get? name with
    | some slot => rw [hba name slot hb] at ha; cases ha
    | none => rfl

end Scope

/-- Whether a world is of a kind, which the output and the state of the host decide. -/
def World.Meets (w : World σ) (calm : Sink → σ → Prop) : Prop := calm w.sink w.host

theorem World.Meets.record {w : World σ} {calm : Sink → σ → Prop} (h : w.Meets calm) (e : Event) :
    World.Meets { w with events := e :: w.events } calm := h

namespace Comparison

/-! ## Roots of the same bindings -/

/-- The same computation in the same world, beside roots of the same bindings. -/
def bindings : Comparison σ where
  root := Scope.SameBindings
  world := Eq
  mends := False
  outlasts := False
  get?_eq_some := by intro r r' name slot hr h; rw [← hr, h]
  get?_eq_none := by intro r r' name hr h; rw [← hr]; exact .inr h
  record := by rintro w _ e rfl; rfl

/-- Two runs in the same world come to exactly the same. -/
theorem Runs.eq_of_bindings {x y : Run σ α} (h : bindings.Runs Eq x y) : x = y := by
  funext w
  have hxy := h w w rfl
  generalize x w = o, y w = o' at hxy
  cases hxy with
  | ok hr hw => rw [hr, hw]
  | error hw => rw [hw]
  | silent => rfl
  | mended hm => exact hm.elim
  | outlasted ho => exact ho.elim

/-! ## Worlds of a kind -/

/-- The same computation in the same environment, in any two worlds of a kind. -/
def steady (calm : Sink → σ → Prop) : Comparison σ where
  root := Eq
  world w w' := w.Meets calm ∧ w'.Meets calm
  mends := False
  outlasts := False
  get?_eq_some := by rintro r _ name slot rfl h; exact h
  get?_eq_none := by rintro r _ name rfl h; exact .inr h
  record := by intro w w' e hw; exact hw

theorem steady_envs (calm : Sink → σ → Prop) (env : Env) : (steady calm).Envs env env := ⟨rfl, rfl⟩

/-- What a run comes to in one world it comes to in the other, and the worlds stay of their kind. -/
theorem Runs.of_steady {calm : Sink → σ → Prop} {x y : Run σ α} (h : (steady calm).Runs Eq x y)
    {w w₁ w' : World σ} (hw : w.Meets calm) (hw' : w'.Meets calm) {o : Except Diagnostic α}
    (hx : x w = some (o, w₁)) : w₁.Meets calm ∧ ∃ w₁', y w' = some (o, w₁') ∧ w₁'.Meets calm := by
  have hxy := h w w' ⟨hw, hw'⟩
  rw [hx] at hxy
  generalize y w' = o' at hxy
  cases hxy with
  | ok hr hw => subst hr; exact ⟨hw.1, _, rfl, hw.2⟩
  | error hw => exact ⟨hw.1, _, rfl, hw.2⟩
  | mended hm => exact hm.elim

/-! ## A root that gains bindings -/

/-- A computation in a world of a kind, and the same in another one beside a root with more
bindings. Only success is compared. -/
def growth (calm : Sink → σ → Prop) : Comparison σ where
  root := Scope.Within
  world w w' := w.Meets calm ∧ w'.Meets calm
  mends := True
  outlasts := True
  get?_eq_some := by intro r r' name slot hr h; exact hr name slot h
  get?_eq_none := by intro r r' name hr h; exact .inl trivial
  record := by intro w w' e hw; exact hw

/-- A run that succeeds beside one root succeeds with the same result beside a greater one. -/
theorem Runs.of_growth {calm : Sink → σ → Prop} {x y : Run σ α} (h : (growth calm).Runs Eq x y)
    {w w₁ w' : World σ} (hw : w.Meets calm) (hw' : w'.Meets calm) {a : α}
    (hx : x w = some (.ok a, w₁)) : ∃ w₁', y w' = some (.ok a, w₁') := by
  have hxy := h w w' ⟨hw, hw'⟩
  rw [hx] at hxy
  generalize y w' = o' at hxy
  cases hxy with
  | ok hr hw => subst hr; exact ⟨_, rfl⟩

/-- As `growth`, in worlds of two kinds. What the two runs write behind the texts `before` and
`before'` is the same. -/
def echo (calm calm' : Sink → σ → Prop) (before before' : String) : Comparison σ where
  root := Scope.Within
  world w w' := (w.Meets calm ∧ w'.Meets calm') ∧
    ∃ text, w.sink.written = before ++ text ∧ w'.sink.written = before' ++ text
  mends := True
  outlasts := True
  get?_eq_some := by intro r r' name slot hr h; exact hr name slot h
  get?_eq_none := by intro r r' name hr h; exact .inl trivial
  record := by intro w w' e hw; exact hw

/-- A run that succeeds beside one root succeeds beside a greater one, with the same result and the
same output. -/
theorem Runs.of_echo {calm calm' : Sink → σ → Prop} {x y : Run σ α}
    (h : ∀ before before', (echo calm calm' before before').Runs Eq x y) {w w₁ w' : World σ}
    (hw : w.Meets calm) (hw' : w'.Meets calm') {a : α} (hx : x w = some (.ok a, w₁)) :
    ∃ w₁' text, y w' = some (.ok a, w₁') ∧ w₁.sink.written = w.sink.written ++ text ∧
      w₁'.sink.written = w'.sink.written ++ text := by
  have hxy := h w.sink.written w'.sink.written w w' ⟨⟨hw, hw'⟩, "", by simp, by simp⟩
  rw [hx] at hxy
  generalize y w' = o' at hxy
  cases hxy with
  | ok hr hw =>
    subst hr
    obtain ⟨-, text, hwritten, hwritten'⟩ := hw
    exact ⟨_, text, rfl, hwritten, hwritten'⟩

end Comparison

open Comparison

/-- In worlds of a kind the outcome of a native function depends on its arguments, the environment
and the parenthesis alone, given that those of the calls it makes do. -/
def Host.Deterministic (host : Host σ) (calm : Sink → σ → Prop) : Prop :=
  host.Respects (steady calm)

/-- In worlds of a kind a native function that succeeds still does, with the same result, when the
root gains bindings, given that the calls it makes do. -/
def Host.Preserving (host : Host σ) (calm : Sink → σ → Prop) : Prop :=
  host.Respects (growth calm)

/-- A native function that succeeds in a world of the first kind does so in every world of the
second kind, with the same result and the same output, also when the root gains bindings, given that
the calls it makes do. -/
def Host.Echoing (host : Host σ) (calm calm' : Sink → σ → Prop) : Prop :=
  ∀ before before', host.Respects (echo calm calm' before before')

/-! ## The native functions of the library -/

namespace Sink

/-- An output without a limit takes every text. -/
theorem writeAll_of_unlimited {sink : Sink} (h : sink.limit = none) (texts : List String) :
    (sink.writeAll texts).1 = true ∧ (sink.writeAll texts).2.limit = none ∧
      (sink.writeAll texts).2.written = sink.written ++ String.join texts := by
  induction texts generalizing sink with
  | nil => exact ⟨rfl, h, by simp [writeAll, String.join]⟩
  | cons text rest ih =>
    have hwrite : ∃ next : Sink, sink.write? text = some next ∧ next.limit = none ∧
        next.written = sink.written ++ text := by
      unfold write? isFull
      rw [h]
      split
      · rename_i hempty
        rw [String.isEmpty_iff.1 hempty]
        exact ⟨sink, rfl, h, by simp⟩
      · exact ⟨_, rfl, rfl, rfl⟩
    obtain ⟨next, hnext, hlimit, hwritten⟩ := hwrite
    rw [writeAll, hnext, String.join_cons, ← String.append_assoc, ← hwritten]
    exact ih hlimit

end Sink

namespace Native

/-- The native functions that count their calls. -/
def counts : Native → Bool
  | counter => true
  | failFirst _ _ => true
  | _ => false

/-- The native functions that look at the environment. -/
def looks : Native → Bool
  | lookup => true
  | rootLookup => true
  | _ => false

/-- The text that printing writes: that of each argument, on a line. -/
def printed : List Argument → String
  | [] => ""
  | a :: rest => a.value.text ++ "\n" ++ printed rest

theorem printAll_of_unlimited {sink : Sink} (h : sink.limit = none) (args : List Argument) :
    (printAll args sink).1 = .ok .void ∧ (printAll args sink).2.limit = none ∧
      (printAll args sink).2.written = sink.written ++ printed args := by
  induction args generalizing sink with
  | nil => exact ⟨rfl, h, by simp [printAll, printed]⟩
  | cons a rest ih =>
    obtain ⟨htaken, hlimit, hline⟩ := Sink.writeAll_of_unlimited h (a.value.pieces ++ ["\n"])
    rw [printAll, Sink.writeLine]
    generalize sink.writeAll (a.value.pieces ++ ["\n"]) = written at htaken hlimit hline
    obtain ⟨taken, next⟩ := written
    simp only at htaken hlimit hline
    subst htaken
    have hprinted : sink.written ++ printed (a :: rest) = next.written ++ printed rest := by
      rw [hline, printed, String.join_append, Value.join_pieces]
      simp [String.append_assoc, String.join]
    rw [hprinted]
    exact ih hlimit

/-- What a native function does depends on the number of the call, on the bindings or on the output
only as its kind says. -/
theorem reply_outcome {c : Comparison σ} (native : Native) {calls calls' : Nat}
    (args : List Argument) {env env' : Env} (paren : Span) {caller caller' : Caller σ}
    (henv : c.Envs env env') (hcaller : c.Callers caller caller') {w w' : World σ}
    (hw : c.world w w') (hcalls : native.counts = true → calls = calls')
    (hlooks : native.looks = true → env.root.SameBindings env'.root)
    (hprint : (printAll args w.sink).1 = (printAll args w'.sink).1 ∧
      c.world { w with sink := (printAll args w.sink).2 }
        { w' with sink := (printAll args w'.sink).2 }) :
    c.Outcome Eq ((native.reply calls args env paren w).run caller)
      ((native.reply calls' args env' paren w').run caller') := by
  have hdone : ∀ o : Except Diagnostic Value,
      c.Outcome Eq ((Reply.done o w).run caller) ((Reply.done o w').run caller') := by
    intro o
    cases o with
    | ok v => exact .ok rfl hw
    | error d => exact .error hw
  cases native with
  | println =>
    obtain ⟨houtcome, hsink⟩ := hprint
    simp only [reply, Reply.run]
    rw [houtcome]
    cases (printAll args w'.sink).1 with
    | ok v => exact .ok rfl hsink
    | error d => exact .error hsink
  | constant v => exact hdone _
  | fail problem => exact hdone _
  | counter => rw [hcalls rfl]; exact hdone _
  | failFirst times v =>
    rw [hcalls rfl]
    simp only [reply]
    split
    · exact hdone _
    · exact hdone _
  | describe => exact hdone _
  | lookup =>
    have hsame : lookupIn env args paren = lookupIn env' args paren := by
      unfold lookupIn
      split
      · rw [Env.get?_eq_or, Env.get?_eq_or, henv.inner, hlooks rfl]
      · rfl
    simp only [reply]
    rw [hsame]
    exact hdone _
  | rootLookup =>
    have hsame : lookupIn env.atRoot args paren = lookupIn env'.atRoot args paren := by
      unfold lookupIn
      split
      · rw [Env.get?_eq_or, Env.get?_eq_or]
        exact congrArg (fun o => Except.ok ((Option.bind o Slot.value?).getD Value.void))
          (congrArg (Option.or none) (hlooks rfl _))
      · rfl
    simp only [reply]
    rw [hsame]
    exact hdone _
  | apply =>
    simp only [reply]
    split
    · rename_i f span rest
      have h := hcaller f rest paren henv w w' hw
      simp only [Reply.run]
      generalize caller f rest env paren w = o, caller' f rest env' paren w' = o' at h
      cases h with
      | ok hr hw => exact .ok hr hw
      | error hw => exact .error hw
      | silent => exact .silent
      | mended hm => exact .mended hm
      | outlasted ho => exact .outlasted ho
    · exact hdone _
  | argument index =>
    simp only [reply]
    split
    · exact hdone _
    · exact hdone _

end Native

namespace Natives

/-- A root that binds `println` alone. -/
def printRoot : Scope := [("println", .ofConstant (.function (.native "println" 0)) Span.origin)]

/-- An output that refuses nothing, and a table of given functions with any numbers of calls. -/
def Unlimited (natives : List Native) (sink : Sink) (table : Natives) : Prop :=
  sink.limit = none ∧ table.map Prod.fst = natives

theorem map_fst_count (handle : Nat) (table : Natives) :
    (table.count handle).map Prod.fst = table.map Prod.fst := by
  unfold count
  apply List.ext_getElem?
  intro i
  rw [List.getElem?_map, List.getElem?_map, List.getElem?_modify]
  by_cases h : handle = i
  · cases table[i]? <;> simp [h]
  · cases table[i]? <;> simp [h]

/-- The order of the bindings does not show to any native function. -/
theorem respects_bindings : host.Respects bindings := by
  rintro handle args env env' paren caller caller' henv hcaller w _ rfl
  simp only [host]
  split
  · exact Native.reply_outcome _ args paren henv hcaller rfl (fun _ => rfl) (fun _ => henv.root)
      ⟨rfl, rfl⟩
  · exact .error rfl

theorem unlimited_count {natives : List Native} {w : World Natives}
    (h : w.Meets (Unlimited natives)) (handle : Nat) :
    World.Meets { w with host := w.host.count handle } (Unlimited natives) :=
  ⟨h.1, (map_fst_count handle w.host).trans h.2⟩

theorem unlimited_print {natives : List Native} {w : World Natives}
    (h : w.Meets (Unlimited natives)) (args : List Argument) :
    World.Meets { w with sink := (Native.printAll args w.sink).2 } (Unlimited natives) :=
  ⟨(Native.printAll_of_unlimited h.1 args).2.1, h.2⟩

/-- A comparison of worlds with given functions, in the second of which there may be more of them,
that is kept when calls are counted and arguments printed. -/
structure Kept (c : Comparison Natives) (natives added : List Native) : Prop where
  meets : ∀ {w w'}, c.world w w' →
    w.Meets (Unlimited natives) ∧ w'.Meets (Unlimited (natives ++ added))
  count : ∀ {w w'} handle, c.world w w' →
    c.world { w with host := w.host.count handle } { w' with host := w'.host.count handle }
  print : ∀ {w w'} args, c.world w w' →
    c.world { w with sink := (Native.printAll args w.sink).2 }
      { w' with sink := (Native.printAll args w'.sink).2 }

theorem kept_of_world {c : Comparison Natives} {natives : List Native}
    (hworld : c.world = fun w w' => w.Meets (Unlimited natives) ∧ w'.Meets (Unlimited natives)) :
    Kept c natives [] := by
  refine ⟨fun {w w'} hw => ?_, fun {w w'} handle hw => ?_, fun {w w'} args hw => ?_⟩
  · rw [List.append_nil]
    rwa [hworld] at hw
  · rw [hworld] at hw ⊢
    exact ⟨unlimited_count hw.1 handle, unlimited_count hw.2 handle⟩
  · rw [hworld] at hw ⊢
    exact ⟨unlimited_print hw.1 args, unlimited_print hw.2 args⟩

theorem kept_echo (natives added : List Native) (before before' : String) :
    Kept (echo (Unlimited natives) (Unlimited (natives ++ added)) before before')
      natives added := by
  refine ⟨And.left, ?_, ?_⟩
  · rintro w w' handle ⟨⟨hw, hw'⟩, htext⟩
    exact ⟨⟨unlimited_count hw handle, unlimited_count hw' handle⟩, htext⟩
  · rintro w w' args ⟨⟨hw, hw'⟩, text, hwritten, hwritten'⟩
    have hprinted := (Native.printAll_of_unlimited hw.1 args).2.2
    have hprinted' := (Native.printAll_of_unlimited hw'.1 args).2.2
    rw [hwritten, String.append_assoc] at hprinted
    rw [hwritten', String.append_assoc] at hprinted'
    exact ⟨⟨unlimited_print hw args, unlimited_print hw' args⟩, _, hprinted, hprinted'⟩

/-- A handle stands for the same function in all worlds of given functions. A handle that stands for
none in the first world may stand for an added function in the second, if diagnostics of the first
run are forgiven. -/
theorem invoke_outcome {c : Comparison Natives} {natives added : List Native}
    (hkept : Kept c natives added) (hmends : added = [] ∨ c.mends)
    (handle : Nat) (args : List Argument) {env env' : Env} (paren : Span)
    {caller caller' : Caller Natives} (henv : c.Envs env env')
    (hcaller : c.Callers caller caller') (hcounts : ∀ n ∈ natives, n.counts = false)
    (hlooks : ∀ n ∈ natives, n.looks = true → env.root.SameBindings env'.root)
    {w w' : World Natives} (hw : c.world w w') :
    c.Outcome Eq ((host.invoke handle args env paren w).run caller)
      ((host.invoke handle args env' paren w').run caller') := by
  obtain ⟨⟨hlimit, htable⟩, hlimit', htable'⟩ := hkept.meets hw
  have hentry : (w.host[handle]?).map Prod.fst = natives[handle]? := by
    rw [← List.getElem?_map, htable]
  have hentry' : (w'.host[handle]?).map Prod.fst = (natives ++ added)[handle]? := by
    rw [← List.getElem?_map, htable']
  simp only [host]
  match hn : w.host[handle]? with
  | some (native, calls) =>
    rw [hn] at hentry
    have hlt : handle < natives.length := (List.getElem?_eq_some_iff.1 hentry.symm).1
    have hmem : native ∈ natives := List.mem_of_getElem? hentry.symm
    rw [List.getElem?_append_left hlt, ← hentry] at hentry'
    obtain ⟨⟨native', calls'⟩, hn', hnative⟩ := Option.map_eq_some_iff.1 hentry'
    simp only at hnative
    subst hnative
    obtain ⟨hprinted, -⟩ := Native.printAll_of_unlimited hlimit args
    obtain ⟨hprinted', -⟩ := Native.printAll_of_unlimited hlimit' args
    rw [hn']
    refine Native.reply_outcome native' args paren henv hcaller (hkept.count handle hw) ?_
      (hlooks native' hmem)
      ⟨hprinted.trans hprinted'.symm, hkept.print args (hkept.count handle hw)⟩
    intro h
    rw [hcounts native' hmem] at h
    cases h
  | none =>
    rcases hmends with rfl | hmends
    · rw [hn] at hentry
      rw [List.append_nil, ← hentry, Option.map_none, Option.map_eq_none_iff] at hentry'
      rw [hentry']
      exact .error hw
    · exact .mended hmends

/-- Native functions that do not count their calls are deterministic on an output that refuses
nothing. -/
theorem deterministic {natives : List Native} (hcounts : ∀ n ∈ natives, n.counts = false) :
    host.Deterministic (Unlimited natives) := by
  intro handle args env env' paren caller caller' henv hcaller w w' hw
  refine invoke_outcome (kept_of_world rfl) (.inl rfl) handle args paren henv hcaller hcounts ?_ hw
  intro n hn hl name
  rw [henv.root]

/-- The success of native functions that neither count their calls nor look at the environment is
preserved when the root gains bindings. -/
theorem preserving {natives : List Native} (hcounts : ∀ n ∈ natives, n.counts = false)
    (hlooks : ∀ n ∈ natives, n.looks = false) : host.Preserving (Unlimited natives) := by
  intro handle args env env' paren caller caller' henv hcaller w w' hw
  refine invoke_outcome (kept_of_world rfl) (.inl rfl) handle args paren henv hcaller hcounts ?_ hw
  intro n hn hl
  rw [hlooks n hn] at hl
  cases hl

/-- Such functions also write the same again, whatever functions are added to the table. -/
theorem echoing {natives : List Native} (hcounts : ∀ n ∈ natives, n.counts = false)
    (hlooks : ∀ n ∈ natives, n.looks = false) (added : List Native) :
    host.Echoing (Unlimited natives) (Unlimited (natives ++ added)) := by
  intro before before' handle args env env' paren caller caller' henv hcaller w w' hw
  refine invoke_outcome (kept_echo natives added before before') (.inr trivial) handle args paren
    henv hcaller hcounts ?_ hw
  intro n hn hl
  rw [hlooks n hn] at hl
  cases hl

end Natives

end ExprLang
