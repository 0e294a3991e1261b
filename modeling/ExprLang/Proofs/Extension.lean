import ExprLang.Proofs.Solution

/-!
# A root that gains bindings

What succeeds beside a root succeeds beside a greater one, with the same result and the same output.
No part of evaluation falls back on a name being absent, so this holds through blocks and their
constants, through calls, which start again from the root, and through the types that are evaluated
with them (`Comparison.value_runs`). It is asked of the native functions (`Host.Echoing`).

In a session a native function can be bound after the program has been resolved. The calls that
succeeded before do so afterwards (`Session.growth_repeats`), in a world whose host knows the new
function as well.
-/

namespace ExprLang

variable {σ α : Type}

open Comparison

/-- What one computation gives in a world of the first kind, another one gives in every world of the
second kind, and the texts that the two write are the same. -/
def Run.Repeats (calm calm' : Sink → σ → Prop) (x y : Run σ α) : Prop :=
  ∀ (w w₁ w' : World σ) (a : α), w.Meets calm → w'.Meets calm' → x w = some (.ok a, w₁) →
    ∃ w₁' text, y w' = some (.ok a, w₁') ∧ w₁.sink.written = w.sink.written ++ text ∧
      w₁'.sink.written = w'.sink.written ++ text

namespace Session

variable {s s' : Session}

theorem main?_of_within (hroot : s.root.Within s'.root) {r : Function × Span}
    (h : s.main? = .ok r) : s'.main? = .ok r := by
  unfold main? at h ⊢
  cases hmain : s.root.get? "main" with
  | none => rw [hmain] at h; cases h
  | some slot =>
    rw [hmain] at h
    rw [hroot _ _ hmain]
    exact h

theorem function?_of_within (hroot : s.root.Within s'.root) {name : String} {r : Function × Span}
    (h : s.function? name = .ok r) : s'.function? name = .ok r := by
  unfold function? at h ⊢
  cases hslot : s.root.get? name with
  | none => rw [hslot] at h; cases h
  | some slot =>
    rw [hslot] at h
    rw [hroot _ _ hslot]
    exact h

theorem register_eq_ok {native : NativeRef} {w w' : World σ}
    (h : s.register native w = some (.ok s', w')) : s.root.Within s'.root := by
  obtain ⟨env, w₁, hbind, hend⟩ := Run.bind_eq_ok h
  obtain ⟨hfree, rfl, rfl⟩ := bindNative_eq_ok hbind
  cases hend
  exact Scope.within_cons hfree native.slot

/-- The start of a function that is found again beside a greater root. -/
theorem start_repeats {host : Host σ} {calm calm' : Sink → σ → Prop}
    (hhost : host.Echoing calm calm') (hroot : s.root.Within s'.root) (depth : Nat)
    {f f' : Except Diagnostic (Function × Span)} (hf : ∀ r, f = .ok r → f' = .ok r) :
    Run.Repeats calm calm' (start (Eval.call host depth) s f)
      (start (Eval.call host depth) s' f') := by
  intro w w₁ w' v hw hw' h
  cases f with
  | error d => cases h
  | ok r =>
    rw [hf r rfl]
    refine Runs.of_echo (fun before before' => ?_) hw hw' h
    have henv : (echo calm calm' before before').Envs s.env s'.env := ⟨rfl, hroot⟩
    exact (depth_runs (hhost before before') depth).2 r.1 [] r.2 henv

/-- **More bindings in the root change no success.** An expression that evaluates successfully does
so beside every root that has the bindings of the first one and perhaps more, with the same result
and the same output. After a native function is bound, `main` and the other functions of a session
give what they gave before. -/
theorem growth_repeats {host : Host σ} {calm calm' : Sink → σ → Prop}
    (hhost : host.Echoing calm calm') (depth : Nat) :
    (∀ (e : Expr) (env env' : Env), env'.inner = env.inner → env.root.Within env'.root →
      Run.Repeats calm calm' (Eval.value host depth e env) (Eval.value host depth e env')) ∧
    ∀ (s s' : Session) (native : NativeRef) (u u' : World σ),
      s.register native u = some (.ok s', u') →
        Run.Repeats calm calm' (s.callMain (Eval.call host depth))
          (s'.callMain (Eval.call host depth)) ∧
        ∀ name, Run.Repeats calm calm' (s.callFunction (Eval.call host depth) name)
          (s'.callFunction (Eval.call host depth) name) := by
  refine ⟨fun e env env' hinner hroot w w₁ w' v hw hw' h => ?_, fun s s' native u u' h => ⟨?_, ?_⟩⟩
  · refine Runs.of_echo (fun before before' => ?_) hw hw' h
    exact value_runs (hhost before before') depth e ⟨hinner.symm, hroot⟩
  · have hroot := register_eq_ok h
    exact start_repeats hhost hroot depth fun r => main?_of_within hroot
  · intro name
    have hroot := register_eq_ok h
    exact start_repeats hhost hroot depth fun r => function?_of_within hroot

/-- The function `void main() { println("a") }`. -/
def greeting : Lambda :=
  ⟨0, .literal (.type .void) ⟨0, 4⟩, [],
    ⟨[.expr (.call (.name ⟨"println", ⟨14, 21⟩⟩) [.literal (.string "a") ⟨22, 25⟩]
      ⟨21, 22⟩ ⟨25, 26⟩)], ⟨12, 28⟩⟩⟩

/-- A session with that function, and with `println` as its only native function. -/
def greeter : Session :=
  ⟨⟨"main", "void main() \x7b println(\"a\") \x7d"⟩, .plain,
    ("main", .ofConstant (.function (.defined greeting)) greeting.span) :: Natives.printRoot⟩

/-- A function that counts its calls is bound after `main` was called, and `main` prints its line
once more. -/
theorem growth_repeats_greeter :
    ∃ (s : Session) (w₁ w₁' : World Natives) (text : String),
      greeter.register ⟨"later", 1⟩ w₁ = some (.ok s, w₁) ∧
        greeter.callMain (Eval.call Natives.host 4) ⟨Sink.empty none, [], Natives.initial⟩ =
          some (.ok .void, w₁) ∧
        s.callMain (Eval.call Natives.host 4)
          ⟨⟨none, 1, "a\n"⟩, [], [(.println, 1), (.counter, 0)]⟩ = some (.ok .void, w₁') ∧
        w₁.sink.written = text ∧ w₁'.sink.written = "a\n" ++ text := by
  obtain ⟨w₁, h⟩ : ∃ w₁, greeter.callMain (Eval.call Natives.host 4)
      ⟨Sink.empty none, [], Natives.initial⟩ = some (.ok .void, w₁) := ⟨_, rfl⟩
  obtain ⟨s, hregister⟩ : ∃ s, greeter.register ⟨"later", 1⟩ w₁ = some (.ok s, w₁) := ⟨_, rfl⟩
  have hcounts : ∀ n ∈ [Native.println], n.counts = false := by simp [Native.counts]
  have hlooks : ∀ n ∈ [Native.println], n.looks = false := by simp [Native.looks]
  have hmain := ((growth_repeats (Natives.echoing hcounts hlooks [.counter]) 4).2 greeter s _ _ _
    hregister).1
  obtain ⟨w₁', text, h', htext, htext'⟩ := hmain _ w₁
    ⟨⟨none, 1, "a\n"⟩, [], [(.println, 1), (.counter, 0)]⟩ .void ⟨rfl, rfl⟩ ⟨rfl, rfl⟩ h
  refine ⟨s, w₁, w₁', text, hregister, h, h', ?_, htext'⟩
  rw [htext]
  exact String.empty_append

end Session

end ExprLang
