import Mathlib.Data.List.Infix
import Mathlib.Tactic.Choose
import ExprLang.Proofs.Consumption
import ExprLang.Proofs.Parsing

/-!
# One token of lookahead

A parser looks at tokens one at a time. What it does is a script (`Script`) that looks at the next
token or takes it, and goes on with what it finds. Every parser of the language follows such a
script (`Parser.Reads`), so that it can be played on a reader (`Reader`) that pulls a lexeme from
the lexer only when it is asked for, and holds at most one token that has been looked at.

A script that is played uses lexemes up from the front, each once (`Script.play_of_shows`). One that
succeeds has used tokens only, and would do the same with nothing behind the token it may have
looked at (`Script.run_ok`); so the tokens that an item has used up are those of its derivation. A
call for an item uses at least one lexeme up, problem or not, unless there is none
(`Parser.items_calls`).
-/

namespace ExprLang

open Token (lexemes)

/-! ## Scripts -/

/-- What a parser does: it ends, or it looks at the next token or takes it, and goes on. There is no
token at the end of the text. -/
inductive Script (α : Type) where
  | done (result : Except Diagnostic α)
  | look (next : Option Token → Script α)
  | take (next : Option Token → Script α)

namespace Script

variable {α β : Type}

/-- What a script does to lexemes. One that reads as a problem ends it, and is used up. -/
def run : Script α → List Lexeme → Except Diagnostic α × List Lexeme
  | done result, ls => (result, ls)
  | look next, [] => (next none).run []
  | look next, l :: ls =>
    match l.token with
    | .ok t => (next (some t)).run (l :: ls)
    | .error d => (.error d, ls)
  | take next, [] => (next none).run []
  | take next, l :: ls =>
    match l.token with
    | .ok t => (next (some t)).run ls
    | .error d => (.error d, ls)

/-- One script after another. -/
def andThen : Script α → (α → Script β) → Script β
  | done (.ok a), f => f a
  | done (.error d), _ => done (.error d)
  | look next, f => look fun t => (next t).andThen f
  | take next, f => take fun t => (next t).andThen f

theorem run_andThen (s : Script α) (f : α → Script β) (ls : List Lexeme) :
    (s.andThen f).run ls =
      match s.run ls with
      | (.ok a, rest) => (f a).run rest
      | (.error d, rest) => (.error d, rest) := by
  induction s generalizing ls with
  | done result => cases result <;> rfl
  | look next ih =>
    cases ls with
    | nil => simp only [andThen, run, ih]
    | cons l ls => cases hl : l.token <;> simp only [andThen, run, hl, ih]
  | take next ih =>
    cases ls with
    | nil => simp only [andThen, run, ih]
    | cons l ls => cases hl : l.token <;> simp only [andThen, run, hl, ih]

/-- What is left are the last lexemes. -/
theorem run_suffix (s : Script α) (ls : List Lexeme) : (s.run ls).2 <:+ ls := by
  induction s generalizing ls with
  | done result => exact List.suffix_rfl
  | look next ih =>
    cases ls with
    | nil => exact ih none []
    | cons l ls =>
      cases hl : l.token with
      | ok t => simpa only [run, hl] using ih (some t) (l :: ls)
      | error d => simp only [run, hl, List.suffix_cons]
  | take next ih =>
    cases ls with
    | nil => exact ih none []
    | cons l ls =>
      cases hl : l.token with
      | ok t => simpa only [run, hl] using (ih (some t) ls).trans (List.suffix_cons l ls)
      | error d => simp only [run, hl, List.suffix_cons]

/-- The token in front of some lexemes, if the first of them reads as one. -/
def ahead : List Lexeme → List Token
  | [] => []
  | l :: _ =>
    match l.token with
    | .ok t => [t]
    | .error _ => []

theorem length_ahead_le (ls : List Lexeme) : (ahead ls).length ≤ ls.length := by
  cases ls with
  | nil => exact Nat.le_refl 0
  | cons l ls => cases hl : l.token <;> simp [ahead, hl]

/-- A script that succeeds has used tokens up. It may have looked at one more, but at nothing behind
that. -/
theorem run_ok {s : Script α} {ls rest : List Lexeme} {a : α} (h : s.run ls = (.ok a, rest)) :
    ∃ ts, ls = lexemes ts ++ rest ∧
      s.run (lexemes (ts ++ ahead rest)) = (.ok a, lexemes (ahead rest)) := by
  induction s generalizing ls with
  | done result =>
    cases h
    exact ⟨[], rfl, rfl⟩
  | look next ih =>
    cases ls with
    | nil =>
      obtain ⟨ts, hls, hrun⟩ := ih none h
      obtain ⟨hts, rfl⟩ := List.append_eq_nil_iff.1 hls.symm
      obtain rfl := List.map_eq_nil_iff.1 hts
      exact ⟨[], rfl, hrun⟩
    | cons l ls =>
      cases hl : l.token with
      | error d => simp [run, hl] at h
      | ok t =>
        simp only [run, hl] at h
        obtain ⟨ts, hls, hrun⟩ := ih (some t) h
        refine ⟨ts, hls, ?_⟩
        -- The token that was looked at is the first one used up, or else the one that is left.
        have hfirst : ∃ more, ts ++ ahead rest = t :: more := by
          cases ts with
          | nil =>
            obtain rfl : rest = l :: ls := hls.symm
            exact ⟨[], by simp [ahead, hl]⟩
          | cons t' ts =>
            obtain ⟨rfl, -⟩ := List.cons.inj hls
            cases hl
            exact ⟨_, rfl⟩
        obtain ⟨more, hmore⟩ := hfirst
        rw [hmore] at hrun ⊢
        exact hrun
  | take next ih =>
    cases ls with
    | nil =>
      obtain ⟨ts, hls, hrun⟩ := ih none h
      obtain ⟨hts, rfl⟩ := List.append_eq_nil_iff.1 hls.symm
      obtain rfl := List.map_eq_nil_iff.1 hts
      exact ⟨[], rfl, hrun⟩
    | cons l ls =>
      cases hl : l.token with
      | error d => simp [run, hl] at h
      | ok t =>
        simp only [run, hl] at h
        obtain ⟨ts, rfl, hrun⟩ := ih (some t) h
        rw [Lexeme.eq_of_token hl]
        exact ⟨t :: ts, rfl, hrun⟩

/-- A script that fails has used tokens up, and the lexeme that reads as the problem if there is
one. -/
theorem run_error {s : Script α} {ls rest : List Lexeme} {d : Diagnostic}
    (h : s.run ls = (.error d, rest)) :
    ∃ ts, ls = lexemes ts ++ rest ∨ ∃ l, l.token = .error d ∧ ls = lexemes ts ++ l :: rest := by
  induction s generalizing ls with
  | done result =>
    cases h
    exact ⟨[], .inl rfl⟩
  | look next ih =>
    cases ls with
    | nil => exact ih none h
    | cons l ls =>
      cases hl : l.token with
      | error d =>
        simp only [run, hl] at h
        cases h
        exact ⟨[], .inr ⟨l, hl, rfl⟩⟩
      | ok t =>
        simp only [run, hl] at h
        exact ih (some t) h
  | take next ih =>
    cases ls with
    | nil => exact ih none h
    | cons l ls =>
      cases hl : l.token with
      | error d =>
        simp only [run, hl] at h
        cases h
        exact ⟨[], .inr ⟨l, hl, rfl⟩⟩
      | ok t =>
        simp only [run, hl] at h
        obtain ⟨ts, rfl | ⟨l', hl', rfl⟩⟩ := ih (some t) h
        · exact ⟨t :: ts, .inl (by rw [Lexeme.eq_of_token hl]; rfl)⟩
        · exact ⟨t :: ts, .inr ⟨l', hl', by rw [Lexeme.eq_of_token hl]; rfl⟩⟩

end Script

/-! ## Readers -/

/-- The lexemes that have been used up, those that the lexer has not given yet, and between them
what has been looked at, if anything has: a token, or that there is none. -/
structure Reader where
  used : List Lexeme
  peeked : Option (Option Token)
  lexer : List Lexeme

namespace Reader

/-- The reader in front of lexemes. -/
def start (ls : List Lexeme) : Reader := ⟨[], none, ls⟩

/-- Looks at the next token, which the lexer is asked for once. -/
def peek : Reader → Except Diagnostic (Option Token) × Reader
  | ⟨used, some t, ls⟩ => (.ok t, ⟨used, some t, ls⟩)
  | ⟨used, none, []⟩ => (.ok none, ⟨used, some none, []⟩)
  | ⟨used, none, l :: ls⟩ =>
    match l.token with
    | .ok t => (.ok (some t), ⟨used, some (some t), ls⟩)
    | .error d => (.error d, ⟨used ++ [l], none, ls⟩)

/-- Takes the next token, whether it has been looked at or not. -/
def advance : Reader → Except Diagnostic (Option Token) × Reader
  | ⟨used, some (some t), ls⟩ => (.ok (some t), ⟨used ++ [t.lexeme], none, ls⟩)
  | ⟨used, some none, ls⟩ => (.ok none, ⟨used, none, ls⟩)
  | ⟨used, none, []⟩ => (.ok none, ⟨used, none, []⟩)
  | ⟨used, none, l :: ls⟩ => (l.token.map some, ⟨used ++ [l], none, ls⟩)

/-- The lexemes that are left. A token that has only been looked at is one of them. -/
def pending : Reader → List Lexeme
  | ⟨_, some (some t), ls⟩ => t.lexeme :: ls
  | ⟨_, _, ls⟩ => ls

/-- The reader has used some lexemes up and has some in front of it, none if it has seen the end. -/
structure Shows (r : Reader) (used ls : List Lexeme) : Prop where
  used_eq : r.used = used
  pending_eq : r.pending = ls
  ended : r.peeked = some none → r.lexer = []

variable {r : Reader} {used ls : List Lexeme} {l : Lexeme} {t : Token} {d : Diagnostic}

theorem start_shows (ls : List Lexeme) : (start ls).Shows [] ls := ⟨rfl, rfl, fun h => nomatch h⟩

theorem Shows.peek_nil (h : r.Shows used []) :
    ∃ r', r.peek = (.ok none, r') ∧ r'.Shows used [] := by
  obtain ⟨used, _ | _ | t, ls⟩ := r <;> obtain ⟨rfl, hpending, hended⟩ := h
  · obtain rfl : ls = [] := hpending
    exact ⟨_, rfl, rfl, rfl, fun _ => rfl⟩
  · exact ⟨_, rfl, rfl, hpending, hended⟩
  · cases hpending

theorem Shows.peek_token (h : r.Shows used (l :: ls)) (hl : l.token = .ok t) :
    ∃ r', r.peek = (.ok (some t), r') ∧ r'.Shows used (l :: ls) := by
  obtain ⟨used, _ | _ | t', ls'⟩ := r <;> obtain ⟨rfl, hpending, hended⟩ := h
  · obtain rfl : ls' = l :: ls := hpending
    refine ⟨⟨used, some (some t), ls⟩, by simp only [peek, hl], rfl, ?_, fun h => nomatch h⟩
    rw [Lexeme.eq_of_token hl]
    rfl
  · obtain rfl : ls' = [] := hended rfl
    cases hpending
  · obtain ⟨rfl, rfl⟩ := List.cons.inj hpending
    cases hl
    exact ⟨_, rfl, rfl, rfl, fun h => nomatch h⟩

theorem Shows.peek_problem (h : r.Shows used (l :: ls)) (hl : l.token = .error d) :
    ∃ r', r.peek = (.error d, r') ∧ r'.Shows (used ++ [l]) ls := by
  obtain ⟨used, _ | _ | t', ls'⟩ := r <;> obtain ⟨rfl, hpending, hended⟩ := h
  · obtain rfl : ls' = l :: ls := hpending
    exact ⟨⟨used ++ [l], none, ls⟩, by simp only [peek, hl], rfl, rfl, fun h => nomatch h⟩
  · obtain rfl : ls' = [] := hended rfl
    cases hpending
  · obtain ⟨rfl, rfl⟩ := List.cons.inj hpending
    cases hl

theorem Shows.advance_nil (h : r.Shows used []) :
    ∃ r', r.advance = (.ok none, r') ∧ r'.Shows used [] := by
  obtain ⟨used, _ | _ | t, ls⟩ := r <;> obtain ⟨rfl, hpending, hended⟩ := h
  · obtain rfl : ls = [] := hpending
    exact ⟨_, rfl, rfl, rfl, fun h => nomatch h⟩
  · exact ⟨_, rfl, rfl, hpending, fun h => nomatch h⟩
  · cases hpending

/-- Taking a lexeme uses it up, be it a token or a problem. -/
theorem Shows.advance_cons (h : r.Shows used (l :: ls)) :
    ∃ r', r.advance = (l.token.map some, r') ∧ r'.Shows (used ++ [l]) ls := by
  obtain ⟨used, _ | _ | t', ls'⟩ := r <;> obtain ⟨rfl, hpending, hended⟩ := h
  · obtain rfl : ls' = l :: ls := hpending
    exact ⟨_, rfl, rfl, rfl, fun h => nomatch h⟩
  · obtain rfl : ls' = [] := hended rfl
    cases hpending
  · obtain ⟨rfl, rfl⟩ := List.cons.inj hpending
    exact ⟨_, rfl, rfl, rfl, fun h => nomatch h⟩

end Reader

namespace Script

variable {α : Type}

/-- Plays a script on a reader. -/
def play : Script α → Reader → Except Diagnostic α × Reader
  | done result, r => (result, r)
  | look next, r =>
    match r.peek with
    | (.ok t, r') => (next t).play r'
    | (.error d, r') => (.error d, r')
  | take next, r =>
    match r.advance with
    | (.ok t, r') => (next t).play r'
    | (.error d, r') => (.error d, r')

/-- A script does on a reader what it does to the lexemes in front of it, and those that are gone
then have been used up in their order. -/
theorem play_of_shows (s : Script α) {r : Reader} {used ls : List Lexeme}
    (h : r.Shows used ls) :
    ∃ taken r', s.play r = ((s.run ls).1, r') ∧ r'.Shows (used ++ taken) (s.run ls).2 ∧
      ls = taken ++ (s.run ls).2 := by
  induction s generalizing r used ls with
  | done result => exact ⟨[], r, rfl, by simpa [run] using h, rfl⟩
  | look next ih =>
    cases ls with
    | nil =>
      obtain ⟨r', hpeek, h'⟩ := h.peek_nil
      simp only [play, hpeek, run]
      exact ih none h'
    | cons l ls =>
      cases hl : l.token with
      | ok t =>
        obtain ⟨r', hpeek, h'⟩ := h.peek_token hl
        simp only [play, hpeek, run, hl]
        exact ih (some t) h'
      | error d =>
        obtain ⟨r', hpeek, h'⟩ := h.peek_problem hl
        simp only [play, hpeek, run, hl]
        exact ⟨[l], r', rfl, h', rfl⟩
  | take next ih =>
    cases ls with
    | nil =>
      obtain ⟨r', hadvance, h'⟩ := h.advance_nil
      simp only [play, hadvance, run]
      exact ih none h'
    | cons l ls =>
      obtain ⟨r', hadvance, h'⟩ := h.advance_cons
      cases hl : l.token with
      | ok t =>
        simp only [play, hadvance, hl, Except.map, run]
        obtain ⟨taken, r'', hplay, h'', hls⟩ := ih (some t) h'
        rw [List.append_assoc] at h''
        exact ⟨l :: taken, r'', hplay, h'', congrArg (l :: ·) hls⟩
      | error d =>
        simp only [play, hadvance, hl, Except.map, run]
        exact ⟨[l], r', rfl, h', rfl⟩

end Script

/-! ## Parsers with a script -/

namespace Parser

variable {α β : Type} {source : Source}

/-- A parser that does what a script says. -/
def Reads (source : Source) (p : Parser α) : Prop := ∃ s : Script α, ∀ ls, s.run ls = p source ls

namespace Reads

theorem pure (a : α) : Reads source (pure a : Parser α) := ⟨.done (.ok a), fun _ => rfl⟩

theorem fail (d : Diagnostic) : Reads source (fail d : Parser α) := ⟨.done (.error d), fun _ => rfl⟩

theorem failAtEnd : Reads source (failAtEnd : Parser α) := ⟨.done (.error _), fun _ => rfl⟩

theorem bind {p : Parser α} {q : α → Parser β} (hp : Reads source p)
    (hq : ∀ a, Reads source (q a)) : Reads source (p >>= q) := by
  obtain ⟨s, hs⟩ := hp
  choose f hf using hq
  refine ⟨s.andThen f, fun ls => ?_⟩
  rw [Script.run_andThen, hs]
  match hresult : p source ls with
  | (.ok a, rest) => rw [bind_of_ok hresult, ← hf]
  | (.error d, rest) => rw [bind_of_error hresult]

theorem map {p : Parser α} (hp : Reads source p) (f : α → β) :
    Reads source (p >>= fun a => Pure.pure (f a)) :=
  hp.bind fun a => pure (f a)

theorem ite {p q : Parser α} {c : Prop} [Decidable c] (hp : Reads source p) (hq : Reads source q) :
    Reads source (if c then p else q) := by
  split
  · exact hp
  · exact hq

theorem suffix {p : Parser α} (hp : Reads source p) (ls : List Lexeme) : (p source ls).2 <:+ ls := by
  obtain ⟨s, hs⟩ := hp
  rw [← hs]
  exact s.run_suffix ls

end Reads

theorem peek_reads : Reads source peek := by
  refine ⟨.look fun t => .done (.ok t), fun ls => ?_⟩
  cases ls with
  | nil => rfl
  | cons l ls => cases hl : l.token <;> simp only [peek, Script.run, hl]

theorem next_reads : Reads source next := by
  let script : Script Token := .take fun
    | some t => .done (.ok t)
    | none => .done (.error ⟨.unexpectedEnd, Span.point source.eof⟩)
  refine ⟨script, fun ls => ?_⟩
  cases ls with
  | nil => rfl
  | cons l ls => cases hl : l.token <;> simp only [script, next, Script.run, hl]

theorem unit_reads : Reads source unit := ⟨.done (.ok source.unit), fun _ => rfl⟩

theorem peekKind_reads : Reads source peekKind := peek_reads.map _

theorem sees_reads (kind : Token.Kind) : Reads source (sees kind) := peekKind_reads.map _

/-- A parser with a script that uses a lexeme up at least, problem or not, unless there is none. -/
structure Moves (source : Source) (p : Parser α) : Prop where
  reads : Reads source p
  uses : ∀ l ls, (p source (l :: ls)).2 <:+ ls

namespace Moves

theorem bind {p : Parser α} {q : α → Parser β} (hp : Moves source p)
    (hq : ∀ a, Reads source (q a)) : Moves source (p >>= q) := by
  refine ⟨hp.reads.bind hq, fun l ls => ?_⟩
  have hrest := hp.uses l ls
  match hresult : p source (l :: ls) with
  | (.ok a, rest) =>
    rw [hresult] at hrest
    rw [bind_of_ok hresult]
    exact ((hq a).suffix rest).trans hrest
  | (.error d, rest) =>
    rw [hresult] at hrest
    rw [bind_of_error hresult]
    exact hrest

theorem map {p : Parser α} (hp : Moves source p) (f : α → β) :
    Moves source (p >>= fun a => Pure.pure (f a)) :=
  hp.bind fun a => .pure (f a)

/-- A lexeme that reads as a problem is used up when it is looked at. What comes after a look at a
token has to use that up. -/
theorem look {q : Option Token.Kind → Parser α} (hnone : Reads source (q none))
    (hsome : ∀ kind, Moves source (q (some kind))) : Moves source (peekKind >>= q) := by
  refine ⟨peekKind_reads.bind fun found => ?_, fun l ls => ?_⟩
  · cases found with
    | none => exact hnone
    | some kind => exact (hsome kind).reads
  cases hl : l.token with
  | error d =>
    have hpeek : peekKind source (l :: ls) = (.error d, ls) := by
      simp only [peekKind, Bind.bind, Parser.andThen, peek, hl]
    rw [bind_of_error hpeek]
  | ok t =>
    have hpeek : peekKind source (l :: ls) = (.ok (some t.kind), l :: ls) := by
      simp only [peekKind, Bind.bind, Parser.andThen, peek, hl]
      rfl
    rw [bind_of_ok hpeek]
    exact (hsome t.kind).uses l ls

end Moves

theorem next_moves : Moves source next := ⟨next_reads, fun _ _ => List.suffix_rfl⟩

theorem accept_reads (kind : Token.Kind) : Reads source (accept kind) :=
  (sees_reads kind).bind fun _ => .ite (next_reads.map _) (.pure _)

theorem optionalComma_reads : Reads source optionalComma := (accept_reads _).map _

theorem expect_moves (kind : Token.Kind) (wanted : Wanted) : Moves source (expect kind wanted) :=
  next_moves.bind fun _ => .ite (.pure _) (.fail _)

theorem identifier_moves : Moves source identifier :=
  next_moves.bind fun _ => .ite (.pure _) (.fail _)

theorem literal_moves : Moves source literal := by
  refine next_moves.bind fun t => ?_
  cases literalOf t.kind with
  | some value => exact .pure _
  | none => exact .fail _

theorem untilSymbol_reads (close : Symbol) {element : Parser α} (helement : Reads source element)
    (bound : Nat) : Reads source (untilSymbol close element bound) := by
  induction bound with
  | zero => exact .failAtEnd
  | succ bound ih =>
    exact (sees_reads _).bind fun _ => .ite (.pure _) (helement.bind fun _ => ih.map _)

theorem chain_reads (level : Token.Kind → Option Operator) {operand : Parser Expr}
    (hoperand : Reads source operand) (bound : Nat) (left : Expr) :
    Reads source (chain level operand bound left) := by
  have hoperator : Reads source (operator level) := by
    refine peekKind_reads.bind fun found => ?_
    cases found.bind level with
    | some op => exact next_reads.map _
    | none => exact .pure _
  induction bound generalizing left with
  | zero => exact .pure _
  | succ bound ih =>
    refine hoperator.bind fun found => ?_
    cases found with
    | some op => exact hoperand.bind fun _ => ih _
    | none => exact .pure _

section Nested

variable {nested : Parser Expr} (hnested : Reads source nested)

include hnested

theorem binding_moves : Moves source (binding nested) :=
  next_moves.bind fun _ => identifier_moves.reads.bind fun _ =>
    (expect_moves _ _).reads.bind fun _ => hnested.map _

theorem block_moves (bound : Nat) : Moves source (block nested bound) := by
  have hstatement : Reads source (statement nested) :=
    (sees_reads _).bind fun _ => .ite ((binding_moves hnested).reads.map _) (hnested.map _)
  exact (expect_moves _ _).bind fun _ => (untilSymbol_reads _ hstatement bound).bind fun _ =>
    (expect_moves _ _).reads.map _

theorem primary_moves (bound : Nat) : Moves source (primary nested bound) := by
  refine Moves.look .failAtEnd fun kind => ?_
  split
  · rename_i hkind
    cases hkind
  · exact identifier_moves.map _
  · exact (block_moves hnested bound).map _
  · exact next_moves.bind fun _ => hnested.bind fun _ => (expect_moves _ _).reads.map _
  · exact literal_moves

theorem typeExpr_moves (bound : Nat) : Moves source (typeExpr nested bound) := by
  refine (primary_moves hnested bound).bind fun e => ?_
  cases misplacedLiteral e with
  | some t => exact .fail _
  | none => exact .pure _

theorem called_reads (bound : Nat) : Reads source (called nested bound) := by
  have hargument : Reads source (argument nested) :=
    hnested.bind fun _ => optionalComma_reads.map _
  exact (primary_moves hnested bound).reads.bind fun _ => (sees_reads _).bind fun _ =>
    .ite (next_reads.bind fun _ => (untilSymbol_reads _ hargument bound).bind fun _ =>
      (expect_moves _ _).reads.map _) (.pure _)

theorem coerced_reads (bound : Nat) : Reads source (coerced nested bound) :=
  (called_reads hnested bound).bind fun _ => (accept_reads _).bind fun _ =>
    .ite ((typeExpr_moves hnested bound).reads.map _) (.pure _)

theorem sum_reads (bound : Nat) : Reads source (sum nested bound) := by
  have hcoerced := coerced_reads hnested bound
  have hfactor : Reads source (factor nested bound) :=
    hcoerced.bind fun first => chain_reads _ hcoerced _ first
  exact hfactor.bind fun first => chain_reads _ hfactor _ first

end Nested

theorem expression_reads (bound : Nat) : Reads source (expression bound) := by
  induction bound with
  | zero => exact .failAtEnd
  | succ bound ih => exact sum_reads ih bound

theorem constant_moves (bound : Nat) : Moves source (constant bound) :=
  (binding_moves (expression_reads bound)).map _

theorem function_moves (bound : Nat) : Moves source (function bound) := by
  have hnested : Reads source (expression bound) := expression_reads bound
  have htype := typeExpr_moves hnested bound
  have hparam : Reads source (param bound) :=
    identifier_moves.reads.bind fun _ => (expect_moves _ _).reads.bind fun _ =>
      htype.reads.bind fun _ => optionalComma_reads.map _
  exact htype.bind fun _ => identifier_moves.reads.bind fun _ =>
    (expect_moves _ _).reads.bind fun _ => (untilSymbol_reads _ hparam bound).bind fun _ =>
      (expect_moves _ _).reads.bind fun _ => (block_moves hnested bound).reads.bind fun _ =>
        unit_reads.map _

/-- Takes an item of at most `bound` lexemes. -/
def itemWithin (bound : Nat) : Parser (Option Item) := do
  match ← peekKind with
  | none => return none
  | some .const =>
    let i ← constant bound
    return some i
  | some _ =>
    let i ← function bound
    return some i

theorem item_eq_itemWithin (source : Source) (ls : List Lexeme) :
    item source ls = itemWithin ls.length source ls := rfl

theorem itemWithin_moves (source : Source) (bound : Nat) : Moves source (itemWithin bound) := by
  refine Moves.look (.pure _) fun kind => ?_
  split
  · rename_i hkind
    cases hkind
  · exact (constant_moves bound).map _
  · exact (function_moves bound).map _

/-- The tokens that an item was read from are those of its derivation. -/
theorem exists_derivation_of_item {ls rest : List Lexeme} {i : Item}
    (h : item source ls = (.ok (some i), rest)) :
    ∃ d : Derivation (.ref .item), d.value source.unit = i ∧ ls = lexemes d.yield ++ rest := by
  obtain ⟨s, hs⟩ := (itemWithin_moves source ls.length).reads
  rw [item_eq_itemWithin, ← hs] at h
  obtain ⟨ts, hls, hrun⟩ := Script.run_ok h
  rw [hs] at hrun
  have hlength : AtMost ls.length (ts ++ Script.ahead rest) := by
    have hahead := Script.length_ahead_le rest
    simp only [AtMost, hls, lexemes, List.length_append, List.length_map]
    omega
  have hne : ts ++ Script.ahead rest ≠ [] := by
    intro hnil
    rw [hnil] at hrun
    cases hrun
  obtain ⟨d, rest', hyield, -, hvalue, hrest⟩ :=
    ((item_follows_of_atMost source ls.length _ ⟨hlength, hne⟩ _ _).1 hrun).exists
  have hsame : rest'.length = (Script.ahead rest).length := by
    simpa only [lexemes, List.length_map] using congrArg List.length hrest
  obtain ⟨rfl, -⟩ := List.append_inj' hyield hsame
  exact ⟨d, Option.some.inj hvalue, hls⟩

/-! ## Calls for items -/

/-- What a call for an item does to a reader. -/
structure Call (source : Source) (r : Reader) (result : Except Diagnostic (Option Item))
    (r' : Reader) : Prop where
  /-- It plays a script, which does what asking for an item does to as many lexemes as are left. -/
  played : ∃ s : Script (Option Item), s.play r = (result, r') ∧
    ∀ ls, ls.length = r.pending.length → s.run ls = item source ls
  /-- What it uses up is what was left. -/
  kept : r'.used ++ r'.pending = r.used ++ r.pending
  ended : result = .ok none → r.pending = [] ∧ r'.used = r.used
  progress : result ≠ .ok none → ∃ l taken, r'.used = r.used ++ l :: taken
  derived : ∀ i, result = .ok (some i) →
    ∃ d : Derivation (.ref .item), d.value source.unit = i ∧ r'.used = r.used ++ lexemes d.yield
  /-- A lexeme that reads as a problem is the last one used up, and its problem is the result. -/
  problem : ∀ d, result = .error d → ∃ ts, r'.used = r.used ++ lexemes ts ∨
    ∃ l, l.token = .error d ∧ r'.used = r.used ++ lexemes ts ++ [l]

/-- Calls for items on one reader, and their results. -/
inductive Calls (source : Source) : Reader → List (Except Diagnostic (Option Item)) → Reader → Prop
  | none (r : Reader) : Calls source r [] r
  | more {r r' r'' : Reader} {result : Except Diagnostic (Option Item)}
      {results : List (Except Diagnostic (Option Item))} (call : Call source r result r')
      (others : Calls source r' results r'') : Calls source r (result :: results) r''

section

variable {r : Reader} {used ls : List Lexeme}

/-- Unless no lexeme is left, a call uses one up. -/
theorem item_takes {taken rest : List Lexeme} {result : Except Diagnostic (Option Item)}
    (h : item source (taken ++ rest) = (result, rest)) (hresult : result ≠ .ok none) :
    taken ≠ [] := by
  rintro rfl
  cases rest with
  | nil =>
    cases h
    exact hresult rfl
  | cons l ls =>
    have hrest := (itemWithin_moves source (l :: ls).length).uses l ls
    rw [← item_eq_itemWithin, show item source (l :: ls) = (result, l :: ls) from h] at hrest
    exact Nat.not_succ_le_self _ hrest.length_le

/-- A call on a reader does what asking for an item does to the lexemes in front of it. -/
theorem exists_call (source : Source) (h : r.Shows used ls) :
    ∃ taken r', Call source r (item source ls).1 r' ∧
      r'.Shows (used ++ taken) (item source ls).2 ∧ ls = taken ++ (item source ls).2 := by
  obtain ⟨s, hs⟩ := (itemWithin_moves source ls.length).reads
  obtain ⟨taken, r', hplay, h', hls⟩ := s.play_of_shows h
  have hrun : s.run ls = item source ls := hs ls
  rw [hrun] at hplay h' hls
  rcases hitem : item source ls with ⟨result, rest⟩
  rw [hitem] at hplay h' hls hrun
  refine ⟨taken, r', ?_, h', hls⟩
  have hused : r'.used = r.used ++ taken := by rw [h'.used_eq, h.used_eq]
  constructor
  case played =>
    refine ⟨s, hplay, fun ls' hlength => ?_⟩
    rw [hs, item_eq_itemWithin, hlength, h.pending_eq]
  case kept => rw [hused, h'.pending_eq, h.pending_eq, List.append_assoc, ← hls]
  case ended =>
    rintro rfl
    rcases item_consumes hitem with ⟨-, rfl⟩ | ⟨i, t, ts, hsome, -⟩
    · obtain ⟨rfl, -⟩ := List.append_eq_nil_iff.1 hls.symm
      exact ⟨h.pending_eq, by rw [hused, List.append_nil]⟩
    · cases hsome
  case progress =>
    intro hresult
    rw [hls] at hitem
    obtain ⟨l, taken', rfl⟩ := List.exists_cons_of_ne_nil (item_takes hitem hresult)
    exact ⟨l, taken', hused⟩
  case derived =>
    rintro i rfl
    obtain ⟨d, hvalue, hyield⟩ := exists_derivation_of_item hitem
    obtain rfl := List.append_cancel_right (hls.symm.trans hyield)
    exact ⟨d, hvalue, hused⟩
  case problem =>
    rintro d rfl
    obtain ⟨ts, hts | ⟨l, hl, hts⟩⟩ := Script.run_error hrun
    · obtain rfl := List.append_cancel_right (hls.symm.trans hts)
      exact ⟨ts, .inl hused⟩
    · rw [List.append_cons] at hts
      obtain rfl := List.append_cancel_right (hls.symm.trans hts)
      exact ⟨ts, .inr ⟨l, hl, by rw [hused, List.append_assoc]⟩⟩

/-- Calls for items on a reader give what the parser gives, and use lexemes up from the front. -/
theorem exists_calls (source : Source) (calls : Nat) (h : r.Shows used ls) :
    ∃ r', Calls source r (items source calls ls) r' ∧ r'.used ++ r'.pending = used ++ ls := by
  induction calls generalizing r used ls with
  | zero => exact ⟨r, .none r, by rw [h.used_eq, h.pending_eq]⟩
  | succ calls ih =>
    obtain ⟨taken, r', hcall, h', hls⟩ := exists_call source h
    obtain ⟨r'', hcalls, hkept⟩ := ih h'
    rw [List.append_assoc, ← hls] at hkept
    exact ⟨r'', .more hcall hcalls, hkept⟩

theorem items_nil (source : Source) (calls : Nat) :
    ∀ result ∈ items source calls [], result = .ok none := by
  induction calls with
  | zero => simp [items]
  | succ calls ih => exact List.forall_mem_cons.2 ⟨rfl, ih⟩

/-- Before the end every call uses a lexeme up, and from then on there is no item. -/
theorem items_end (source : Source) (calls : Nat) (ls : List Lexeme) :
    ∃ m ≤ ls.length, (∀ result ∈ (items source calls ls).take m, result ≠ .ok none) ∧
      ∀ result ∈ (items source calls ls).drop m, result = .ok none := by
  induction calls generalizing ls with
  | zero => exact ⟨0, Nat.zero_le _, by simp [items], by simp [items]⟩
  | succ calls ih =>
    rcases hitem : item source ls with ⟨result, rest⟩
    by_cases hresult : result = .ok none
    · subst hresult
      rcases item_consumes hitem with ⟨-, rfl⟩ | ⟨i, t, ts, hsome, -⟩
      · exact ⟨0, Nat.zero_le _, by simp, items_nil source (calls + 1)⟩
      · cases hsome
    · obtain ⟨m, hm, hbefore, hafter⟩ := ih rest
      have hsuffix := (itemWithin_moves source ls.length).reads.suffix ls
      rw [← item_eq_itemWithin, hitem] at hsuffix
      obtain ⟨taken, rfl⟩ : rest <:+ ls := hsuffix
      have htaken := List.length_pos_of_ne_nil (item_takes hitem hresult)
      refine ⟨m + 1, ?_, ?_, ?_⟩
      · rw [List.length_append]
        omega
      · simp only [items, hitem, List.take_succ_cons]
        exact List.forall_mem_cons.2 ⟨hresult, hbefore⟩
      · simpa only [items, hitem, List.drop_succ_cons] using hafter

end

/-- **The parser uses every lexeme once and always makes progress.** -/
theorem items_calls (unit : Nat) (text : String) (calls : Nat) :
    let source := Source.ofText unit text
    let lexemes := Lexeme.ofText text
    let results := items source calls lexemes
    ∃ r, Calls source (Reader.start lexemes) results r ∧ r.used ++ r.pending = lexemes ∧
      ∃ m ≤ lexemes.length, (∀ result ∈ results.take m, result ≠ .ok none) ∧
        ∀ result ∈ results.drop m, result = .ok none := by
  intro source lexemes results
  obtain ⟨r, hcalls, hkept⟩ :=
    exists_calls source calls (Reader.start_shows lexemes)
  exact ⟨r, hcalls, hkept, items_end source calls lexemes⟩

end Parser

end ExprLang
