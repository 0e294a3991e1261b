import ExprLang.Proofs.Following

/-!
# What a parser has taken

A parser that succeeds has taken tokens off the front of its lexemes, and no lexeme that reads as a
problem (`Parser.Consumes`). Since an item takes one token at least, the bound of a parse is never
reached in front of lexemes that are left, and a text that is a program is made of tokens
(`Item.exists_tokens`).
-/

namespace ExprLang

open Token (lexemes)

namespace Parser

variable {α β : Type} {n : Nat}

/-- A parser that succeeds has taken tokens, at least so many. -/
def Consumes (n : Nat) (p : Parser α) : Prop :=
  ∀ (source : Source) (ls rest : List Lexeme) (a : α), p source ls = (.ok a, rest) →
    ∃ ts, ls = lexemes ts ++ rest ∧ n ≤ ts.length

namespace Consumes

theorem pure (a : α) : Consumes 0 (pure a : Parser α) := by
  rintro source ls _ _ ⟨⟩
  exact ⟨[], rfl, Nat.le_refl 0⟩

theorem fail (d : Diagnostic) : Consumes n (fail d : Parser α) := by
  rintro source ls rest a ⟨⟩

theorem failAtEnd : Consumes n (failAtEnd : Parser α) := by
  rintro source ls rest a ⟨⟩

/-- A parser that takes tokens at least takes some number of them. -/
theorem mono {p : Parser α} (h : Consumes n p) : Consumes 0 p := by
  intro source ls rest a hp
  obtain ⟨ts, hls, -⟩ := h source ls rest a hp
  exact ⟨ts, hls, Nat.zero_le _⟩

/-- One parser after another takes what both take together. -/
theorem bind {p : Parser α} {q : α → Parser β} {m : Nat} (hp : Consumes m p)
    (hq : ∀ a, Consumes n (q a)) : Consumes (m + n) (p >>= q) := by
  intro source ls rest b h
  match hresult : p source ls with
  | (.ok a, mid) =>
    rw [bind_of_ok hresult] at h
    obtain ⟨ts, rfl, hts⟩ := hp source ls mid a hresult
    obtain ⟨ts', rfl, hts'⟩ := hq a source mid rest b h
    refine ⟨ts ++ ts', by simp [lexemes], ?_⟩
    rw [List.length_append]
    exact Nat.add_le_add hts hts'
  | (.error d, mid) =>
    rw [bind_of_error hresult] at h
    cases h

/-- The first of two parsers takes as much as is asked for. -/
theorem first {p : Parser α} {q : α → Parser β} (hp : Consumes n p) (hq : ∀ a, Consumes 0 (q a)) :
    Consumes n (p >>= q) :=
  hp.bind hq

/-- The second of two parsers takes as much as is asked for. -/
theorem second {p : Parser α} {q : α → Parser β} (hp : Consumes 0 p) (hq : ∀ a, Consumes n (q a)) :
    Consumes n (p >>= q) := by
  have h := hp.bind hq
  rwa [Nat.zero_add] at h

theorem ite {p q : Parser α} {c : Prop} [Decidable c] (hp : Consumes n p) (hq : Consumes n q) :
    Consumes n (if c then p else q) := by
  split
  · exact hp
  · exact hq

end Consumes

/-- The next token is taken, if it is one. -/
theorem next_consumes : Consumes 1 next := by
  intro source ls rest t h
  cases ls with
  | nil => cases h
  | cons l ls =>
    obtain ⟨htoken, rfl⟩ := Prod.mk.inj h
    refine ⟨[t], ?_, Nat.le_refl 1⟩
    rw [Lexeme.eq_of_token htoken]
    rfl

/-- Looking at a token leaves it where it is. If it is none there is no success. -/
theorem peek_consumes : Consumes 0 peek := by
  intro source ls rest o h
  cases ls with
  | nil => cases h; exact ⟨[], rfl, Nat.le_refl 0⟩
  | cons l ls =>
    simp only [peek] at h
    split at h
    · cases h; exact ⟨[], rfl, Nat.le_refl 0⟩
    · cases h

theorem peekKind_consumes : Consumes 0 peekKind := peek_consumes.first fun _ => .pure _

theorem sees_consumes (kind : Token.Kind) : Consumes 0 (sees kind) :=
  peekKind_consumes.first fun _ => .pure _

theorem accept_consumes (kind : Token.Kind) : Consumes 0 (accept kind) :=
  (sees_consumes kind).second fun _ => .ite (next_consumes.mono.first fun _ => .pure _) (.pure _)

theorem expect_consumes (kind : Token.Kind) (wanted : Wanted) : Consumes 1 (expect kind wanted) :=
  next_consumes.first fun _ => .ite (.pure _) (.fail _)

theorem identifier_consumes : Consumes 1 identifier :=
  next_consumes.first fun _ => .ite (.pure _) (.fail _)

theorem literal_consumes : Consumes 1 literal := by
  refine next_consumes.first fun t => ?_
  cases literalOf t.kind with
  | some value => exact .pure _
  | none => exact .fail _

theorem optionalComma_consumes : Consumes 0 optionalComma :=
  (accept_consumes _).first fun _ => .pure _

/-- A loop takes what its elements take. The closing symbol is only looked at. -/
theorem untilSymbol_consumes {close : Symbol} {element : Parser α} (helement : Consumes 0 element)
    (bound : Nat) : Consumes 0 (untilSymbol close element bound) := by
  induction bound with
  | zero => exact .failAtEnd
  | succ bound ih =>
    exact (sees_consumes _).second fun _ =>
      .ite (.pure _) (helement.second fun _ => ih.first fun _ => .pure _)

/-- A chain may end before its first operator, so that it need not take anything. -/
theorem chain_consumes {level : Token.Kind → Option Operator} {operand : Parser Expr}
    (hoperand : Consumes 0 operand) (bound : Nat) (left : Expr) :
    Consumes 0 (chain level operand bound left) := by
  have hoperator : Consumes 0 (operator level) := by
    refine peekKind_consumes.second fun found => ?_
    cases found.bind level with
    | some op => exact next_consumes.mono.first fun _ => .pure _
    | none => exact .pure _
  induction bound generalizing left with
  | zero => exact .pure _
  | succ bound ih =>
    refine hoperator.second fun found => ?_
    cases found with
    | some op => exact hoperand.second fun _ => ih _
    | none => exact .pure _

/-! ## Expressions -/

section Nested

variable {nested : Parser Expr} (hnested : Consumes 0 nested)

include hnested

theorem binding_consumes : Consumes 1 (binding nested) :=
  next_consumes.first fun _ => identifier_consumes.mono.second fun _ =>
    (expect_consumes _ _).mono.second fun _ => hnested.first fun _ => .pure _

theorem statement_consumes : Consumes 0 (statement nested) :=
  (sees_consumes _).second fun _ =>
    .ite ((binding_consumes hnested).mono.first fun _ => .pure _) (hnested.first fun _ => .pure _)

theorem block_consumes (bound : Nat) : Consumes 1 (block nested bound) :=
  (expect_consumes _ _).first fun _ =>
    (untilSymbol_consumes (statement_consumes hnested) bound).second fun _ =>
      (expect_consumes _ _).mono.first fun _ => .pure _

/-- A primary expression takes a token, whichever alternative it is: this is what keeps a nest of
expressions from going on without end. -/
theorem primary_consumes (bound : Nat) : Consumes 1 (primary nested bound) := by
  refine peekKind_consumes.second fun found => ?_
  split
  · exact .failAtEnd
  · exact identifier_consumes.first fun _ => .pure _
  · exact (block_consumes hnested bound).first fun _ => .pure _
  · exact next_consumes.first fun _ => hnested.second fun _ =>
      (expect_consumes _ _).mono.first fun _ => .pure _
  · exact literal_consumes

theorem typeExpr_consumes (bound : Nat) : Consumes 1 (typeExpr nested bound) := by
  refine (primary_consumes hnested bound).first fun e => ?_
  cases misplacedLiteral e with
  | some t => exact .fail _
  | none => exact .pure _

/-- Arguments are taken with both parentheses or not at all. -/
theorem called_consumes (bound : Nat) : Consumes 0 (called nested bound) := by
  have hargument : Consumes 0 (argument nested) :=
    hnested.second fun _ => optionalComma_consumes.first fun _ => .pure _
  exact (primary_consumes hnested bound).mono.second fun _ => (sees_consumes _).second fun _ =>
    .ite (next_consumes.mono.second fun _ => (untilSymbol_consumes hargument bound).second fun _ =>
      (expect_consumes _ _).mono.first fun _ => .pure _) (.pure _)

theorem coerced_consumes (bound : Nat) : Consumes 0 (coerced nested bound) :=
  (called_consumes hnested bound).second fun _ => (accept_consumes _).second fun _ =>
    .ite ((typeExpr_consumes hnested bound).mono.first fun _ => .pure _) (.pure _)

theorem sum_consumes (bound : Nat) : Consumes 0 (sum nested bound) := by
  have hcoerced := coerced_consumes hnested bound
  have hfactor : Consumes 0 (factor nested bound) :=
    hcoerced.second fun first => chain_consumes hcoerced _ first
  exact hfactor.second fun first => chain_consumes hfactor _ first

end Nested

theorem expression_consumes (bound : Nat) : Consumes 0 (expression bound) := by
  induction bound with
  | zero => exact .failAtEnd
  | succ bound ih => exact sum_consumes ih bound

/-! ## Items -/

theorem param_consumes (bound : Nat) : Consumes 0 (param bound) :=
  identifier_consumes.mono.second fun _ => (expect_consumes _ _).mono.second fun _ =>
    (typeExpr_consumes (expression_consumes bound) bound).mono.second fun _ =>
      optionalComma_consumes.first fun _ => .pure _

/-- A function takes the tokens of its return type at least. -/
theorem function_consumes (bound : Nat) : Consumes 1 (function bound) := by
  have hunit : Consumes 0 unit := by
    rintro source ls _ _ ⟨⟩
    exact ⟨[], rfl, Nat.le_refl 0⟩
  exact (typeExpr_consumes (expression_consumes bound) bound).first fun _ =>
    identifier_consumes.mono.second fun _ => (expect_consumes _ _).mono.second fun _ =>
      (untilSymbol_consumes (param_consumes bound) bound).second fun _ =>
        (expect_consumes _ _).mono.second fun _ =>
          (block_consumes (expression_consumes bound) bound).mono.second fun _ =>
            hunit.first fun _ => .pure _

/-- There is no item only at the end of the text, and an item takes a token. -/
theorem item_consumes {source : Source} {ls rest : List Lexeme} {o : Option Item}
    (h : item source ls = (.ok o, rest)) :
    (o = none ∧ ls = []) ∨ ∃ i t ts, o = some i ∧ ls = lexemes (t :: ts) ++ rest := by
  cases ls with
  | nil => cases h; exact .inl ⟨rfl, rfl⟩
  | cons l ls =>
    -- A lexeme is next, so the item is a constant or a function.
    have hparser : ∃ p : Parser Item, Consumes 1 p ∧
        (p >>= fun i => Pure.pure (some i)) source (l :: ls) = (.ok o, rest) := by
      simp only [item] at h
      cases htoken : l.token with
      | error d =>
        have hpeek : peekKind source (l :: ls) = (.error d, ls) := by
          simp only [peekKind, Bind.bind, andThen, peek, htoken]
        rw [bind_of_error hpeek] at h
        cases h
      | ok t =>
        have hpeek : peekKind source (l :: ls) = (.ok (some t.kind), l :: ls) := by
          simp only [peekKind, Bind.bind, andThen, peek, htoken]
          rfl
        rw [bind_of_ok hpeek] at h
        generalize t.kind = kind at h
        cases kind with
        | const => exact ⟨_, (binding_consumes (expression_consumes _)).first fun _ => .pure _, h⟩
        | _ => exact ⟨_, function_consumes _, h⟩
    obtain ⟨p, hp, hresult⟩ := hparser
    rcases hitem : p source (l :: ls) with ⟨d | i, mid⟩
    · rw [bind_of_error hitem] at hresult
      cases hresult
    · rw [bind_of_ok hitem] at hresult
      cases hresult
      obtain ⟨ts, hls, hlength⟩ := hp _ _ _ _ hitem
      cases ts with
      | nil => cases hlength
      | cons t ts => exact .inr ⟨i, t, ts, rfl, hls⟩

end Parser

/-- A parse without a problem has read every lexeme as a token. -/
theorem Parse.exists_tokens (source : Source) {n : Nat} {ls : List Lexeme} (hls : ls.length ≤ n)
    (h : (ofLexemes source n ls).problem = none) : ∃ ts, ls = lexemes ts := by
  induction n generalizing ls with
  | zero => exact ⟨[], List.length_eq_zero_iff.1 (Nat.le_zero.1 hls)⟩
  | succ n ih =>
    rw [ofLexemes] at h
    split at h
    next rest hitem =>
      rcases Parser.item_consumes hitem with ⟨-, rfl⟩ | ⟨i, t, ts, hsome, -⟩
      · exact ⟨[], rfl⟩
      · cases hsome
    next i rest hitem =>
      rcases Parser.item_consumes hitem with ⟨hnone, -⟩ | ⟨i, t, ts, -, rfl⟩
      · cases hnone
      · have hrest : rest.length ≤ n := by
          simp only [lexemes, List.map_cons, List.cons_append, List.length_cons,
            List.length_append] at hls
          omega
        obtain ⟨ts', rfl⟩ := ih hrest h
        exact ⟨t :: ts ++ ts', by simp [lexemes]⟩
    next d rest hitem => cases h

/-- **A program is made of tokens.** -/
theorem Item.exists_tokens {unit : Nat} {text : String} {items : List Item}
    (h : Item.ofText unit text = .ok items) : ∃ ts, Lexeme.ofText text = lexemes ts := by
  refine Parse.exists_tokens (Source.ofText unit text) (Nat.le_refl _) ?_
  rw [Item.ofText, Parse.program] at h
  split at h
  · cases h
  · assumption

end ExprLang
