import ExprLang.Proofs.Consumption

/-!
# Parsing by the grammar

On the tokens of a text the parser succeeds exactly where the grammar has a proper derivation, with
the tree of the derivation as its result (`Item.ofText_eq_ok_iff`). Each function of the parser
follows its nonterminal, and is put together as the rule is.
-/

namespace ExprLang

open Token (ahead lexemes)

namespace Parser

variable {α : Type} {source : Source}

/-! ## Where optional parts start

Each starts with one token, by which the parser decides. -/

/-- A token of a kind, read from nowhere. -/
def sampleToken (kind : Token.Kind) : Token := ⟨kind, Span.origin, ""⟩

/-- A primary expression in one token. This sample and those below show that the phrases in front of
which a parser decides can be derived at all. -/
def sampleName : Derivation (.ref .primary) :=
  .ref (.inl (.word (sampleToken .identifier) (sampleToken .identifier) rfl))

def sampleClosing : Derivation (.sign .rightParen) :=
  .word (sampleToken (.symbol .rightParen)) (sampleToken (.symbol .rightParen)) rfl

def sampleType : Derivation (.ref .typeExpr) := .ref sampleName

def sampleCoerce : Derivation (.ref .coerce) := .ref (.seq (.ref (.seq sampleName .skip)) .skip)

def sampleFactor : Derivation (.ref .factor) := .ref (.seq sampleCoerce .done)

theorem starts_comma_iff {ts : List Token} :
    (Phrase.sign .comma).Starts ts ↔ ahead ts = some (.symbol .comma) :=
  ⟨fun h => h.ahead_eq fun _ => rfl, Phrase.starts_exactly⟩

/-- Arguments start with their parenthesis, so that a parser which sees it has to go on. -/
theorem starts_arguments_iff {ts : List Token} :
    Phrase.arguments.Starts ts ↔ ahead ts = some (.symbol .leftParen) := by
  refine ⟨fun h => h.ahead_eq fun _ => Bool.or_false _, fun h => ?_⟩
  exact (Phrase.starts_exactly h).seq (.seq .done sampleClosing)

theorem starts_coercion_iff {ts : List Token} :
    Phrase.coercion.Starts ts ↔ ahead ts = some .as := by
  refine ⟨fun h => h.ahead_eq fun _ => Bool.or_false _, fun h => ?_⟩
  exact (Phrase.starts_exactly h).seq sampleType

/-! ## Expressions -/

/-- A token of the kind is taken. -/
theorem accept_cons (kind : Token.Kind) (t : Token) (ts : List Token) (h : t.kind = kind) :
    accept kind source (lexemes (t :: ts)) = (.ok true, lexemes ts) := by
  have hseen : (ahead (t :: ts) == some kind) = true := beq_iff_eq.2 (congrArg some h)
  rw [accept, bind_of_ok (sees_lexemes source kind (t :: ts)), hseen]
  rfl

/-- Another token is left. -/
theorem accept_of_ne (kind : Token.Kind) (ts : List Token) (h : ahead ts ≠ some kind) :
    accept kind source (lexemes ts) = (.ok false, lexemes ts) := by
  rw [accept, bind_of_ok (sees_lexemes source kind ts), beq_eq_false_iff_ne.2 h]
  rfl

/-- A parser that takes a token where it can follows a phrase if both ways to go on do. -/
theorem Follows.accept {on : List Token → Prop} {kind : Token.Kind} {f : Bool → Parser α}
    {e : Phrase} {result : e.Value → α}
    (htrue : Follows source (fun ts => on ts ∧ ahead ts = some kind) (next >>= fun _ => f true) e
      result)
    (hfalse : Follows source (fun ts => on ts ∧ ahead ts ≠ some kind) (f false) e result) :
    Follows source on (Parser.accept kind >>= f) e result := by
  intro ts hts x ls
  by_cases h : ahead ts = some kind
  · rw [← htrue ts ⟨hts, h⟩ x ls]
    cases ts with
    | nil => cases h
    | cons t ts => rw [bind_of_ok (accept_cons kind t ts (Option.some.inj h))]; rfl
  · rw [bind_of_ok (accept_of_ne kind ts h)]
    exact hfalse ts ⟨hts, h⟩ x ls

theorem optionalComma_follows (on : List Token → Prop) :
    Follows source on optionalComma (.opt (.sign .comma)) fun _ => () := by
  refine Follows.accept ?_ ?_
  · refine Follows.take ?_ fun _ h => starts_comma_iff.2 h.2
    exact (next_follows fun _ h => h.2).map fun _ => rfl
  · exact Follows.skip rfl rfl fun _ h => mt starts_comma_iff.1 h.2

section Nested

variable {n : Nat}
  (hexpression : Follows source (AtMost n) (expression n) (.ref .expression) fun e => e)

include hexpression

/-- A binding gives the span of its keyword, its name and its value. -/
theorem binding_follows :
    Follows source (fun ts => AtMost (n + 1) ts ∧ ahead ts = some .const) (binding (expression n))
      .binding fun v => (Token.span v.1, Token.ident v.2.1, v.2.2.2) := by
  refine Follows.next_seq fun keyword => ?_
  refine Follows.seq (identifier_follows (AtMost n)) AtMost.rest fun name => ?_
  refine Follows.seq (expect_follows (AtMost n) _ _) AtMost.rest fun _ => ?_
  exact hexpression.map fun _ => rfl

/-- A statement is a binding exactly if it starts with the keyword of one. -/
theorem statement_follows :
    Follows source (AtMost n) (statement (expression n)) (.ref .statement) fun s => s := by
  refine Follows.ref (Follows.sees ?_ ?_) fun _ => trivial
  · refine Follows.inl ?_ rfl fun ts h => Phrase.not_starts_of_ahead h.2 rfl
    have hmore : ∀ ts, AtMost n ts ∧ ahead ts = some .const →
        AtMost (n + 1) ts ∧ ahead ts = some .const := fun _ h => ⟨Nat.le_succ_of_le h.1, h.2⟩
    exact ((binding_follows hexpression).mono hmore).map
      (g := fun v : Span × Ident × Expr => Statement.const v.1 v.2.1 v.2.2) fun _ => rfl
  · refine Follows.inr ?_ rfl fun _ h => Phrase.not_starts_of_ne h.2 fun _ => Bool.or_false _
    exact (hexpression.mono fun _ h => h.1).map fun _ => rfl

theorem block_follows :
    Follows source (AtMost (n + 1)) (block (expression n) n) (.ref .block) fun b => b := by
  refine Follows.ref ?_ fun _ => trivial
  refine Follows.seq (expect_follows _ _ _) (AtMost.rest_of_succ rfl) fun opening => ?_
  refine untilSymbol_follows (statement_follows hexpression) rfl rfl rfl (fun _ => rfl)
    (Nat.le_refl n) fun statements => ?_
  exact (expect_follows _ _ _).map fun _ => congrArg (Block.mk · _) (List.map_id' statements)

theorem parenthesized_follows :
    Follows source (fun ts => AtMost (n + 1) ts ∧ ahead ts = some (.symbol .leftParen))
      (parenthesized (expression n))
      (.seq (.sign .leftParen) (.seq (.ref .expression) (.sign .rightParen))) fun v => v.2.1 := by
  refine Follows.next_seq fun _ => ?_
  refine Follows.seq hexpression AtMost.rest fun e => ?_
  exact (expect_follows _ _ _).map fun _ => rfl

/-- The first token of a primary expression tells the alternative. -/
theorem primary_follows :
    Follows source (AtMost (n + 1)) (primary (expression n) n) (.ref .primary) fun e => e := by
  -- A token that starts no other primary expression is left to the literals, which may refuse it.
  have hliteral : ∀ kind, Phrase.identifier.mayStart kind = false →
      (Phrase.ref .block).mayStart kind = false → (Phrase.sign .leftParen).mayStart kind = false →
      Follows source (fun ts => AtMost (n + 1) ts ∧ ahead ts = some kind) literal
        Nonterminal.primary.rule (Nonterminal.build .primary) := by
    intro kind hname hblock hparen
    refine Follows.inr (Follows.inr (Follows.inr ?_ rfl ?_) rfl ?_) rfl ?_
    · exact literal_follows _
    · intro ts h
      refine Phrase.not_starts_of_ahead h.2 ?_
      rw [Phrase.mayStart, hparen]
      rfl
    · exact fun _ h => Phrase.not_starts_of_ahead h.2 hblock
    · exact fun _ h => Phrase.not_starts_of_ahead h.2 hname
  refine Follows.ref (Follows.peek fun found => ?_) fun _ => trivial
  cases found with
  | none =>
    refine Follows.fails rfl ?_ ?_
    · intro ts h
      refine Phrase.not_starts fun kind hkind => ?_
      cases h.2.symm.trans hkind
    · intro ts _ x ls h
      cases h
  | some kind =>
    cases kind with
    | identifier =>
      refine Follows.inl ?_ rfl fun _ h => Phrase.not_starts_of_ahead h.2 rfl
      exact (identifier_follows _).map fun _ => rfl
    | symbol s =>
      cases s with
      | leftBrace =>
        refine Follows.inr (Follows.inl ?_ rfl ?_) rfl ?_
        · exact ((block_follows hexpression).mono fun _ h => h.1).map fun _ => rfl
        · exact fun _ h => Phrase.not_starts_of_ahead h.2 rfl
        · exact fun _ h => Phrase.not_starts_of_ahead h.2 rfl
      | leftParen =>
        refine Follows.inr (Follows.inr (Follows.inl ?_ rfl ?_) rfl ?_) rfl ?_
        · exact parenthesized_follows hexpression
        · exact fun _ h => Phrase.not_starts_of_ahead h.2 rfl
        · exact fun _ h => Phrase.not_starts_of_ahead h.2 rfl
        · exact fun _ h => Phrase.not_starts_of_ahead h.2 rfl
      | _ => exact hliteral _ rfl rfl rfl
    | _ => exact hliteral _ rfl rfl rfl

omit hexpression in
/-- The literals that stand in the place of a type are those of types. -/
theorem misplacedLiteral_eq_none_iff (e : Expr) :
    misplacedLiteral e = none ↔ ∀ l span, e = .literal l span → ∃ t, l = .type t := by
  cases e with
  | literal l span =>
    cases l with
    | type t => exact ⟨fun _ _ _ h => ⟨t, (Expr.literal.inj h).1.symm⟩, fun _ => rfl⟩
    | _ =>
      refine ⟨nofun, fun h => ?_⟩
      obtain ⟨t, ht⟩ := h _ _ rfl
      cases ht
  | _ => exact ⟨nofun, fun _ => rfl⟩

/-- A type is a primary expression without the literals that are no types, which the grammar says of
trees and the parser checks behind them. -/
theorem typeExpr_follows :
    Follows source (AtMost (n + 1)) (typeExpr (expression n) n) (.ref .typeExpr) fun e => e := by
  intro ts hts x ls
  constructor
  · intro h
    obtain ⟨e, mid, he, h⟩ := bind_eq_ok h
    obtain ⟨d, rest, hd⟩ := (primary_follows hexpression ts hts e mid).1 he
    cases hplace : misplacedLiteral d.value with
    | some t => rw [hplace] at h; cases h
    | none =>
      rw [hplace] at h
      cases h
      exact .intro (.ref (n := .typeExpr) d) rest ⟨hd, (misplacedLiteral_eq_none_iff _).1 hplace⟩
  · intro h
    obtain ⟨d, rest, hd⟩ := h
    cases d with
    | ref d =>
      change Derivation (.ref .primary) at d
      have hplace : misplacedLiteral d.value = none := (misplacedLiteral_eq_none_iff _).2 hd.2
      have hprimary := (primary_follows hexpression _ hts _ _).2 (.intro d rest hd.1)
      rw [typeExpr, bind_of_ok hprimary, hplace]
      rfl

theorem argument_follows :
    Follows source (AtMost n) (argument (expression n)) .argument Prod.fst := by
  refine Follows.seq hexpression AtMost.rest fun e => ?_
  exact (optionalComma_follows _).map fun _ => rfl

/-- A call has arguments exactly if an opening parenthesis is next. -/
theorem called_follows :
    Follows source (AtMost (n + 1)) (called (expression n) n) (.ref .call) fun e => e := by
  refine Follows.ref ?_ fun _ => trivial
  refine Follows.seq (primary_follows hexpression) (AtMost.rest_of_succ rfl) fun callee => ?_
  refine Follows.sees ?_ ?_
  · refine Follows.take ?_ fun _ h => starts_arguments_iff.2 h.2
    refine Follows.seq (next_follows fun _ h => h.2) (fun d rest h => AtMost.rest d rest h.1)
      fun opening => ?_
    refine untilSymbol_follows (argument_follows hexpression) rfl rfl rfl (fun _ => rfl)
      (Nat.le_refl n) fun args => ?_
    exact (expect_follows _ _ _).map fun _ => rfl
  · exact Follows.skip rfl rfl fun _ h => mt starts_arguments_iff.1 h.2

theorem coerced_follows :
    Follows source (AtMost (n + 1)) (coerced (expression n) n) (.ref .coerce) fun e => e := by
  refine Follows.ref ?_ fun _ => trivial
  refine Follows.seq (called_follows hexpression) AtMost.rest fun value => ?_
  refine Follows.accept ?_ ?_
  · refine Follows.take ?_ fun _ h => starts_coercion_iff.2 h.2
    refine Follows.seq (next_follows fun _ h => h.2) (fun d rest h => AtMost.rest d rest h.1)
      fun _ => ?_
    exact (typeExpr_follows hexpression).map fun _ => rfl
  · exact Follows.skip rfl rfl fun _ h => mt starts_coercion_iff.1 h.2

/-- The loop for the operands of a product takes them as the grammar repeats them. -/
theorem factor_follows :
    Follows source (AtMost (n + 1)) (factor (expression n) n) (.ref .factor) fun e => e := by
  refine Follows.ref ?_ fun _ => trivial
  refine Follows.seq (coerced_follows hexpression) (AtMost.rest_of_succ rfl) fun first => ?_
  exact chain_follows multiplicative_isLevel (coerced_follows hexpression) sampleCoerce
    (Nat.le_succ n) first

theorem sum_follows :
    Follows source (AtMost (n + 1)) (sum (expression n) n) (.ref .term) fun e => e := by
  refine Follows.ref ?_ fun _ => trivial
  refine Follows.seq (factor_follows hexpression) (AtMost.rest_of_succ rfl) fun first => ?_
  exact chain_follows additive_isLevel (factor_follows hexpression) sampleFactor
    (Nat.le_succ n) first

end Nested

/-- The bound of an expression is high enough for all tokens that are left. -/
theorem expression_follows (source : Source) (n : Nat) :
    Follows source (AtMost n) (expression n) (.ref .expression) fun e => e := by
  induction n with
  | zero => exact Follows.fails rfl (fun _ => AtMost.not_starts) nofun
  | succ n ih => exact Follows.ref (sum_follows ih) fun _ => trivial

/-! ## Items -/

theorem param_follows (source : Source) (n : Nat) :
    Follows source (AtMost n) (param n) .param fun v => ⟨Token.ident v.1, v.2.2.1⟩ := by
  refine Follows.seq (identifier_follows (AtMost n)) AtMost.rest fun name => ?_
  refine Follows.seq (expect_follows (AtMost n) _ _) AtMost.rest fun _ => ?_
  have htype := (typeExpr_follows (expression_follows source n)).mono
    fun _ (h : AtMost n _) => Nat.le_succ_of_le h
  refine Follows.seq htype AtMost.rest fun type => ?_
  exact (optionalComma_follows _).map fun _ => rfl

/-- A function gives its item for the number of the text, which the tree does not know. -/
theorem function_follows (source : Source) (n : Nat) :
    Follows source (AtMost (n + 1)) (function n) (.ref .function) fun f => f source.unit := by
  refine Follows.ref ?_ fun _ => trivial
  refine Follows.seq (typeExpr_follows (expression_follows source n)) (AtMost.rest_of_succ rfl)
    fun ret => ?_
  refine Follows.seq (identifier_follows (AtMost n)) AtMost.rest fun name => ?_
  refine Follows.seq (expect_follows (AtMost n) _ _) AtMost.rest fun _ => ?_
  refine untilSymbol_follows (param_follows source n) rfl rfl rfl ?_ (Nat.le_refl n)
    fun params => ?_
  · exact fun _ => Bool.or_false _
  refine Follows.seq (expect_follows (AtMost n) _ _) AtMost.rest fun _ => ?_
  have hblock := (block_follows (expression_follows source n)).mono
    fun _ (h : AtMost n _) => Nat.le_succ_of_le h
  exact hblock.map_unit fun _ => rfl

theorem constant_follows (source : Source) (n : Nat) :
    Follows source (fun ts => AtMost (n + 1) ts ∧ ahead ts = some .const) (constant n) .binding
      fun v => ⟨Token.ident v.2.1, v.2.2.2⟩ :=
  (binding_follows (expression_follows source n)).map
    (g := fun v : Span × Ident × Expr => Item.mk v.2.1 v.2.2) fun _ => rfl

/-- An item under the bound that it is asked for with. This is `item` with the bound as an argument,
which only the number of lexemes fixes. -/
theorem item_follows_of_atMost (source : Source) (n : Nat) :
    Follows source (fun ts => AtMost n ts ∧ ts ≠ [])
      (do
        match ← peekKind with
        | none => return none
        | some .const =>
          let i ← constant n
          return some i
        | some _ =>
          let i ← function n
          return some i)
      (.ref .item) fun f => some (f source.unit) := by
  have hfunction : ∀ kind, Phrase.binding.mayStart kind = false →
      Follows source (fun ts => (AtMost n ts ∧ ts ≠ []) ∧ ahead ts = some kind)
        (function n >>= fun i => pure (some i)) Nonterminal.item.rule
        fun v => some (Nonterminal.item.build v source.unit) := by
    intro kind hkind
    refine Follows.inr ?_ rfl fun _ h => Phrase.not_starts_of_ahead h.2 hkind
    refine Follows.map ?_ fun _ => rfl
    exact (function_follows source n).mono fun _ h => Nat.le_succ_of_le h.1.1
  refine Follows.ref (Follows.peek fun found => ?_) fun _ => trivial
  cases found with
  | none =>
    intro ts h
    cases ts with
    | nil => exact absurd rfl h.1.2
    | cons t ts => cases h.2
  | some kind =>
    cases kind with
    | const =>
      refine Follows.inl ?_ rfl fun _ h => Phrase.not_starts_of_ahead h.2 rfl
      refine Follows.map ?_ fun _ => rfl
      exact (constant_follows source n).mono fun _ h => ⟨Nat.le_succ_of_le h.1.1, h.2⟩
    | _ => exact hfunction _ rfl

/-- The parser of items follows the grammar in front of every token. -/
theorem item_follows (source : Source) :
    Follows source (· ≠ []) item (.ref .item) fun f => some (f source.unit) := by
  intro ts hts
  have hlength : AtMost (lexemes ts).length ts := Nat.le_of_eq (List.length_map Token.lexeme).symm
  exact item_follows_of_atMost source (lexemes ts).length ts ⟨hlength, hts⟩

/-- The first item of a derivation is taken off. -/
theorem item_of_more (source : Source) {first : Derivation (.ref .item)}
    {others : Derivation .program} (h : (Derivation.more first others).Proper []) :
    item source (lexemes (first.yield ++ others.yield)) =
      (.ok (some (first.value source.unit)), lexemes others.yield) := by
  obtain ⟨hfirst, -⟩ := h
  rw [List.append_nil] at hfirst
  have hne : first.yield ++ others.yield ≠ [] :=
    fun hnil => first.yield_ne_nil rfl (List.append_eq_nil_iff.1 hnil).1
  exact (item_follows source _ hne _ _).2 (.intro first others.yield hfirst)

end Parser

namespace Parse

/-- A program with an item in front is one exactly if the rest is. -/
theorem program_cons (i : Item) (rest : List Lexeme) (p : Parse) (items : List Item) :
    program ⟨(i, rest) :: p.items, p.problem⟩ = .ok items ↔
      ∃ others, p.program = .ok others ∧ i :: others = items := by
  obtain ⟨parsed, problem⟩ := p
  cases problem with
  | some problem => exact ⟨nofun, nofun⟩
  | none =>
    constructor
    · intro h
      cases h
      exact ⟨parsed.map Prod.fst, rfl, rfl⟩
    · rintro ⟨_, ⟨⟩, rfl⟩
      rfl

/-- No tokens are derived by the program without items alone. -/
theorem program_nil_iff (unit : Nat) (items : List Item) :
    program ⟨[], none⟩ = .ok items ↔
      ∃ d : Derivation .program, d.yield = [] ∧ d.Proper [] ∧ d.items unit = items := by
  constructor
  · intro h
    cases h
    exact ⟨.done, rfl, Phrase.not_starts nofun, rfl⟩
  · rintro ⟨d, hyield, -, rfl⟩
    cases d with
    | done => rfl
    | more d ds => exact absurd (List.append_eq_nil_iff.1 hyield).1 (d.yield_ne_nil rfl)

/-- On tokens a parse succeeds exactly with the items of a derivation. -/
theorem program_ofLexemes_iff (source : Source) {n : Nat} {ts : List Token}
    (hts : Parser.AtMost n ts) (items : List Item) :
    (ofLexemes source n (lexemes ts)).program = .ok items ↔
      ∃ d : Derivation .program, d.yield = ts ∧ d.Proper [] ∧ d.items source.unit = items := by
  induction n generalizing ts items with
  | zero =>
    obtain rfl : ts = [] := List.length_eq_zero_iff.1 (Nat.le_zero.1 hts)
    exact program_nil_iff source.unit items
  | succ n ih =>
    cases ts with
    | nil => exact program_nil_iff source.unit items
    | cons t ts =>
      have hitem := Parser.item_follows source (t :: ts) (List.cons_ne_nil t ts)
      rw [ofLexemes]
      rcases hresult : Parser.item source (lexemes (t :: ts)) with ⟨problem | _ | i, rest⟩
      · constructor
        · intro h
          cases h
        · rintro ⟨d, hyield, hd, -⟩
          cases d with
          | done => cases hyield
          | more first others =>
            rw [← hyield] at hresult
            cases hresult.symm.trans (Parser.item_of_more source hd)
      · obtain ⟨d, rest, -, -, h, -⟩ := ((hitem none rest).1 hresult).exists
        cases h
      · show program ⟨_, _⟩ = _ ↔ _
        rw [program_cons]
        constructor
        · rintro ⟨others, hothers, rfl⟩
          obtain ⟨d, rest', hyield, hd, h, rfl⟩ := ((hitem (some i) rest).1 hresult).exists
          cases h
          rw [← hyield] at hts
          have hrest := Parser.AtMost.rest_of_succ rfl d rest' hts
          obtain ⟨ds, rfl, hds, rfl⟩ := (ih hrest others).1 hothers
          refine ⟨.more d ds, hyield, ⟨?_, hds⟩, rfl⟩
          rw [List.append_nil]
          exact hd
        · rintro ⟨d, hyield, hd, rfl⟩
          cases d with
          | done => cases hyield
          | more first others =>
            rw [← hyield] at hts hresult
            cases hresult.symm.trans (Parser.item_of_more source hd)
            have hothers := Parser.AtMost.rest_of_succ rfl first others.yield hts
            exact ⟨_, (ih hothers _).2 ⟨others, rfl, hd.2, rfl⟩, rfl⟩

end Parse

/-- A text of tokens is parsed as its tokens are. -/
theorem Item.ofText_eq_program {unit : Nat} {text : String} {ts : List Token}
    (hts : Token.ofText text = .ok ts) :
    Item.ofText unit text =
      (Parse.ofLexemes (Source.ofText unit text) ts.length (lexemes ts)).program := by
  have hlexemes : Lexeme.ofText text = lexemes ts := Lexeme.eq_of_mapM_token hts
  rw [Item.ofText, Parse.ofText, hlexemes]
  simp only [lexemes, List.length_map]

/-- A text is a program if its tokens have a derivation, and the items are the tree of that. -/
theorem Item.ofText_eq_ok_iff_derivation {unit : Nat} {text : String} {items : List Item} :
    Item.ofText unit text = .ok items ↔
      ∃ d : Derivation .program, Lexeme.ofText text = lexemes d.yield ∧ d.Proper [] ∧
        d.items unit = items := by
  constructor
  · intro h
    obtain ⟨ts, hlexemes⟩ := Item.exists_tokens h
    rw [Item.ofText_eq_program (Token.ofText_iff_scan.2 hlexemes)] at h
    obtain ⟨d, rfl, hd, hitems⟩ :=
      (Parse.program_ofLexemes_iff _ (Nat.le_refl ts.length) items).1 h
    exact ⟨d, hlexemes, hd, hitems⟩
  · rintro ⟨d, hlexemes, hd, rfl⟩
    rw [Item.ofText_eq_program (Token.ofText_iff_scan.2 hlexemes)]
    exact (Parse.program_ofLexemes_iff _ (Nat.le_refl _) _).2 ⟨d, rfl, hd, rfl⟩

/-- A text that is made of tokens is a program exactly if its tokens have a proper derivation as
items. There is only one, and the items are its tree. -/
theorem Item.ofText_eq_ok_iff (unit : Nat) {text : String} {ts : List Token}
    (hts : Token.ofText text = .ok ts) :
    (∀ items, Item.ofText unit text = .ok items ↔
      ∃ d : Derivation .program, d.yield = ts ∧ d.Proper [] ∧ d.items unit = items) ∧
    ∀ d d' : Derivation .program, d.yield = ts → d'.yield = ts → d.Proper [] → d'.Proper [] →
      d = d' := by
  refine ⟨fun items => ?_, fun d d' h h' hd hd' => ?_⟩
  · rw [Item.ofText_eq_program hts]
    exact Parse.program_ofLexemes_iff (Source.ofText unit text) (Nat.le_refl _) items
  · have hprogram : Phrase.program.Separate := ⟨trivial, rfl⟩
    exact (d.eq_of_proper d' hprogram hd hd' (by rw [h, h'])).1

/-- The item `const x = f(a b,) as u8 * (g)`. -/
def coercedProduct : Item :=
  ⟨⟨"x", ⟨6, 7⟩⟩,
    .binary .mul
      (.coerce (.call (.name ⟨"f", ⟨10, 11⟩⟩) [.name ⟨"a", ⟨12, 13⟩⟩, .name ⟨"b", ⟨14, 15⟩⟩]
          ⟨11, 12⟩ ⟨16, 17⟩)
        (.literal (.type (.int (.sized .unsigned .w8))) ⟨21, 23⟩))
      (.name ⟨"g", ⟨27, 28⟩⟩)⟩

/-- The tokens of `const x = f(a b,) as u8 * (g)`. -/
def coercedProductTokens : List Token :=
  [⟨.const, ⟨0, 5⟩, "const"⟩, ⟨.identifier, ⟨6, 7⟩, "x"⟩, ⟨.symbol .equals, ⟨8, 9⟩, "="⟩,
    ⟨.identifier, ⟨10, 11⟩, "f"⟩, ⟨.symbol .leftParen, ⟨11, 12⟩, "("⟩,
    ⟨.identifier, ⟨12, 13⟩, "a"⟩, ⟨.identifier, ⟨14, 15⟩, "b"⟩, ⟨.symbol .comma, ⟨15, 16⟩, ","⟩,
    ⟨.symbol .rightParen, ⟨16, 17⟩, ")"⟩, ⟨.as, ⟨18, 20⟩, "as"⟩,
    ⟨.typeName (.int (.sized .unsigned .w8)), ⟨21, 23⟩, "u8"⟩, ⟨.symbol .star, ⟨24, 25⟩, "*"⟩,
    ⟨.symbol .leftParen, ⟨26, 27⟩, "("⟩, ⟨.identifier, ⟨27, 28⟩, "g"⟩,
    ⟨.symbol .rightParen, ⟨28, 29⟩, ")"⟩]

/-- The comma behind the last argument is dropped, and the coercion binds tighter than the
product. -/
theorem Item.ofText_eq_ok_iff_coercedProduct :
    ∃ ts, Token.ofText "const x = f(a b,) as u8 * (g)" = .ok ts ∧
      ∃ d : Derivation .program, (d.yield = ts ∧ d.Proper []) ∧ d.items 0 = [coercedProduct] ∧
        ∀ d' : Derivation .program, d'.yield = ts → d'.Proper [] → d' = d := by
  have hts : Token.ofText "const x = f(a b,) as u8 * (g)" = .ok coercedProductTokens :=
    eq_ok_of_toOption (by decide +kernel)
  have hitems : Item.ofText 0 "const x = f(a b,) as u8 * (g)" = .ok [coercedProduct] :=
    (Item.ofText_eq_program hts).trans rfl
  have hiff := Item.ofText_eq_ok_iff 0 hts
  obtain ⟨d, hyield, hd, hvalue⟩ := (hiff.1 [coercedProduct]).1 hitems
  exact ⟨_, hts, d, ⟨hyield, hd⟩, hvalue,
    fun d' hyield' hd' => hiff.2 d' d hyield' hyield hd' hd⟩

end ExprLang
