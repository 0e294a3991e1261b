import ExprLang.Proofs.Judging

/-!
# Verdicts on programs

Each function of the parser judges its nonterminal. So a program that does not parse has ended too
early, or nothing that could be added makes it one (`Parse.program_error`).
-/

namespace ExprLang

open Token (ahead lexemes)

namespace Parser

variable {source : Source}

/-! ## Expressions -/

/-- An optional comma never fails, so it gives no verdict. -/
theorem optionalComma_judges (on : List Token → Prop) {e : Phrase} :
    Judges source on optionalComma e := by
  refine .accept (.map (next_judges fun _ h => h.2)) (.pure _)

section Nested

variable {n : Nat} (hexpression : Judges source (AtMost n) (expression n) (.ref .expression))

include hexpression

/-- A binding that breaks off behind its keyword is completed by a name, an equals sign and an
expression of one token. -/
theorem binding_judges :
    Judges source (fun ts => AtMost (n + 1) ts ∧ ahead ts = some .const) (binding (expression n))
      .binding := by
  have hvalue : (Phrase.seq (.sign .equals) (.ref .expression)).Completes []
      [.symbol .equals, .identifier] :=
    (Phrase.Completes.sign .equals).seq .expression fun _ _ => rfl
  refine Judges.next_seq (fun keyword => ?_) (Phrase.Completes.identifier.seq hvalue fun _ _ => rfl)
  refine Judges.seq (identifier_follows (AtMost n)) (identifier_judges _) trivial AtMost.rest
    (fun name => ?_) hvalue fun _ _ => rfl
  refine Judges.seq (expect_follows (AtMost n) _ _) (expect_judges _ rfl _) trivial AtMost.rest
    (fun _ => ?_) .expression fun _ _ => rfl
  exact hexpression.map

/-- Whether a statement is a binding or an expression is settled by its first token. -/
theorem statement_judges :
    Judges source (AtMost n) (statement (expression n)) (.ref .statement) := by
  refine Judges.ref (Judges.sees ?_ ?_) fun _ => trivial
  · refine Judges.inl ?_ rfl fun ts h => Phrase.not_starts_of_ahead h.2 rfl
    exact ((binding_judges hexpression).mono fun _ h => ⟨Nat.le_succ_of_le h.1, h.2⟩).map
  · refine Judges.inr ?_ rfl fun _ h => Phrase.not_starts_of_ne h.2 fun _ => Bool.or_false _
    exact (hexpression.mono fun _ h => h.1).map

/-- A block that breaks off is completed by its closing brace, since a statement never goes on with
one. -/
theorem block_judges : Judges source (AtMost (n + 1)) (block (expression n) n) (.ref .block) := by
  refine Judges.ref ?_ fun _ => trivial
  have hwhole : (Phrase.seq (.many (.ref .statement)) (.sign .rightBrace)).Completes []
      [.symbol .rightBrace] := Phrase.Completes.done.seq (.sign .rightBrace) (by rintro _ ⟨⟩; rfl)
  refine Judges.seq (expect_follows _ _ _) (expect_judges _ rfl _) trivial (AtMost.rest_of_succ rfl)
    (fun opening => ?_) hwhole fun _ _ => rfl
  refine untilSymbol_judges (statement_follows (expression_follows source n))
    (statement_judges hexpression) rfl trivial rfl rfl rfl (fun _ => rfl) (.sign .rightBrace)
    (Nat.le_refl n) fun statements => ?_
  exact (expect_judges _ rfl _).map

/-- An expression between parentheses that breaks off is completed by the closing one. -/
theorem parenthesized_judges :
    Judges source (fun ts => AtMost (n + 1) ts ∧ ahead ts = some (.symbol .leftParen))
      (parenthesized (expression n))
      (.seq (.sign .leftParen) (.seq (.ref .expression) (.sign .rightParen))) := by
  have hends : ∀ kind, [Token.Kind.symbol .rightParen].head? = some kind →
      (Phrase.ref .expression).mayContinue kind = false := by
    rintro _ ⟨⟩
    rfl
  refine Judges.next_seq (fun _ => ?_)
    (Phrase.Completes.expression.seq (.sign .rightParen) hends)
  refine Judges.seq (expression_follows source n) hexpression trivial AtMost.rest (fun e => ?_)
    (.sign .rightParen) hends
  exact (expect_judges _ rfl _).map

/-- Which of its alternatives a primary expression is, is settled by its first token. A token that
starts none of them is taken for a literal that is none. -/
theorem primary_judges :
    Judges source (AtMost (n + 1)) (primary (expression n) n) (.ref .primary) := by
  have hliteral : ∀ kind, Phrase.identifier.mayStart kind = false →
      (Phrase.ref .block).mayStart kind = false → (Phrase.sign .leftParen).mayStart kind = false →
      Judges source (fun ts => AtMost (n + 1) ts ∧ ahead ts = some kind) literal
        Nonterminal.primary.rule := by
    intro kind hname hblock hparen
    refine Judges.inr (Judges.inr (Judges.inr ?_ rfl ?_) rfl ?_) rfl ?_
    · refine literal_judges.mono fun ts h => ?_
      rintro rfl
      cases h.2
    · intro ts h
      refine Phrase.not_starts_of_ahead h.2 ?_
      rw [Phrase.mayStart, hparen]
      rfl
    · exact fun _ h => Phrase.not_starts_of_ahead h.2 hblock
    · exact fun _ h => Phrase.not_starts_of_ahead h.2 hname
  refine Judges.ref (Judges.peek fun found => ?_) fun _ => trivial
  cases found with
  | none =>
    intro ts hts d ls h
    cases ts with
    | nil =>
      cases h
      exact .early Phrase.Completes.identifier.inl
    | cons t ts => cases hts.2
  | some kind =>
    cases kind with
    | identifier =>
      refine Judges.inl ?_ rfl fun _ h => Phrase.not_starts_of_ahead h.2 rfl
      exact (identifier_judges _).map
    | symbol s =>
      cases s with
      | leftBrace =>
        refine Judges.inr (Judges.inl ?_ rfl ?_) rfl ?_
        · exact ((block_judges hexpression).mono fun _ h => h.1).map
        · exact fun _ h => Phrase.not_starts_of_ahead h.2 rfl
        · exact fun _ h => Phrase.not_starts_of_ahead h.2 rfl
      | leftParen =>
        refine Judges.inr (Judges.inr (Judges.inl ?_ rfl ?_) rfl ?_) rfl ?_
        · exact parenthesized_judges hexpression
        · exact fun _ h => Phrase.not_starts_of_ahead h.2 rfl
        · exact fun _ h => Phrase.not_starts_of_ahead h.2 rfl
        · exact fun _ h => Phrase.not_starts_of_ahead h.2 rfl
      | _ => exact hliteral _ rfl rfl rfl
    | _ => exact hliteral _ rfl rfl rfl

/-- A type that is read as a whole can still be refused, for a literal that is no type. This verdict
holds however the text goes on, since a primary expression ends by itself. -/
theorem typeExpr_judges :
    Judges source (AtMost (n + 1)) (typeExpr (expression n) n) (.ref .typeExpr) := by
  have hfollows := primary_follows (expression_follows source n)
  intro ts hts d ls h
  match hresult : primary (expression n) n source (lexemes ts) with
  | (.error d', mid) =>
    rw [typeExpr, bind_of_error hresult] at h
    cases h
    cases primary_judges hexpression ts hts d _ hresult with
    | early hcompletes =>
      have hnot : ¬(Phrase.ref .primary).Derives ts [] := by
        rintro ⟨d, rfl, hd⟩
        have hok := (hfollows _ hts _ _).2 (by simpa using Takes.intro d [] hd)
        cases hok.symm.trans hresult
      obtain ⟨kinds, htype⟩ := Phrase.exists_completes_typeExpr hcompletes hnot
      exact .early htype
    | wrong hkind hne hnone =>
      refine .wrong hkind hne fun front rest more hder => ?_
      obtain ⟨d, rfl, hd⟩ := hder
      cases d with
      | ref d => exact hnone _ rest more ⟨d, rfl, hd.1⟩
  | (.ok e, mid) =>
    obtain ⟨d₀, rest₀, rfl, hd₀, rfl, rfl⟩ := ((hfollows ts hts e mid).1 hresult).exists
    rw [typeExpr, bind_of_ok hresult] at h
    cases hplace : misplacedLiteral d₀.value with
    | none => rw [hplace] at h; cases h
    | some t =>
      rw [hplace] at h
      cases h
      have hne : d₀.yield ++ rest₀ ≠ [] := by simp [d₀.yield_ne_nil rfl]
      refine .wrong (by simp [Diagnostic.kind, Problem.kind]) hne fun front rest more hder heq => ?_
      -- A primary expression ends by itself, so more tokens do not change what was read.
      obtain ⟨d, rfl, hd⟩ := hder
      cases d with
      | ref d =>
        change Derivation (.ref .primary) at d
        have hd₀' : d₀.Proper (rest₀ ++ more) :=
          hd₀.of_ahead (.inr fun kind _ => Nonterminal.not_mayContinue_of_closed rfl kind)
        rw [List.append_assoc] at heq
        obtain ⟨rfl, -⟩ := d.eq_of_proper d₀ trivial hd.1 hd₀' heq
        cases ((misplacedLiteral_eq_none_iff d.value).2 hd.2).symm.trans hplace

theorem argument_judges : Judges source (AtMost n) (argument (expression n)) .argument :=
  Judges.seq (expression_follows source n) hexpression trivial AtMost.rest
    (fun _ => (optionalComma_judges _).map) .skip nofun

/-- Arguments that break off are completed by the closing parenthesis. -/
theorem called_judges :
    Judges source (AtMost (n + 1)) (called (expression n) n) (.ref .call) := by
  refine Judges.ref ?_ fun _ => trivial
  refine Judges.seq (primary_follows (expression_follows source n)) (primary_judges hexpression)
    trivial (AtMost.rest_of_succ rfl) (fun callee => ?_) .skip nofun
  refine Judges.sees ?_ (.pure _)
  refine Judges.take ?_ fun _ h => starts_arguments_iff.2 h.2
  have hwhole : (Phrase.seq (.many .argument) (.sign .rightParen)).Completes []
      [.symbol .rightParen] := Phrase.Completes.done.seq (.sign .rightParen) (by rintro _ ⟨⟩; rfl)
  refine Judges.seq (next_follows fun _ h => h.2) (next_judges fun _ h => h.2) trivial
    (fun d rest h => AtMost.rest d rest h.1) (fun opening => ?_) hwhole fun _ _ => rfl
  refine untilSymbol_judges (argument_follows (expression_follows source n))
    (argument_judges hexpression) rfl ⟨trivial, trivial, rfl⟩ rfl rfl rfl (fun _ => rfl)
    (.sign .rightParen) (Nat.le_refl n) fun args => ?_
  exact (expect_judges _ rfl _).map

/-- A coercion that breaks off behind its keyword is completed by a type. -/
theorem coerced_judges :
    Judges source (AtMost (n + 1)) (coerced (expression n) n) (.ref .coerce) := by
  refine Judges.ref ?_ fun _ => trivial
  refine Judges.seq (called_follows (expression_follows source n)) (called_judges hexpression)
    trivial AtMost.rest (fun value => ?_) .skip nofun
  refine Judges.accept ?_ (.pure _)
  refine Judges.take ?_ fun _ h => starts_coercion_iff.2 h.2
  refine Judges.seq (next_follows fun _ h => h.2) (next_judges fun _ h => h.2) trivial
    (fun d rest h => AtMost.rest d rest h.1) (fun _ => ?_) .typeExpr fun _ _ => rfl
  exact (typeExpr_judges hexpression).map

/-- A chain of coercions that breaks off behind an operator is completed by another one. -/
theorem factor_judges :
    Judges source (AtMost (n + 1)) (factor (expression n) n) (.ref .factor) := by
  have hfollows := coerced_follows (expression_follows source n)
  refine Judges.ref ?_ fun _ => trivial
  refine Judges.seq hfollows (coerced_judges hexpression) trivial (AtMost.rest_of_succ rfl)
    (fun first => ?_) .done nofun
  exact chain_judges multiplicative_isLevel hfollows (coerced_judges hexpression) trivial
    sampleCoerce .coerce (Nat.le_succ n) first

theorem sum_judges : Judges source (AtMost (n + 1)) (sum (expression n) n) (.ref .term) := by
  have hfollows := factor_follows (expression_follows source n)
  refine Judges.ref ?_ fun _ => trivial
  refine Judges.seq hfollows (factor_judges hexpression) trivial (AtMost.rest_of_succ rfl)
    (fun first => ?_) .done nofun
  exact chain_judges additive_isLevel hfollows (factor_judges hexpression) trivial sampleFactor
    .factor (Nat.le_succ n) first

end Nested

/-- Expressions judge their nonterminal, by induction on the number of tokens that they may take. -/
theorem expression_judges (source : Source) (n : Nat) :
    Judges source (AtMost n) (expression n) (.ref .expression) := by
  induction n with
  | zero =>
    intro ts hts d ls h
    obtain rfl : ts = [] := List.length_eq_zero_iff.1 (Nat.le_zero.1 hts)
    cases h
    exact .early .expression
  | succ n ih => exact Judges.ref (n := .expression) (sum_judges ih) fun _ => trivial

/-! ## Items -/

theorem typeExpr_judges_of_atMost (source : Source) (n : Nat) :
    Judges source (AtMost n) (typeExpr (expression n) n) (.ref .typeExpr) :=
  (typeExpr_judges (expression_judges source n)).mono fun _ h => Nat.le_succ_of_le h

theorem param_judges (source : Source) (n : Nat) : Judges source (AtMost n) (param n) .param := by
  have htype : (Phrase.seq (.ref .typeExpr) (.opt (.sign .comma))).Completes [] [.identifier] :=
    Phrase.Completes.typeExpr.seq_nil .skip
  have hcolon := (Phrase.Completes.sign .colon).seq htype fun _ _ => rfl
  have hfollows := (typeExpr_follows (expression_follows source n)).mono
    fun _ (h : AtMost n _) => Nat.le_succ_of_le h
  refine Judges.seq (identifier_follows (AtMost n)) (identifier_judges _) trivial AtMost.rest
    (fun name => ?_) hcolon fun _ _ => rfl
  refine Judges.seq (expect_follows (AtMost n) _ _) (expect_judges _ rfl _) trivial AtMost.rest
    (fun _ => ?_) htype fun _ _ => rfl
  exact Judges.seq hfollows (typeExpr_judges_of_atMost source n) trivial AtMost.rest
    (fun type => (optionalComma_judges _).map) .skip nofun

/-- A function that breaks off is completed by what its rule asks for behind that place: a name, an
opening and a closing parenthesis, and a block. -/
theorem function_judges (source : Source) (n : Nat) :
    Judges source (AtMost (n + 1)) (function n) (.ref .function) := by
  have hexpression := expression_judges source n
  have hfollows := expression_follows source n
  have hblock : Judges source (AtMost n) (block (expression n) n) (.ref .block) :=
    (block_judges hexpression).mono fun _ h => Nat.le_succ_of_le h
  have hend := (Phrase.Completes.sign .rightParen).seq .block fun _ _ => rfl
  have hparams := Phrase.Completes.done (a := .param) |>.seq hend (by rintro _ ⟨⟩; rfl)
  have hopen := (Phrase.Completes.sign .leftParen).seq hparams fun _ _ => rfl
  refine Judges.ref ?_ fun _ => trivial
  refine Judges.seq (typeExpr_follows hfollows) (typeExpr_judges hexpression) trivial
    (AtMost.rest_of_succ rfl) (fun ret => ?_)
    (Phrase.Completes.identifier.seq hopen fun _ _ => rfl) (by rintro _ ⟨⟩; rfl)
  refine Judges.seq (identifier_follows (AtMost n)) (identifier_judges _) trivial AtMost.rest
    (fun name => ?_) hopen fun _ _ => rfl
  refine Judges.seq (expect_follows (AtMost n) _ _) (expect_judges _ rfl _) trivial AtMost.rest
    (fun _ => ?_) hparams fun _ _ => rfl
  refine untilSymbol_judges (param_follows source n) (param_judges source n) rfl
    ⟨trivial, trivial, trivial, trivial, rfl⟩ rfl rfl rfl ?_ hend (Nat.le_refl n) fun params => ?_
  · exact fun _ => Bool.or_false _
  refine Judges.seq (expect_follows (AtMost n) _ _) (expect_judges _ rfl _) trivial AtMost.rest
    (fun _ => ?_) .block fun _ _ => rfl
  exact hblock.map_unit

/-- An item is a binding if it starts with the keyword, and a function otherwise. -/
theorem item_judges (source : Source) : Judges source (· ≠ []) item (.ref .item) := by
  intro ts hts
  have hlength : AtMost ((lexemes ts).length + 1) ts := by
    rw [AtMost, lexemes, List.length_map]
    omega
  have hfunction : ∀ n kind, Phrase.binding.mayStart kind = false →
      Judges source (fun ts => AtMost (n + 1) ts ∧ ahead ts = some kind)
        (function n >>= fun i => pure (some i)) Nonterminal.item.rule := by
    intro n kind hkind
    refine Judges.inr ?_ rfl fun _ h => Phrase.not_starts_of_ahead h.2 hkind
    exact ((function_judges source n).mono fun _ h => h.1).map
  simp only [item]
  generalize (lexemes ts).length = n at hlength ⊢
  refine Judges.ref (n := .item) (Judges.peek fun found => ?_) (fun _ => trivial) ts hlength
  cases found with
  | none => exact Judges.pure _
  | some kind =>
    cases kind with
    | const =>
      refine Judges.inl ?_ rfl fun _ h => Phrase.not_starts_of_ahead h.2 rfl
      exact (binding_judges (expression_judges source n)).map.map
    | _ => exact hfunction n _ rfl

end Parser

/-! ## Programs -/

namespace Parse

theorem program_of_nil (source : Source) (n : Nat) :
    (ofLexemes source n (lexemes [])).program = .ok [] := by
  cases n <;> rfl

/-- A first item that was read does not change the problem of the rest. -/
theorem program_cons_error (i : Item) (rest : List Lexeme) (p : Parse) (d : Diagnostic) :
    program ⟨(i, rest) :: p.items, p.problem⟩ = .error d ↔ p.program = .error d := by
  obtain ⟨parsed, problem⟩ := p
  cases problem with
  | some problem => exact Iff.rfl
  | none => exact ⟨nofun, nofun⟩

/-- A program that does not parse has ended too early, and some tokens make a whole of it, or
nothing that could be added does. -/
theorem program_error (source : Source) {n : Nat} {ts : List Token} (hts : Parser.AtMost n ts)
    {d : Diagnostic} (h : (ofLexemes source n (lexemes ts)).program = .error d) :
    (d = ⟨.unexpectedEnd, Span.point source.eof⟩ ∧
      ∃ kinds, Phrase.program.Completes ts kinds) ∨
    (d.kind ≠ .eof ∧ ∀ more, ¬Phrase.program.Derives (ts ++ more) []) := by
  induction n generalizing ts with
  | zero => cases h
  | succ n ih =>
    cases ts with
    | nil => cases h
    | cons t ts =>
      have hne := List.cons_ne_nil t ts
      rw [ofLexemes] at h
      rcases hresult : Parser.item source (lexemes (t :: ts)) with ⟨d' | _ | i, rest⟩
      · rw [hresult] at h
        cases h
        cases Parser.item_judges source (t :: ts) hne d _ hresult with
        | early hcompletes =>
          have hwhole : Phrase.program.Completes (t :: ts) _ :=
            (hcompletes.seq_nil (b := .program) .done).imp
              fun _ hmore => Phrase.derives_many.2 (.inr hmore)
          exact .inl ⟨rfl, _, hwhole⟩
        | wrong hkind _ hnone =>
          refine .inr ⟨hkind, fun more hmore => ?_⟩
          rcases Phrase.derives_many.1 hmore with ⟨hnil, -⟩ | hseq
          · cases hnil
          · obtain ⟨front, back, heq, hfront, -⟩ := Phrase.derives_seq.1 hseq
            exact hnone front (back ++ []) more hfront (by rw [List.append_nil, heq])
      · rw [hresult] at h
        cases h
      · obtain ⟨d₀, rest₀, hyield, hd₀, -, rfl⟩ :=
          ((Parser.item_follows source (t :: ts) hne (some i) rest).1 hresult).exists
        rw [hresult] at h
        have hothers := (program_cons_error i (lexemes rest₀) _ d).1 h
        have hrest₀ : rest₀ ≠ [] := by
          rintro rfl
          rw [program_of_nil] at hothers
          cases hothers
        have hahead : ∀ more, ahead (rest₀ ++ more) = ahead rest₀ :=
          Token.ahead_append_of_ne_nil hrest₀
        rw [← hyield] at hts ⊢
        rcases ih (Parser.AtMost.rest_of_succ rfl d₀ rest₀ hts) hothers with
          ⟨hd, kinds, hcompletes⟩ | ⟨hkind, hnone⟩
        · refine .inl ⟨hd, kinds, hcompletes.plain, fun more hmore => ?_⟩
          rw [List.append_assoc]
          have hfirst : (Phrase.ref .item).Derives d₀.yield (rest₀ ++ more ++ []) :=
            ⟨d₀, rfl, hd₀.of_ahead (.inl (by rw [List.append_nil, hahead]))⟩
          exact Phrase.derives_many.2 (.inr (Phrase.derives_seq.2
            ⟨d₀.yield, rest₀ ++ more, rfl, hfirst, hcompletes.derives more hmore⟩))
        · refine .inr ⟨hkind, fun more hmore => ?_⟩
          rw [List.append_assoc] at hmore
          rcases Phrase.derives_many.1 hmore with ⟨hnil, -⟩ | hseq
          · exact d₀.yield_ne_nil rfl (List.append_eq_nil_iff.1 hnil).1
          · obtain ⟨front, back, heq, hfront, hback⟩ := Phrase.derives_seq.1 hseq
            have hfirst : (Phrase.ref .item).Derives d₀.yield (rest₀ ++ more) :=
              ⟨d₀, rfl, hd₀.of_ahead (.inl (hahead more))⟩
            obtain ⟨-, hrest⟩ := Phrase.Derives.unique (a := .ref .item) trivial hfront hfirst
              (by rw [List.append_nil, heq])
            rw [List.append_nil] at hrest
            exact hnone more (hrest ▸ hback)

end Parse

end ExprLang
