import ExprLang.Proofs.Continuation
import ExprLang.Proofs.Parsing

/-!
# Completing what was begun

Tokens that do not make a whole of a phrase may begin one. `Phrase.Completes` says which kinds of
tokens are left to add: symbols and names, so that they can be written down. In the place of a type
a literal between parentheses is not enough, and a sum is made of it
(`Phrase.exists_completes_typeExpr`).
-/

namespace ExprLang

open Token (ahead)

/-! ## Completions -/

/-- The kinds that complete what was begun: symbols and names. -/
def Token.Kind.isPlain : Token.Kind → Bool
  | symbol _ => true
  | identifier => true
  | _ => false

namespace Phrase

variable {a b c : Phrase} {ts : List Token} {kinds kinds' : List Token.Kind}

/-- Any tokens of these kinds, which are plain, make a whole of what was begun. -/
structure Completes (e : Phrase) (ts : List Token) (kinds : List Token.Kind) : Prop where
  plain : ∀ kind ∈ kinds, kind.isPlain = true
  derives : ∀ more : List Token, more.map Token.kind = kinds → e.Derives (ts ++ more) []

theorem ahead_eq_head {more : List Token} (h : more.map Token.kind = kinds) :
    ahead more = kinds.head? := by
  subst h
  simp [Token.ahead]

namespace Completes

/-- What completes the first of two phrases is followed by a whole of the second. -/
theorem seq (ha : a.Completes ts kinds) (hb : b.Completes [] kinds')
    (hnot : ∀ kind, kinds'.head? = some kind → a.mayContinue kind = false) :
    (Phrase.seq a b).Completes ts (kinds ++ kinds') := by
  refine ⟨fun kind hkind => ?_, fun more hmore => ?_⟩
  · exact (List.mem_append.1 hkind).elim (ha.plain kind) (hb.plain kind)
  · obtain ⟨front, back, rfl, hfront, hback⟩ := List.map_eq_append_iff.1 hmore
    refine derives_seq.2 ⟨ts ++ front, back, by simp, ?_, hb.derives back hback⟩
    refine (ha.derives front hfront).in_front_of fun kind hkind => hnot kind ?_
    rwa [List.append_nil, ahead_eq_head hback] at hkind

/-- A plain token that is asked for completes itself. -/
theorem exactly {kind : Token.Kind} (h : kind.isPlain = true) :
    (word (.exactly kind)).Completes [] [kind] := by
  refine ⟨by simpa using h, fun more hmore => ?_⟩
  obtain ⟨t, rfl, ht⟩ := List.map_eq_singleton_iff.1 hmore
  exact derives_exactly.2 ⟨t, rfl, ht⟩

theorem sign (s : Symbol) : (Phrase.sign s).Completes [] [.symbol s] := exactly rfl

theorem identifier : Phrase.identifier.Completes [] [.identifier] := exactly rfl

/-- What completes one phrase completes another that derives the same tokens. -/
theorem imp (ha : a.Completes ts kinds)
    (h : ∀ more, a.Derives (ts ++ more) [] → b.Derives (ts ++ more) []) : b.Completes ts kinds :=
  ⟨ha.plain, fun more hmore => h more (ha.derives more hmore)⟩

/-- What completes the rule of a nonterminal completes it, if every tree of the rule is allowed. -/
theorem ref {n : Nonterminal} (h : n.rule.Completes ts kinds) (hn : ∀ v, n.Admits (n.build v)) :
    (Phrase.ref n).Completes ts kinds :=
  h.imp fun _ => (derives_ref hn).2

theorem inl (h : a.Completes ts kinds) : (alt a b).Completes ts kinds :=
  h.imp fun _ hts => derives_alt.2 (.inl hts)

/-- Nothing is needed for what may be left out. -/
theorem skip : (opt a).Completes [] [] := by
  refine ⟨nofun, fun more hmore => ?_⟩
  obtain rfl := List.map_eq_nil_iff.1 hmore
  exact derives_opt.2 (.inl ⟨rfl, not_starts nofun⟩)

theorem done : (many a).Completes [] [] := by
  refine ⟨nofun, fun more hmore => ?_⟩
  obtain rfl := List.map_eq_nil_iff.1 hmore
  exact derives_many.2 (.inl ⟨rfl, not_starts nofun⟩)

/-! ### A whole of each phrase -/

/-- Nothing more is needed behind a phrase if what follows is optional. -/
theorem seq_nil (ha : a.Completes ts kinds) (hb : b.Completes [] []) :
    (Phrase.seq a b).Completes ts kinds := by
  have h := ha.seq hb nofun
  rwa [List.append_nil] at h

/-- A name is a primary expression. -/
theorem primary : (Phrase.ref .primary).Completes [] [.identifier] :=
  ref (n := .primary) identifier.inl fun _ => trivial

/-- So it is a coercion. -/
theorem coerce : (Phrase.ref .coerce).Completes [] [.identifier] := by
  have hcall : (Phrase.ref .call).Completes [] [.identifier] :=
    ref (n := .call) (primary.seq_nil skip) fun _ => trivial
  exact ref (n := .coerce) (hcall.seq_nil skip) fun _ => trivial

theorem factor : (Phrase.ref .factor).Completes [] [.identifier] :=
  ref (n := .factor) (coerce.seq_nil done) fun _ => trivial

/-- And an expression. -/
theorem expression : (Phrase.ref .expression).Completes [] [.identifier] := by
  have hterm : (Phrase.ref .term).Completes [] [.identifier] :=
    ref (n := .term) (factor.seq_nil done) fun _ => trivial
  exact ref (n := .expression) hterm fun _ => trivial

/-- A name can stand for a type too. -/
theorem typeExpr : (Phrase.ref .typeExpr).Completes [] [.identifier] := by
  refine ⟨by simp [Token.Kind.isPlain], fun more hmore => ?_⟩
  obtain ⟨t, rfl, ht⟩ := List.map_eq_singleton_iff.1 hmore
  exact ⟨.ref (.ref (.inl (.word t t (if_pos ht)))), rfl, ⟨trivial, trivial⟩, nofun⟩

/-- The shortest block is empty. -/
theorem block : (Phrase.ref .block).Completes [] [.symbol .leftBrace, .symbol .rightBrace] := by
  have hinner : (Phrase.seq (many (Phrase.ref .statement)) (Phrase.sign .rightBrace)).Completes []
      [.symbol .rightBrace] := done.seq (sign .rightBrace) (by rintro _ ⟨⟩; rfl)
  exact ref (n := .block) ((sign .leftBrace).seq hinner (by rintro _ ⟨⟩; rfl)) fun _ => trivial

end Completes

/-! ### In the place of a type

A literal between parentheses is no type, but the sum of a literal and a name may be one. -/

/-- With a name added to it, an expression is read as a sum and not as a literal. -/
theorem exists_sum {rest : List Token} (h : (ref .expression).Derives ts [])
    (hrest : ∀ kind, ahead rest = some kind → (ref .expression).mayContinue kind = false)
    {plus name : Token} (hplus : plus.kind = .symbol .plus) (hname : name.kind = .identifier) :
    ∃ d : Derivation (ref .expression), d.yield = ts ++ [plus, name] ∧ d.Proper rest ∧
      ∀ l span, d.value ≠ .literal l span := by
  have hfactor : ∀ kind, ahead rest = some kind → (ref .factor).mayContinue kind = false :=
    fun kind hkind => Nonterminal.not_mayContinue_of_le (Nat.zero_le _) (hrest kind hkind)
  obtain ⟨right, hright, hproper⟩ :=
    (Completes.factor.derives [name] (by simp [hname])).in_front_of hfactor
  let part : Derivation (seq (alt (sign .plus) (sign .minus)) (ref .factor)) :=
    .seq (.inl (.word plus plus (if_pos hplus))) right
  have hpart : part.yield = [plus, name] := by
    simp [part, Derivation.yield, hright]
  have hahead : ahead (part.yield ++ rest) = some (.symbol .plus) := by
    simp [hpart, Token.ahead, hplus]
  have hsigns : ¬(seq (alt (sign .plus) (sign .minus)) (ref .factor)).Starts rest := by
    refine not_starts fun kind hkind => ?_
    have hterm := hrest kind hkind
    cases kind with
    | symbol s => cases s <;> first | rfl | cases hterm
    | _ => rfl
  obtain ⟨d, rfl, hd⟩ := h
  cases d with
  | ref d =>
    change Derivation (ref .term) at d
    cases d with
    | ref d =>
      change Derivation (levelled .plus .minus .factor) at d
      cases d with
      | seq first others =>
        have hsum : (Derivation.seq first (others.snoc part)).Proper rest := by
          refine hd.1.1.seq_snoc ⟨trivial, hproper⟩ hsigns rfl fun kind hkind => ?_
          cases hahead.symm.trans hkind
          rfl
        refine ⟨.ref (n := .expression) (.ref (n := .term) (.seq first (others.snoc part))), ?_,
          ⟨⟨hsum, trivial⟩, trivial⟩, ?_⟩
        · simp [Derivation.yield, Derivation.yield_snoc, hpart]
        · intro l span h
          change Expr.grouped .add .sub first.value (others.snoc part).value = _ at h
          have hsnoc := Expr.grouped_snoc .add .sub first.value others.value part.value
          rw [Derivation.value_snoc] at h
          cases hsnoc.symm.trans h

/-- A primary expression that starts with a parenthesis ends with one. -/
theorem derives_of_leftParen {t last : Token} (ht : t.kind = .symbol .leftParen)
    (h : (ref .primary).Derives (t :: (ts ++ [last])) []) :
    (ref .expression).Derives ts [last] := by
  have hrule : (alt .identifier (alt (ref .block)
      (alt (seq (sign .leftParen) (seq (ref .expression) (sign .rightParen)))
        (ref .literal)))).Derives (t :: (ts ++ [last])) [] :=
    (derives_ref (n := .primary) fun _ => trivial).1 h
  have hnot : ∀ {e : Phrase}, e.mayStart (.symbol .leftParen) = false →
      ¬e.Derives (t :: (ts ++ [last])) [] := by
    intro e he hder
    have hstart := hder.mayStart
    rw [ht, he] at hstart
    cases hstart
  rcases derives_alt.1 hrule with hname | hrule
  · exact absurd hname (hnot rfl)
  rcases derives_alt.1 hrule with hblock | hrule
  · exact absurd hblock (hnot rfl)
  rcases derives_alt.1 hrule with hparen | hliteral
  · obtain ⟨front, back, heq, hfront, hback⟩ := derives_seq.1 hparen
    obtain ⟨opening, rfl, -⟩ := derives_exactly.1 hfront
    obtain ⟨inner, back, rfl, hinner, hback⟩ := derives_seq.1 hback
    obtain ⟨closing, rfl, -⟩ := derives_exactly.1 hback
    have hinside : ts ++ [last] = inner ++ [closing] := (List.cons.inj heq).2
    obtain ⟨rfl, hlast⟩ := List.append_inj' hinside rfl
    rw [hlast]
    exact hinner
  · exact absurd hliteral (hnot rfl)

/-- A literal is one token. -/
theorem length_yield_literal (d : Derivation (ref .literal)) : d.yield.length = 1 := by
  cases d with
  | ref d =>
    change Derivation (alt _ (alt _ _)) at d
    cases d with
    | inl d => cases d; rfl
    | inr d => cases d with
      | inl d => cases d; rfl
      | inr d => cases d; rfl

/-- Only a literal by itself, or one between parentheses, is read as one. -/
theorem value_ne_literal {t : Token} (ht : t.kind ≠ .symbol .leftParen) {more : List Token}
    (hmore : more ≠ []) {d : Derivation (ref .primary)} (hyield : d.yield = t :: ts ++ more)
    (l : Literal) (span : Span) : d.value ≠ .literal l span := by
  cases d with
  | ref d =>
    change Derivation (alt _ (alt _ (alt _ _))) at d
    cases d with
    | inl d => exact nofun
    | inr d =>
      cases d with
      | inl d => exact nofun
      | inr d =>
        cases d with
        | inl d =>
          cases d with
          | seq d d' =>
            cases d with
            | word t' v hread =>
              obtain ⟨rfl, -⟩ := List.cons.inj hyield
              exact absurd (beq_iff_eq.1 (Terminal.allows_of_read hread)) ht
        | inr d =>
          have hlength : d.yield.length = 1 := length_yield_literal d
          change d.yield = _ at hyield
          rw [hyield] at hlength
          have hpos := List.length_pos_iff.2 hmore
          simp only [List.cons_append, List.length_cons, List.length_append] at hlength
          omega

/-- What completes a primary expression can be changed to complete a type. -/
theorem exists_completes_typeExpr (h : (ref .primary).Completes ts kinds)
    (hnot : ¬(ref .primary).Derives ts []) : ∃ kinds', (ref .typeExpr).Completes ts kinds' := by
  have hkinds : kinds ≠ [] := by
    rintro rfl
    have hts := h.derives [] rfl
    rw [List.append_nil] at hts
    exact hnot hts
  cases ts with
  | nil => exact ⟨_, Completes.typeExpr⟩
  | cons t ts =>
    by_cases ht : t.kind = .symbol .leftParen
    · -- The parenthesis is not closed before the last of the kinds. A sum is put in front of that.
      obtain ⟨kinds, last, rfl⟩ := (List.eq_nil_or_concat kinds).resolve_left hkinds
      refine ⟨kinds ++ [.symbol .plus, .identifier, .symbol .rightParen], ?_, fun more hmore => ?_⟩
      · intro kind hkind
        rcases List.mem_append.1 hkind with hmem | hmem
        · exact h.plain kind (by simp [hmem])
        · simp only [List.mem_cons, List.not_mem_nil, or_false] at hmem
          rcases hmem with rfl | rfl | rfl <;> rfl
      · obtain ⟨front, back, rfl, hfront, hback⟩ := List.map_eq_append_iff.1 hmore
        obtain ⟨plus, back, rfl, hplus, hback⟩ := List.map_eq_cons_iff.1 hback
        obtain ⟨name, back, rfl, hname, hback⟩ := List.map_eq_cons_iff.1 hback
        obtain ⟨closing, rfl, hclosing⟩ := List.map_eq_singleton_iff.1 hback
        have hwhole := h.derives (front ++ [Parser.sampleToken last])
          (by simp [hfront, Parser.sampleToken])
        rw [List.cons_append, ← List.append_assoc] at hwhole
        have hexpr : (ref .expression).Derives (ts ++ front) [] :=
          (derives_of_leftParen ht hwhole).in_front_of nofun
        have hends : ∀ kind, ahead [closing] = some kind →
            (ref .expression).mayContinue kind = false := by
          rintro _ ⟨⟩
          rw [hclosing]
          rfl
        obtain ⟨d, hyield, hd, hvalue⟩ := exists_sum hexpr hends hplus hname
        refine ⟨.ref (n := .typeExpr) (.ref (n := .primary) (.inr (.inr (.inl
          (.seq (.word t t (if_pos ht)) (.seq d (.word closing closing (if_pos hclosing)))))))), ?_,
          ⟨⟨⟨trivial, hd, trivial⟩, trivial⟩, ?_⟩⟩
        · simp [Derivation.yield, hyield]
        · intro l span hl
          exact absurd hl (hvalue l span)
    · refine ⟨kinds, h.plain, fun more hmore => ?_⟩
      obtain ⟨d, hyield, hd⟩ := h.derives more hmore
      refine ⟨.ref (n := .typeExpr) d, hyield, hd, fun l span hl => ?_⟩
      have hmore : more ≠ [] := by
        rintro rfl
        exact hkinds hmore.symm
      exact absurd hl (value_ne_literal ht hmore hyield l span)

end Phrase

end ExprLang
