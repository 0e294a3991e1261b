import ExprLang.Proofs.Printing

/-!
# Reading what was printed

A printable expression, printed as tokens, has a derivation of its own level and of every lower one
(`Expr.Written`), and in a place that asks for a higher level one between parentheses. Such a
derivation is proper in front of whatever its phrase does not go on with, and in front of a
parenthesis if the expression ends closed (`Phrase.Reads`). Its tree is the expression up to places.
-/

namespace ExprLang

open Token (ahead sign word named enclosed)

/-! ## Spelling -/

namespace Token

/-- Tokens, places aside, are these. -/
def Spells (ts ws : List Token) : Prop := ts.map bare = ws

variable {t : Token} {ts ws ws' : List Token}

theorem Spells.nil (h : Spells ts []) : ts = [] := List.map_eq_nil_iff.1 h

/-- What spells two texts in a row falls into what spells each of them. -/
theorem Spells.append (h : Spells ts (ws ++ ws')) :
    ∃ front back, ts = front ++ back ∧ Spells front ws ∧ Spells back ws' :=
  List.map_eq_append_iff.1 h

theorem Spells.cons {w : Token} (h : Spells ts (w :: ws)) :
    ∃ t rest, ts = t :: rest ∧ t.bare = w ∧ Spells rest ws :=
  List.map_eq_cons_iff.1 h

/-- Without its place, a token is of the same kind. -/
theorem kind_of_bare {w : Token} (h : t.bare = w) : t.kind = w.kind := by
  rw [← h]
  rfl

/-- Only a name keeps its text. -/
theorem text_of_bare {name : String} (h : t.bare = named name) : t.text = name := by
  have hkind : t.kind = .identifier := kind_of_bare h
  have htext := congrArg Token.text h
  simpa [bare, hkind, named] using htext

theorem Spells.ahead_eq (h : Spells ts ws) : ahead ts = ahead ws := by
  cases ts with
  | nil => rw [← h]; rfl
  | cons t ts => rw [← h]; rfl

/-- What spells tokens between parentheses has parentheses of its own around it. -/
theorem Spells.enclosed (h : Spells ts (Token.enclosed ws)) :
    ∃ opening inner closing, ts = opening :: (inner ++ [closing]) ∧
      opening.kind = .symbol .leftParen ∧ Spells inner ws ∧ closing.kind = .symbol .rightParen := by
  obtain ⟨opening, rest, rfl, hopening, hrest⟩ := h.cons
  obtain ⟨inner, back, rfl, hinner, hback⟩ := hrest.append
  obtain ⟨closing, back, rfl, hclosing, hnil⟩ := hback.cons
  obtain rfl := hnil.nil
  exact ⟨opening, inner, closing, rfl, kind_of_bare hopening, hinner, kind_of_bare hclosing⟩

end Token

open Token (Spells kind_of_bare text_of_bare)

/-! ## Reading -/

namespace Phrase

/-- The next token does not go on with a phrase, or is a parenthesis behind what is closed. -/
def Ends (e : Phrase) (closed : Bool) (rest : List Token) : Prop :=
  ∀ kind, ahead rest = some kind →
    e.mayContinue kind = false ∨ (kind = .symbol .leftParen ∧ closed = true)

/-- A constant ends as its value does. -/
theorem mayContinue_binding (kind : Token.Kind) :
    binding.mayContinue kind = Nonterminal.expression.mayContinue kind := by
  simp [binding, mayContinue, nullable]

/-- The phrases that are repeated. What separates them, if anything does, belongs to them. -/
def repeated : List Phrase := [argument, param, ref .statement, ref .item]

/-- Of the tokens that start such a phrase, only a parenthesis goes on with the one before. -/
theorem mayContinue_of_mayStart {a : Phrase} (ha : a ∈ repeated) {kind : Token.Kind}
    (h : a.mayStart kind = true) : a.mayContinue kind = false ∨ kind = .symbol .leftParen := by
  simp only [repeated, List.mem_cons, List.not_mem_nil, or_false] at ha
  rcases ha with rfl | rfl | rfl | rfl
  all_goals
    cases kind with
    | symbol s => cases s <;> first | exact .inl rfl | exact .inr rfl | cases h
    | _ => first | exact .inl rfl | cases h

/-- A phrase reads tokens as a tree with a property, wherever they can end. -/
def Reads (e : Phrase) (good : e.Value → Prop) (closed : Bool) (ts : List Token) : Prop :=
  ∃ d : Derivation e, d.yield = ts ∧ good d.value ∧ ∀ rest, e.Ends closed rest → d.Proper rest

theorem Ends.not_mayContinue {e : Phrase} {rest : List Token} (h : e.Ends false rest)
    {kind : Token.Kind} (hkind : ahead rest = some kind) : e.mayContinue kind = false :=
  (h kind hkind).resolve_right fun hclosed => nomatch hclosed.2

/-- Any phrase can end where the text does. -/
theorem Ends.nil (e : Phrase) (closed : Bool) : e.Ends closed [] := by
  intro kind hkind
  cases hkind

theorem Ends.of_cons {e : Phrase} {closed : Bool} {t : Token} {kind : Token.Kind}
    (ht : t.kind = kind) (hnot : e.mayContinue kind = false) (rest : List Token) :
    e.Ends closed (t :: rest) := by
  rintro _ ⟨⟩
  rw [ht]
  exact .inl hnot

/-- What is closed by itself ends anywhere. -/
theorem Ends.of_closed {n : Nonterminal} (hn : n.level = 4) (closed : Bool) (rest : List Token) :
    (ref n).Ends closed rest :=
  fun kind _ => .inl (Nonterminal.not_mayContinue_of_closed hn kind)

/-- Where operands of a level end, those of a higher one do. -/
theorem Ends.of_level {m n : Nonterminal} {closed : Bool} {rest : List Token}
    (h : (ref m).Ends closed rest) (hle : m.level ≤ n.level) : (ref n).Ends closed rest :=
  fun kind hkind => (h kind hkind).imp_left (Nonterminal.not_mayContinue_of_le hle)

/-- A token that goes on with a phrase does not stand where the phrase ends. -/
theorem Ends.ahead_ne {e : Phrase} {closed : Bool} {rest : List Token} {kind : Token.Kind}
    (h : e.Ends closed rest) (hmay : e.mayContinue kind = true)
    (hopen : kind = .symbol .leftParen → closed = false) : ahead rest ≠ some kind := by
  intro hkind
  rcases h kind hkind with hnot | ⟨hparen, hclosed⟩
  · rw [hmay] at hnot
    cases hnot
  · rw [hopen hparen] at hclosed
    cases hclosed

/-- Behind operands of a level there is no sign of it. -/
theorem Ends.not_starts_factors {closed : Bool} {rest : List Token}
    (h : (ref .factor).Ends closed rest) :
    ¬(seq (alt (sign .star) (sign .slash)) (ref .coerce)).Starts rest := by
  refine Phrase.not_starts fun kind hkind => ?_
  have hends := h kind hkind
  cases kind with
  | symbol s => cases s <;> first | rfl | (rcases hends with hnot | ⟨hparen, -⟩ <;> contradiction)
  | _ => rfl

/-- Behind a whole expression there is no sign of a sum either. -/
theorem Ends.not_starts_terms {closed : Bool} {rest : List Token}
    (h : (ref .expression).Ends closed rest) :
    ¬(seq (alt (sign .plus) (sign .minus)) (ref .factor)).Starts rest := by
  refine Phrase.not_starts fun kind hkind => ?_
  have hends := h kind hkind
  cases kind with
  | symbol s => cases s <;> first | rfl | (rcases hends with hnot | ⟨hparen, -⟩ <;> contradiction)
  | _ => rfl

end Phrase

open Phrase (Reads Ends)

/-- A tree that is the same up to places. -/
def Expr.Same (e e' : Expr) : Prop := e'.bare = e.bare

/-- Operands of a level, with one more behind them, are an operation on what they were before. -/
theorem Expr.Same.binary {op op' o : Operator} {left right first right' : Expr}
    {others : List ((Token ⊕ Token) × Expr)} {side : Token ⊕ Token}
    (hleft : left.Same (grouped op op' first others)) (hright : right.Same right')
    (hside : Operator.ofSide op op' side = o) :
    (Expr.binary o left right).Same (grouped op op' first (others ++ [(side, right')])) := by
  rw [Same, grouped_snoc, Expr.bare, Expr.bare, hside, hleft, hright]

namespace Phrase.Reads

variable {e : Expr} {closed : Bool} {ts : List Token}

theorem imp {a : Phrase} {good good' : a.Value → Prop} (h : Reads a good closed ts)
    (himp : ∀ v, good v → good' v) : Reads a good' closed ts := by
  obtain ⟨d, hyield, hgood, hd⟩ := h
  exact ⟨d, hyield, himp _ hgood, hd⟩

/-! ### Lower levels -/

/-- A primary expression is a call without arguments where no parenthesis follows. Behind it no text
is closed: a parenthesis would be read as arguments. -/
theorem call_of_primary (h : Reads (.ref .primary) e.Same closed ts) :
    Reads (.ref .call) e.Same false ts := by
  obtain ⟨d, rfl, hsame, hd⟩ := h
  refine ⟨.ref (n := .call) (.seq d .skip), by simp [Derivation.yield], hsame, fun rest hrest => ?_⟩
  have hskip : ¬Phrase.arguments.Starts rest :=
    mt Parser.starts_arguments_iff.1 (hrest.ahead_ne rfl fun _ => rfl)
  exact ⟨⟨hd _ (.of_closed rfl _ _), hskip⟩, trivial⟩

/-- A call is a coercion without a type. -/
theorem coerce_of_call (h : Reads (.ref .call) e.Same closed ts) :
    Reads (.ref .coerce) e.Same closed ts := by
  obtain ⟨d, rfl, hsame, hd⟩ := h
  refine ⟨.ref (n := .coerce) (.seq d .skip), by simp [Derivation.yield], hsame,
    fun rest hrest => ?_⟩
  have hskip : ¬Phrase.coercion.Starts rest :=
    mt Parser.starts_coercion_iff.1 (hrest.ahead_ne rfl (by simp))
  exact ⟨⟨hd rest (hrest.of_level (by decide)), hskip⟩, trivial⟩

/-- A coercion is a product of one. -/
theorem factor_of_coerce (h : Reads (.ref .coerce) e.Same closed ts) :
    Reads (.ref .factor) e.Same closed ts := by
  obtain ⟨d, rfl, hsame, hd⟩ := h
  refine ⟨.ref (n := .factor) (.seq d .done), by simp [Derivation.yield], hsame,
    fun rest hrest => ?_⟩
  exact ⟨⟨hd rest (hrest.of_level (by decide)), hrest.not_starts_factors⟩, trivial⟩

/-- A product is a sum of one. -/
theorem expression_of_factor (h : Reads (.ref .factor) e.Same closed ts) :
    Reads (.ref .expression) e.Same closed ts := by
  obtain ⟨d, rfl, hsame, hd⟩ := h
  refine ⟨.ref (n := .expression) (.ref (n := .term) (.seq d .done)), by simp [Derivation.yield],
    hsame, fun rest hrest => ?_⟩
  exact ⟨⟨⟨hd rest (hrest.of_level (by decide)), hrest.not_starts_terms⟩, trivial⟩, trivial⟩

/-- Between parentheses, any expression is a primary one. -/
theorem primary_of_expression {opening closing : Token}
    (h : Reads (.ref .expression) e.Same closed ts)
    (hopening : opening.kind = .symbol .leftParen) (hclosing : closing.kind = .symbol .rightParen) :
    Reads (.ref .primary) e.Same false (opening :: (ts ++ [closing])) := by
  obtain ⟨d, rfl, hsame, hd⟩ := h
  refine ⟨.ref (n := .primary) (.inr (.inr (.inl (.seq (.word opening opening (if_pos hopening))
    (.seq d (.word closing closing (if_pos hclosing))))))), rfl, hsame, fun rest _ => ?_⟩
  exact ⟨⟨trivial, hd _ (.of_cons hclosing rfl rest), trivial⟩, trivial⟩

/-! ### Operands -/

section Operands

variable {left right : Expr} {closed' : Bool} {ts' : List Token} {t : Token}

/-- A product and one more operand behind it are a product. -/
theorem factor_of_operands {op : Operator} (hop : op.level = 1) (ht : t.kind = .symbol op.sign)
    (hleft : Reads (.ref .factor) left.Same closed' ts)
    (hright : Reads (.ref .coerce) right.Same closed ts') :
    Reads (.ref .factor) (Expr.binary op left right).Same closed (ts ++ t :: ts') := by
  obtain ⟨side, hside, hvalue, hany⟩ : ∃ side : Derivation (.alt (.sign .star) (.sign .slash)),
      side.yield = [t] ∧ Operator.ofSide .mul .div side.value = op ∧ ∀ rest, side.Proper rest := by
    cases op with
    | mul => exact ⟨.inl (.word t t (if_pos ht)), rfl, rfl, fun _ => trivial⟩
    | div => exact ⟨.inr (.word t t (if_pos ht)), rfl, rfl, fun _ => trivial⟩
    | _ => cases hop
  obtain ⟨d, rfl, hsame, hd⟩ := hleft
  obtain ⟨d', rfl, hsame', hd'⟩ := hright
  cases d with
  | ref d =>
    change Derivation (.levelled .star .slash .coerce) at d
    cases d with
    | seq first others =>
      have hyield : (side.seq d').yield = t :: d'.yield := by
        rw [Derivation.yield, hside, List.singleton_append]
      refine ⟨.ref (n := .factor) (.seq first (others.snoc (side.seq d'))), ?_, ?_,
        fun rest hrest => ?_⟩
      · simp [Derivation.yield, Derivation.yield_snoc, hside]
      · change (Expr.binary op left right).Same
          (Expr.grouped .mul .div first.value (others.snoc (side.seq d')).value)
        rw [Derivation.value_snoc]
        exact Expr.Same.binary hsame hsame' hvalue
      · refine ⟨(hd [] (.nil _ _)).1.seq_snoc ⟨hany _, hd' rest (hrest.of_level (by decide))⟩
          hrest.not_starts_factors rfl fun kind hkind => ?_, trivial⟩
        rw [hyield] at hkind
        cases hkind
        rw [ht]
        cases op <;> rfl

/-- A sum and one more operand behind it are a sum. -/
theorem expression_of_operands {op : Operator} (hop : op.level = 0)
    (ht : t.kind = .symbol op.sign) (hleft : Reads (.ref .expression) left.Same closed' ts)
    (hright : Reads (.ref .factor) right.Same closed ts') :
    Reads (.ref .expression) (Expr.binary op left right).Same closed (ts ++ t :: ts') := by
  obtain ⟨side, hside, hvalue, hany⟩ : ∃ side : Derivation (.alt (.sign .plus) (.sign .minus)),
      side.yield = [t] ∧ Operator.ofSide .add .sub side.value = op ∧ ∀ rest, side.Proper rest := by
    cases op with
    | add => exact ⟨.inl (.word t t (if_pos ht)), rfl, rfl, fun _ => trivial⟩
    | sub => exact ⟨.inr (.word t t (if_pos ht)), rfl, rfl, fun _ => trivial⟩
    | _ => cases hop
  obtain ⟨d, rfl, hsame, hd⟩ := hleft
  obtain ⟨d', rfl, hsame', hd'⟩ := hright
  cases d with
  | ref d =>
    change Derivation (.ref .term) at d
    cases d with
    | ref d =>
      change Derivation (.levelled .plus .minus .factor) at d
      cases d with
      | seq first others =>
        have hyield : (side.seq d').yield = t :: d'.yield := by
          rw [Derivation.yield, hside, List.singleton_append]
        refine ⟨.ref (n := .expression) (.ref (n := .term)
          (.seq first (others.snoc (side.seq d')))), ?_, ?_, fun rest hrest => ?_⟩
        · simp [Derivation.yield, Derivation.yield_snoc, hside]
        · change (Expr.binary op left right).Same
            (Expr.grouped .add .sub first.value (others.snoc (side.seq d')).value)
          rw [Derivation.value_snoc]
          exact Expr.Same.binary hsame hsame' hvalue
        · refine ⟨⟨(hd [] (.nil _ _)).1.1.seq_snoc ⟨hany _, hd' rest (hrest.of_level (by decide))⟩
            hrest.not_starts_terms rfl fun kind hkind => ?_, trivial⟩, trivial⟩
          rw [hyield] at hkind
          cases hkind
          rw [ht]
          cases op <;> first | rfl | cases hop

end Operands

/-! ### Higher levels -/

theorem primary_of_name {id : Ident} {t : Token} (h : t.bare = named id.name) :
    Reads (.ref .primary) (Expr.name id).Same false [t] := by
  refine ⟨.ref (n := .primary) (.inl (.word t t (if_pos (kind_of_bare h)))), rfl, ?_,
    fun _ _ => ⟨trivial, trivial⟩⟩
  change (Expr.name t.ident).bare = (Expr.name id).bare
  rw [Expr.bare, Expr.bare, Ident.bare, Ident.bare, Token.ident, text_of_bare h]

/-- A literal is read from the one token that denotes it. -/
theorem primary_of_literal {l : Literal} (span : Span) {t : Token} (h : t.kind = l.kind) :
    Reads (.ref .primary) (Expr.literal l span).Same false [t] := by
  obtain ⟨d, hyield, hvalue, hany⟩ : ∃ d : Derivation Nonterminal.literal.rule,
      d.yield = [t] ∧ Nonterminal.literal.build d.value = .literal l t.span ∧
        ∀ rest, d.Proper rest := by
    cases l with
    | string text =>
      have hread : Terminal.string.read t = some (text, t) := by rw [Terminal.read, h, Literal.kind]
      exact ⟨.inl (.word t _ hread), rfl, rfl, fun _ => trivial⟩
    | number n =>
      have hread : Terminal.number.read t = some (n, t) := by rw [Terminal.read, h, Literal.kind]
      exact ⟨.inr (.inl (.word t _ hread)), rfl, rfl, fun _ => trivial⟩
    | type ty =>
      have hread : Terminal.typeName.read t = some (ty, t) := by rw [Terminal.read, h, Literal.kind]
      exact ⟨.inr (.inr (.word t _ hread)), rfl, rfl, fun _ => trivial⟩
  refine ⟨.ref (n := .primary) (.inr (.inr (.inr (.ref (n := .literal) d)))), hyield, ?_,
    fun rest _ => ⟨⟨hany rest, trivial⟩, trivial⟩⟩
  change Expr.bare (Nonterminal.literal.build d.value) = _
  rw [hvalue, Expr.bare, Expr.bare]

theorem primary_of_block {b : Block}
    (h : Reads (.ref .block) (fun b' => Block.bare b' = b.bare) closed ts) :
    Reads (.ref .primary) (Expr.block b).Same false ts := by
  obtain ⟨d, rfl, hsame, hd⟩ := h
  refine ⟨.ref (n := .primary) (.inr (.inl d)), rfl, ?_,
    fun rest _ => ⟨hd rest (.of_closed rfl _ _), trivial⟩⟩
  change (Expr.block d.value).bare = (Expr.block b).bare
  rw [Expr.bare, Expr.bare, hsame]

/-- A primary expression with arguments behind it is a call, and a closed one. -/
theorem call_of_arguments {args : List Expr} {paren close : Span} {opening closing : Token}
    {ts' : List Token} (hcallee : Reads (.ref .primary) e.Same closed ts)
    (hopening : opening.kind = .symbol .leftParen)
    (hargs : Reads (.many .argument)
      (fun vs => Expr.bareAll (vs.map Prod.fst) = Expr.bareAll args) false ts')
    (hclosing : closing.kind = .symbol .rightParen) :
    Reads (.ref .call) (Expr.call e args paren close).Same true
      (ts ++ opening :: (ts' ++ [closing])) := by
  obtain ⟨d, rfl, hsame, hd⟩ := hcallee
  obtain ⟨ds, rfl, hsame', hds⟩ := hargs
  refine ⟨.ref (n := .call) (.seq d (.take (.seq (.word opening opening (if_pos hopening))
    (.seq ds (.word closing closing (if_pos hclosing)))))), rfl, ?_, fun rest _ => ?_⟩
  · change (Expr.call d.value (ds.value.map Prod.fst) opening.span closing.span).bare = _
    rw [Expr.bare, Expr.bare, hsame, hsame']
  · exact ⟨⟨hd _ (.of_closed rfl _ _), trivial, hds _ (.of_cons hclosing rfl rest), trivial⟩,
      trivial⟩

/-- A literal stays one when places are forgotten. -/
theorem admits_of_same {type type' : Expr} (h : type.Same type')
    (hadmits : Nonterminal.typeExpr.Admits type) : Nonterminal.typeExpr.Admits type' := by
  rintro l span rfl
  cases type with
  | literal l' span' =>
    obtain ⟨t, rfl⟩ := hadmits l' span' rfl
    rw [Expr.Same, Expr.bare, Expr.bare] at h
    exact ⟨t, (Expr.literal.inj h).1⟩
  | _ => rw [Expr.Same, Expr.bare, Expr.bare] at h; cases h

/-- In the place of a type, any primary expression but a literal of another kind is read. -/
theorem typeExpr_of_primary (h : Reads (.ref .primary) e.Same closed ts)
    (hadmits : Nonterminal.typeExpr.Admits e) : Reads (.ref .typeExpr) e.Same true ts := by
  obtain ⟨d, rfl, hsame, hd⟩ := h
  exact ⟨.ref (n := .typeExpr) d, rfl, hsame,
    fun rest _ => ⟨hd rest (.of_closed rfl _ _), admits_of_same hsame hadmits⟩⟩

/-- A call with a type behind it is a coercion, and a closed one. -/
theorem coerce_of_type {type : Expr} {keyword : Token} {ts' : List Token}
    (hvalue : Reads (.ref .call) e.Same closed ts) (hkeyword : keyword.kind = .as)
    (htype : Reads (.ref .typeExpr) type.Same true ts') :
    Reads (.ref .coerce) (Expr.coerce e type).Same true (ts ++ keyword :: ts') := by
  obtain ⟨d, rfl, hsame, hd⟩ := hvalue
  obtain ⟨d', rfl, hsame', hd'⟩ := htype
  refine ⟨.ref (n := .coerce) (.seq d (.take (.seq (.word keyword keyword (if_pos hkeyword)) d'))),
    rfl, ?_, fun rest _ => ?_⟩
  · change (Expr.coerce d.value d'.value).bare = _
    rw [Expr.bare, Expr.bare, hsame, hsame']
  · exact ⟨⟨hd _ (.of_cons hkeyword rfl _), trivial, hd' rest (.of_closed rfl _ _)⟩, trivial⟩

/-! ### Repetitions -/

section Repetitions

variable {a : Phrase} {good : a.Value → Prop} {goods : List a.Value → Prop} {ts' : List Token}

/-- No part at all is read where none starts. -/
theorem many_nil : Reads (.many a) (· = []) false [] := by
  refine ⟨.done, rfl, rfl, fun rest hrest => Phrase.not_starts fun kind hkind => ?_⟩
  exact (Bool.or_eq_false_iff.1 (hrest.not_mayContinue hkind)).1

/-- A part is read in front of others if a parenthesis with which they start does not go on with
it. -/
theorem many_cons (ha : a ∈ Phrase.repeated) (hd : Reads a good closed ts)
    (hds : Reads (.many a) goods false ts')
    (hopen : ahead ts' = some (.symbol .leftParen) → closed = true) :
    Reads (.many a) (fun vs => ∃ v vs', vs = v :: vs' ∧ good v ∧ goods vs') false (ts ++ ts') := by
  obtain ⟨d, rfl, hgood, hd⟩ := hd
  obtain ⟨ds, rfl, hgoods, hds⟩ := hds
  refine ⟨.more d ds, rfl, ⟨_, _, rfl, hgood, hgoods⟩, fun rest hrest => ⟨hd _ ?_, hds rest hrest⟩⟩
  intro kind hkind
  cases hyield : ds.yield with
  | nil =>
    -- No part follows, so the next token is the one behind the repetition.
    rw [hyield] at hkind
    exact .inl (Bool.or_eq_false_iff.1 (hrest.not_mayContinue hkind)).2
  | cons t _ =>
    rw [hyield] at hkind
    cases hkind
    have hkind := Phrase.mayContinue_of_mayStart ha (ds.mayStart hyield)
    refine hkind.imp_right fun hparen => ⟨hparen, hopen ?_⟩
    rw [hyield, ← hparen]
    rfl

end Repetitions

/-- An argument with its comma ends anywhere. -/
theorem argument_of_comma {comma : Token} (h : Reads (.ref .expression) e.Same closed ts)
    (hcomma : comma.kind = .symbol .comma) :
    Reads .argument (fun v => e.Same v.1) true (ts ++ [comma]) := by
  obtain ⟨d, rfl, hsame, hd⟩ := h
  refine ⟨.seq d (.take (.word comma comma (if_pos hcomma))), rfl, hsame,
    fun rest _ => ⟨hd _ (.of_cons hcomma rfl rest), trivial⟩⟩

/-- The last argument has no comma, and ends where the list does. -/
theorem argument_of_last (h : Reads (.ref .expression) e.Same closed ts) :
    Reads .argument (fun v => e.Same v.1) false ts := by
  obtain ⟨d, rfl, hsame, hd⟩ := h
  refine ⟨.seq d .skip, by simp [Derivation.yield], hsame, fun rest hrest => ?_⟩
  refine ⟨hd rest fun kind hkind => .inl ?_, Phrase.not_starts fun kind hkind => ?_⟩
  · exact (Bool.or_eq_false_iff.1 (hrest.not_mayContinue hkind)).2
  · have hcomma := (Bool.or_eq_false_iff.1 (hrest.not_mayContinue hkind)).1
    exact (Bool.or_eq_false_iff.1 hcomma).1

/-- A constant is read from its keyword, its name, the sign and its value. -/
theorem binding_of_value {name : Ident} {keyword id equals : Token}
    (hkeyword : keyword.kind = .const) (hid : id.bare = named name.name)
    (hequals : equals.kind = .symbol .equals)
    (h : Reads (.ref .expression) e.Same closed ts) :
    Reads .binding (fun v => (Token.ident v.2.1).bare = name.bare ∧ e.Same v.2.2.2) closed
      (keyword :: id :: equals :: ts) := by
  obtain ⟨d, rfl, hsame, hd⟩ := h
  refine ⟨.seq (.word keyword keyword (if_pos hkeyword))
    (.seq (.word id id (if_pos (kind_of_bare hid)))
      (.seq (.word equals equals (if_pos hequals)) d)), rfl, ⟨?_, hsame⟩, fun rest hrest => ?_⟩
  · change (Token.ident id).bare = name.bare
    rw [Ident.bare, Ident.bare, Token.ident, text_of_bare hid]
  · refine ⟨trivial, trivial, trivial, hd rest fun kind hkind => (hrest kind hkind).imp_left ?_⟩
    exact fun hnot => (Phrase.mayContinue_binding kind).symm.trans hnot

/-- An expression is a statement. -/
theorem statement_of_expression (h : Reads (.ref .expression) e.Same closed ts) :
    Reads (.ref .statement) (fun s => Statement.bare s = (Statement.expr e).bare) closed ts := by
  obtain ⟨d, rfl, hsame, hd⟩ := h
  refine ⟨.ref (n := .statement) (.inr d), rfl, ?_, fun rest hrest => ⟨?_, trivial⟩⟩
  · change (Statement.expr d.value).bare = _
    rw [Statement.bare, Statement.bare, hsame]
  · exact hd rest (hrest.of_level (by decide))

/-- So is a constant. -/
theorem statement_of_binding {span : Span} {name : Ident}
    (h : Reads .binding (fun v => (Token.ident v.2.1).bare = name.bare ∧ e.Same v.2.2.2) closed
      ts) :
    Reads (.ref .statement) (fun s => Statement.bare s = (Statement.const span name e).bare) closed
      ts := by
  obtain ⟨d, rfl, ⟨hname, hvalue⟩, hd⟩ := h
  refine ⟨.ref (n := .statement) (.inl d), rfl, ?_, fun rest hrest => ⟨hd rest ?_, trivial⟩⟩
  · change (Statement.const _ (Token.ident d.value.2.1) d.value.2.2.2).bare = _
    rw [Statement.bare, Statement.bare, hname, hvalue]
  · exact fun kind hkind => (hrest kind hkind).imp_left fun hnot => by
      rwa [Phrase.mayContinue_binding]

/-- Statements between braces are a block. -/
theorem block_of_statements {statements : List Statement} {span : Span} {opening closing : Token}
    (h : Reads (.many (.ref .statement))
      (fun ss => Statement.bareAll ss = Statement.bareAll statements) false ts)
    (hopening : opening.kind = .symbol .leftBrace) (hclosing : closing.kind = .symbol .rightBrace) :
    Reads (.ref .block) (fun b => Block.bare b = (Block.mk statements span).bare) false
      (opening :: (ts ++ [closing])) := by
  obtain ⟨d, rfl, hsame, hd⟩ := h
  refine ⟨.ref (n := .block) (.seq (.word opening opening (if_pos hopening))
    (.seq d (.word closing closing (if_pos hclosing)))), rfl, ?_, fun rest _ => ?_⟩
  · change (Block.mk d.value _).bare = _
    rw [Block.bare, Block.bare, hsame]
  · exact ⟨⟨trivial, hd _ (.of_cons hclosing rfl rest), trivial⟩, trivial⟩

end Phrase.Reads

/-! ## Expressions in their places -/

/-- Tokens that are read as an expression, in every place that asks for no higher level. -/
structure Expr.Written (e : Expr) (ts : List Token) : Prop where
  expression : Reads (.ref .expression) e.Same e.closed ts
  factor : 1 ≤ e.level → Reads (.ref .factor) e.Same e.closed ts
  coerce : 2 ≤ e.level → Reads (.ref .coerce) e.Same e.closed ts
  call : 3 ≤ e.level → Reads (.ref .call) e.Same e.closed ts
  primary : 4 ≤ e.level → Reads (.ref .primary) e.Same e.closed ts

namespace Expr.Written

variable {e : Expr} {ts : List Token}

/-- A sum is written in the places of sums alone, and for the higher levels likewise. -/
theorem of_expression (hlevel : e.level = 0) (h : Reads (.ref .expression) e.Same e.closed ts) :
    e.Written ts where
  expression := h
  factor := by omega
  coerce := by omega
  call := by omega
  primary := by omega

theorem of_factor (hlevel : e.level = 1) (h : Reads (.ref .factor) e.Same e.closed ts) :
    e.Written ts where
  expression := h.expression_of_factor
  factor _ := h
  coerce := by omega
  call := by omega
  primary := by omega

theorem of_coerce (hlevel : e.level = 2) (h : Reads (.ref .coerce) e.Same e.closed ts) :
    e.Written ts where
  expression := h.factor_of_coerce.expression_of_factor
  factor _ := h.factor_of_coerce
  coerce _ := h
  call := by omega
  primary := by omega

theorem of_call (hlevel : e.level = 3) (h : Reads (.ref .call) e.Same e.closed ts) :
    e.Written ts where
  expression := h.coerce_of_call.factor_of_coerce.expression_of_factor
  factor _ := h.coerce_of_call.factor_of_coerce
  coerce _ := h.coerce_of_call
  call _ := h
  primary := by omega

/-- A primary expression is written in every place. -/
theorem of_primary (hclosed : e.closed = false) (h : Reads (.ref .primary) e.Same false ts) :
    e.Written ts := by
  have hcall := h.call_of_primary
  rw [← hclosed] at h hcall
  exact {
    expression := hcall.coerce_of_call.factor_of_coerce.expression_of_factor
    factor _ := hcall.coerce_of_call.factor_of_coerce
    coerce _ := hcall.coerce_of_call
    call _ := hcall
    primary _ := h }

/-- In a place, an expression is read as it is or between parentheses. -/
theorem guarded {Q : Bool → List Token → Prop} {place : Nat}
    (hwritten : ∀ ts, Spells ts e.print → e.Written ts)
    (hts : Spells ts (Expr.guarded place e.level e.print))
    (hbare : ∀ ts, place ≤ e.level → e.Written ts → Q e.closed ts)
    (hparen : ∀ ts, Reads (.ref .primary) e.Same false ts → Q false ts) :
    Q (decide (place ≤ e.level) && e.closed) ts := by
  unfold Expr.guarded at hts
  split at hts
  next hlt =>
    obtain ⟨opening, inner, closing, rfl, hopening, hinner, hclosing⟩ := hts.enclosed
    rw [decide_eq_false (Nat.not_le_of_lt hlt), Bool.false_and]
    exact hparen _ ((hwritten inner hinner).expression.primary_of_expression hopening hclosing)
  next hle =>
    have hplace := Nat.le_of_not_lt hle
    rw [decide_eq_true hplace, Bool.true_and]
    exact hbare ts hplace (hwritten ts hts)

section Places

variable (hwritten : ∀ ts, Spells ts e.print → e.Written ts)

include hwritten

/-- The operand of a product, in parentheses if it is a sum. -/
theorem factor_guarded (hts : Spells ts (Expr.guarded 1 e.level e.print)) :
    Reads (.ref .factor) e.Same (decide (1 ≤ e.level) && e.closed) ts :=
  guarded (Q := Reads (.ref .factor) e.Same) hwritten hts (fun _ hle h => h.factor hle)
    fun _ h => h.call_of_primary.coerce_of_call.factor_of_coerce

/-- The right operand of a product, in parentheses if it is a product itself. -/
theorem coerce_guarded (hts : Spells ts (Expr.guarded 2 e.level e.print)) :
    Reads (.ref .coerce) e.Same (decide (2 ≤ e.level) && e.closed) ts :=
  guarded (Q := Reads (.ref .coerce) e.Same) hwritten hts (fun _ hle h => h.coerce hle)
    fun _ h => h.call_of_primary.coerce_of_call

/-- The value of a coercion, in parentheses if it is no call. -/
theorem call_guarded (hts : Spells ts (Expr.guarded 3 e.level e.print)) :
    Reads (.ref .call) e.Same (decide (3 ≤ e.level) && e.closed) ts :=
  guarded (Q := Reads (.ref .call) e.Same) hwritten hts (fun _ hle h => h.call hle)
    fun _ h => h.call_of_primary

/-- A callee or a type, in parentheses if it is no primary expression. -/
theorem primary_guarded (hts : Spells ts (Expr.guarded 4 e.level e.print)) :
    Reads (.ref .primary) e.Same (decide (4 ≤ e.level) && e.closed) ts :=
  guarded (Q := Reads (.ref .primary) e.Same) hwritten hts (fun _ hle h => h.primary hle)
    fun _ h => h

end Places

/-- An operation is written if its operands are. -/
theorem binary {op : Operator} {left right : Expr}
    (hleft : ∀ ts, Spells ts left.print → left.Written ts)
    (hright : ∀ ts, Spells ts right.print → right.Written ts)
    (hts : Spells ts (Expr.binary op left right).print) :
    (Expr.binary op left right).Written ts := by
  rw [Expr.print] at hts
  obtain ⟨front, back, rfl, hfront, hback⟩ := hts.append
  obtain ⟨t, back, rfl, ht, hback⟩ := hback.cons
  -- The left operand may be of the level of the operator, the right one is of a higher level.
  have hlevel : op.level = 0 ∨ op.level = 1 := by cases op <;> decide
  rcases hlevel with hop | hop
  · rw [hop] at hfront hback
    refine of_expression hop ?_
    rw [Expr.closed, hop]
    exact (hleft front hfront).expression.expression_of_operands hop (kind_of_bare ht)
      (factor_guarded hright hback)
  · rw [hop] at hfront hback
    refine of_factor hop ?_
    rw [Expr.closed, hop]
    exact (factor_guarded hleft hfront).factor_of_operands hop (kind_of_bare ht)
      (coerce_guarded hright hback)

end Expr.Written

/-! ## Parenthesis in front -/

/-- A printable expression is printed as one token at least. -/
theorem Expr.print_ne_nil {e : Expr} (h : e.Printable) : e.print ≠ [] := by
  cases e with
  | function f => exact h.elim
  | block b => cases b; simp [Expr.print, Block.print]
  | _ => simp [Expr.print]

theorem Expr.guarded_ne_nil {e : Expr} (h : e.Printable) (place : Nat) :
    guarded place e.level e.print ≠ [] := by
  unfold guarded
  split
  · exact List.cons_ne_nil _ _
  · exact print_ne_nil h

theorem Expr.printAt_of_le {e : Expr} {place : Nat} (h : place ≤ e.level) :
    e.printAt place = e.print :=
  if_neg (Nat.not_lt_of_le h)

/-- The left operand comes first. -/
theorem Expr.ahead_guarded_append {e : Expr} (h : e.Printable) (place : Nat) (ts : List Token) :
    ahead (guarded place e.level e.print ++ ts) = ahead (guarded place e.level e.print) :=
  Token.ahead_append_of_ne_nil (guarded_ne_nil h place) ts

/-- Only what opens with a parenthesis is printed with one in front. -/
theorem Expr.opens_of_ahead : (e : Expr) → e.Printable → {place : Nat} → place ≤ 4 →
    ahead (e.printAt place) = some (.symbol .leftParen) → e.opens place = true
  | .literal l _, _, place, hplace, h => by
    rw [printAt_of_le, Expr.print] at h
    · cases l <;> cases h
    · exact hplace
  | .function f, hprintable, _, _, _ => hprintable.elim
  | .name id, _, place, hplace, h => by
    rw [printAt_of_le, Expr.print] at h
    · cases h
    · exact hplace
  | .binary op left right, ⟨hleft, _⟩, place, _, h => by
    rw [opens, Bool.or_eq_true, decide_eq_true_eq]
    refine (Nat.lt_or_ge op.level place).imp_right fun hle => left.opens_of_ahead hleft ?_ ?_
    · cases op <;> decide
    · rwa [printAt_of_le hle, Expr.print, ahead_guarded_append hleft] at h
  | .coerce value type, ⟨hvalue, _, _⟩, place, _, h => by
    rw [opens, Bool.or_eq_true, decide_eq_true_eq]
    refine (Nat.lt_or_ge 2 place).imp_right fun hle => value.opens_of_ahead hvalue (by decide) ?_
    rwa [printAt_of_le hle, Expr.print, ahead_guarded_append hvalue] at h
  | .call callee args _ _, ⟨hcallee, _⟩, place, _, h => by
    rw [opens, Bool.or_eq_true, decide_eq_true_eq]
    refine (Nat.lt_or_ge 3 place).imp_right fun hle => callee.opens_of_ahead hcallee (by decide) ?_
    rwa [printAt_of_le hle, Expr.print, ahead_guarded_append hcallee] at h
  | .block ⟨_, _⟩, _, place, hplace, h => by
    rw [printAt_of_le, Expr.print, Block.print] at h
    · cases h
    · exact hplace

theorem Statement.opens_of_ahead {s : Statement} (hs : s.Printable)
    (h : ahead s.print = some (.symbol .leftParen)) : s.opens = true := by
  cases s with
  | expr e =>
    rw [Statement.print] at h
    exact e.opens_of_ahead hs (Nat.zero_le 4) h
  | const span name value => rw [Statement.print] at h; cases h

theorem Statement.print_ne_nil {s : Statement} (hs : s.Printable) : s.print ≠ [] := by
  cases s with
  | expr e => rw [Statement.print]; exact Expr.print_ne_nil hs
  | const span name value => simp [Statement.print]

/-- Where a parenthesis follows a statement, the statement is closed. -/
theorem Statement.closed_of_ahead {s : Statement} {ss : List Statement}
    (happart : (s :: ss).IsChain Apart) (hss : AllPrintable ss)
    (h : ahead (printAll ss) = some (.symbol .leftParen)) : s.closed = true := by
  cases ss with
  | nil => cases h
  | cons s' ss =>
    rw [printAll, Token.ahead_append_of_ne_nil (print_ne_nil hss.1)] at h
    exact (List.isChain_cons_cons.1 happart).1 (opens_of_ahead hss.1 h)

/-! ## Printed trees are read -/

mutual

/-- **What is printed is read**: a printable expression is written by its own tokens. -/
theorem Expr.written : (e : Expr) → e.Printable → {ts : List Token} → Spells ts e.print →
    e.Written ts
  | .literal l span, _, ts, hts => by
    rw [Expr.print] at hts
    obtain ⟨t, rest, rfl, ht, hrest⟩ := hts.cons
    obtain rfl := hrest.nil
    exact .of_primary rfl (.primary_of_literal span (kind_of_bare ht))
  | .function f, h, ts, hts => h.elim
  | .name id, _, ts, hts => by
    rw [Expr.print] at hts
    obtain ⟨t, rest, rfl, ht, hrest⟩ := hts.cons
    obtain rfl := hrest.nil
    exact .of_primary rfl (.primary_of_name ht)
  | .binary op left right, ⟨hleft, hright⟩, ts, hts =>
    .binary (fun _ => left.written hleft) (fun _ => right.written hright) hts
  | .coerce value type, ⟨hvalue, htype, hadmits⟩, ts, hts => by
    rw [Expr.print] at hts
    obtain ⟨front, back, rfl, hfront, hback⟩ := hts.append
    obtain ⟨keyword, back, rfl, hkeyword, hback⟩ := hback.cons
    have hcall := Expr.Written.call_guarded (fun _ => value.written hvalue) hfront
    have hprimary := Expr.Written.primary_guarded (fun _ => type.written htype) hback
    exact .of_coerce rfl
      (hcall.coerce_of_type (kind_of_bare hkeyword) (hprimary.typeExpr_of_primary hadmits))
  | .call callee args paren close, ⟨hcallee, hargs⟩, ts, hts => by
    rw [Expr.print] at hts
    obtain ⟨front, back, rfl, hfront, hback⟩ := hts.append
    obtain ⟨opening, inner, closing, rfl, hopening, hinner, hclosing⟩ := hback.enclosed
    have hprimary := Expr.Written.primary_guarded (fun _ => callee.written hcallee) hfront
    exact .of_call rfl
      (hprimary.call_of_arguments hopening (Expr.reads_args args hargs hinner) hclosing)
  | .block b, h, ts, hts => by
    rw [Expr.print] at hts
    exact .of_primary rfl (b.reads h hts).primary_of_block

/-- Arguments with commas between them are read as these arguments. -/
theorem Expr.reads_args : (es : List Expr) → Expr.AllPrintable es → {ts : List Token} →
    Spells ts (Expr.printArgs es) →
    Reads (.many .argument) (fun vs => Expr.bareAll (vs.map Prod.fst) = Expr.bareAll es) false ts
  | [], _, ts, hts => by
    rw [hts.nil]
    exact Reads.many_nil.imp fun vs hvs => by rw [hvs]; rfl
  | [e], ⟨he, _⟩, ts, hts => by
    have hlast := (e.written he hts).expression.argument_of_last
    rw [← List.append_nil ts]
    refine (Reads.many_cons (by simp [Phrase.repeated]) hlast .many_nil nofun).imp ?_
    rintro _ ⟨v, _, rfl, hv, rfl⟩
    change [Expr.bare v.1] = [e.bare]
    rw [hv]
  | e :: e' :: es, ⟨he, hes⟩, ts, hts => by
    obtain ⟨front, back, rfl, hfront, hback⟩ := hts.append
    obtain ⟨comma, back, rfl, hcomma, hback⟩ := hback.cons
    have hfirst := (e.written he hfront).expression.argument_of_comma (kind_of_bare hcomma)
    rw [List.append_cons]
    have hothers := Expr.reads_args (e' :: es) hes hback
    refine (Reads.many_cons (by simp [Phrase.repeated]) hfirst hothers fun _ => rfl).imp ?_
    rintro _ ⟨v, vs, rfl, hv, hvs⟩
    change Expr.bare v.1 :: Expr.bareAll (vs.map Prod.fst) = e.bare :: Expr.bareAll (e' :: es)
    rw [hv, hvs]

/-- A printed block is read as that block. -/
theorem Block.reads : (b : Block) → b.Printable → {ts : List Token} → Spells ts b.print →
    Reads (.ref .block) (fun b' => Block.bare b' = b.bare) false ts
  | ⟨statements, span⟩, ⟨hstatements, happart⟩, ts, hts => by
    rw [Block.print] at hts
    obtain ⟨opening, back, rfl, hopening, hback⟩ := hts.cons
    obtain ⟨inner, back, rfl, hinner, hback⟩ := hback.append
    obtain ⟨closing, back, rfl, hclosing, hback⟩ := hback.cons
    obtain rfl := hback.nil
    exact (Statement.reads_all statements hstatements happart hinner).block_of_statements
      (kind_of_bare hopening) (kind_of_bare hclosing)

/-- Statements that stay apart are read one by one, though nothing separates them. -/
theorem Statement.reads_all : (ss : List Statement) → Statement.AllPrintable ss →
    ss.IsChain Statement.Apart → {ts : List Token} → Spells ts (Statement.printAll ss) →
    Reads (.many (.ref .statement)) (fun ss' => Statement.bareAll ss' = Statement.bareAll ss) false
      ts
  | [], _, _, ts, hts => by
    rw [hts.nil]
    exact Reads.many_nil.imp fun vs hvs => by rw [hvs]
  | s :: ss, ⟨hs, hss⟩, happart, ts, hts => by
    obtain ⟨front, back, rfl, hfront, hback⟩ := hts.append
    refine (Reads.many_cons (by simp [Phrase.repeated]) (s.reads hs hfront)
      (Statement.reads_all ss hss happart.of_cons hback) fun hparen => ?_).imp ?_
    · -- The parenthesis is the first token of the next statement, which stays apart from this one.
      rw [hback.ahead_eq] at hparen
      exact Statement.closed_of_ahead happart hss hparen
    · rintro _ ⟨v, vs, rfl, hv, hvs⟩
      rw [Statement.bareAll, hv, hvs, Statement.bareAll]

/-- A printed statement is read as that statement. -/
theorem Statement.reads : (s : Statement) → s.Printable → {ts : List Token} → Spells ts s.print →
    Reads (.ref .statement) (fun s' => Statement.bare s' = s.bare) s.closed ts
  | .expr e, h, ts, hts => (e.written h hts).expression.statement_of_expression
  | .const span name value, h, ts, hts => by
    obtain ⟨keyword, back, rfl, hkeyword, hback⟩ := hts.cons
    obtain ⟨id, back, rfl, hid, hback⟩ := hback.cons
    obtain ⟨equals, back, rfl, hequals, hback⟩ := hback.cons
    have hvalue := (value.written h hback).expression
    exact (hvalue.binding_of_value (kind_of_bare hkeyword) hid
      (kind_of_bare hequals)).statement_of_binding

end

end ExprLang
