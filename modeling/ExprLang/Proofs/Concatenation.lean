import ExprLang.Proofs.Consumption
import ExprLang.Proofs.Incomplete
import ExprLang.Proofs.Joining

/-!
# Programs one behind the other

A program with another behind it, on a new line, is a program: it has the items of the first and
those of the second, shifted (`Item.ofText_append_newline`). A derivation of shifted tokens is the
shifted derivation (`Derivation.shift`), since the rules ask for kinds of tokens only. And the items
of a program go on with no token that starts an item, an opening parenthesis apart
(`Derivation.Proper.append`).
-/

namespace ExprLang

open Token (ahead lexemes)

/-! ## Shifted trees -/

/-- A token that is read further behind. -/
def Token.shift (k : Nat) (t : Token) : Token := ⟨t.kind, t.span.shift k, t.text⟩

/-- A name that is read further behind. -/
def Ident.shift (k : Nat) (id : Ident) : Ident := ⟨id.name, id.span.shift k⟩

mutual

/-- An expression that is read further behind. Only its places change. -/
def Expr.shift (k : Nat) : Expr → Expr
  | .literal l span => .literal l (span.shift k)
  | .function f => .function (f.shift k)
  | .name id => .name (id.shift k)
  | .binary op left right => .binary op (left.shift k) (right.shift k)
  | .coerce value type => .coerce (value.shift k) (type.shift k)
  | .call callee args paren close =>
    .call (callee.shift k) (Expr.shiftAll k args) (paren.shift k) (close.shift k)
  | .block b => .block (b.shift k)

def Expr.shiftAll (k : Nat) : List Expr → List Expr
  | [] => []
  | e :: es => e.shift k :: Expr.shiftAll k es

/-- A function is of the same text still, and its parts move. -/
def Lambda.shift (k : Nat) : Lambda → Lambda
  | ⟨unit, ret, params, body⟩ => ⟨unit, ret.shift k, Param.shiftAll k params, body.shift k⟩

def Param.shiftAll (k : Nat) : List Param → List Param
  | [] => []
  | p :: ps => p.shift k :: Param.shiftAll k ps

def Param.shift (k : Nat) : Param → Param
  | ⟨name, type⟩ => ⟨name.shift k, type.shift k⟩

def Block.shift (k : Nat) : Block → Block
  | ⟨statements, span⟩ => ⟨Statement.shiftAll k statements, span.shift k⟩

def Statement.shiftAll (k : Nat) : List Statement → List Statement
  | [] => []
  | s :: ss => s.shift k :: Statement.shiftAll k ss

def Statement.shift (k : Nat) : Statement → Statement
  | .expr e => .expr (e.shift k)
  | .const keyword name value => .const (keyword.shift k) (name.shift k) (value.shift k)

end

/-- An item that is read further behind. -/
def Item.shift (k : Nat) (i : Item) : Item := ⟨i.name.shift k, i.value.shift k⟩

theorem Expr.shiftAll_eq_map (k : Nat) (es : List Expr) : shiftAll k es = es.map (shift k) := by
  induction es with
  | nil => simp [shiftAll]
  | cons e es ih => simp [shiftAll, ih]

theorem Param.shiftAll_eq_map (k : Nat) (ps : List Param) : shiftAll k ps = ps.map (shift k) := by
  induction ps with
  | nil => simp [shiftAll]
  | cons p ps ih => simp [shiftAll, ih]

theorem Statement.shiftAll_eq_map (k : Nat) (ss : List Statement) :
    shiftAll k ss = ss.map (shift k) := by
  induction ss with
  | nil => simp [shiftAll]
  | cons s ss ih => simp [shiftAll, ih]

/-! ## Shifted derivations -/

/-- What a terminal gives for a shifted token. -/
def Terminal.shift (k : Nat) : (w : Terminal) → w.Value → w.Value
  | exactly _, t => Token.shift k t
  | string, (text, t) => (text, t.shift k)
  | number, (n, t) => (n, t.shift k)
  | typeName, (ty, t) => (ty, t.shift k)

/-- The tree of a nonterminal, shifted. That of an item is shifted for every text. -/
def Nonterminal.shift (k : Nat) : (n : Nonterminal) → n.Tree → n.Tree
  | item, f => fun unit => Item.shift k (f unit)
  | function, f => fun unit => Item.shift k (f unit)
  | statement, s => Statement.shift k s
  | block, b => Block.shift k b
  | expression, e => Expr.shift k e
  | term, e => Expr.shift k e
  | factor, e => Expr.shift k e
  | coerce, e => Expr.shift k e
  | call, e => Expr.shift k e
  | primary, e => Expr.shift k e
  | literal, e => Expr.shift k e
  | typeExpr, e => Expr.shift k e

/-- What a phrase stands for, shifted part by part. -/
def Phrase.shift (k : Nat) : (e : Phrase) → e.Value → e.Value
  | word w, v => w.shift k v
  | ref n, v => n.shift k v
  | seq a b, v => (a.shift k v.1, b.shift k v.2)
  | alt a b, v => Sum.map (a.shift k) (b.shift k) v
  | opt a, v => Option.map (a.shift k) v
  | many a, vs => List.map (a.shift k) vs

theorem Terminal.read_shift {w : Terminal} {t : Token} {v : w.Value} (k : Nat)
    (h : w.read t = some v) : w.read (t.shift k) = some (w.shift k v) := by
  cases w with
  | exactly kind =>
    by_cases hkind : t.kind = kind
    · rw [read, if_pos hkind] at h
      cases h
      exact if_pos hkind
    · rw [read, if_neg hkind] at h
      cases h
  | _ =>
    obtain ⟨kind, span, text⟩ := t
    cases kind <;> cases h
    rfl

/-- Shifted operands are grouped as the operands are. -/
theorem Expr.grouped_shift (k : Nat) (op op' : Operator) (first : Expr)
    (others : List ((Token ⊕ Token) × Expr)) :
    grouped op op' (first.shift k)
        (others.map fun part => (Sum.map (Token.shift k) (Token.shift k) part.1, part.2.shift k)) =
      (grouped op op' first others).shift k := by
  induction others generalizing first with
  | nil => rfl
  | cons part others ih =>
    obtain ⟨side, e⟩ := part
    have hbinary : (Expr.binary (.ofSide op op' side) first e).shift k =
        .binary (.ofSide op op' (Sum.map (Token.shift k) (Token.shift k) side)) (first.shift k)
          (e.shift k) := by
      rw [shift]
      cases side <;> rfl
    have hrest := ih (.binary (.ofSide op op' side) first e)
    rw [hbinary] at hrest
    exact hrest

/-- The tree of shifted parts is the shifted tree. -/
theorem Nonterminal.build_shift (k : Nat) : (n : Nonterminal) → (v : n.rule.Value) →
    n.build (n.rule.shift k v) = n.shift k (n.build v)
  | item, .inl (_, _, _, _) => rfl
  | item, .inr _ => rfl
  | function, (ret, name, opening, params, closing, body) => by
    funext unit
    change Item.mk (Ident.shift k (Token.ident name)) (.function ⟨unit, ret.shift k,
        ((params.map (Phrase.param.shift k)).map fun p => ⟨Token.ident p.1, p.2.2.1⟩),
        body.shift k⟩) =
      Item.mk (Ident.shift k (Token.ident name)) (Expr.shift k (.function ⟨unit, ret,
        (params.map fun p => ⟨Token.ident p.1, p.2.2.1⟩), body⟩))
    rw [Expr.shift, Lambda.shift, Param.shiftAll_eq_map, List.map_map, List.map_map]
    rfl
  | statement, .inl (_, _, _, _) => rfl
  | statement, .inr _ => rfl
  | expression, _ => rfl
  | term, (first, others) => Expr.grouped_shift k .add .sub first others
  | factor, (first, others) => Expr.grouped_shift k .mul .div first others
  | coerce, (_, none) => rfl
  | coerce, (_, some (_, _)) => rfl
  | call, (_, none) => rfl
  | call, (callee, some (opening, args, closing)) => by
    change Expr.call (callee.shift k) ((args.map (Phrase.argument.shift k)).map fun arg => arg.1)
        ((Token.span opening).shift k) ((Token.span closing).shift k) =
      Expr.shift k (.call callee (args.map fun arg => arg.1) (Token.span opening)
        (Token.span closing))
    rw [Expr.shift, Expr.shiftAll_eq_map, List.map_map, List.map_map]
    rfl
  | primary, .inl _ => rfl
  | primary, .inr (.inl _) => rfl
  | primary, .inr (.inr (.inl (_, _, _))) => rfl
  | primary, .inr (.inr (.inr _)) => rfl
  | literal, .inl (_, _) => rfl
  | literal, .inr (.inl (_, _)) => rfl
  | literal, .inr (.inr (_, _)) => rfl
  | block, (opening, statements, closing) => by
    change Block.mk (statements.map (Statement.shift k))
        (((Token.span opening).shift k).merge ((Token.span closing).shift k)) =
      Block.shift k ⟨statements, (Token.span opening).merge (Token.span closing)⟩
    rw [Block.shift, Statement.shiftAll_eq_map, Span.shift_merge]
  | typeExpr, _ => rfl

/-- No literal appears in the place of a type by shifting it. -/
theorem Nonterminal.admits_shift {n : Nonterminal} {v : n.Tree} (k : Nat) (h : n.Admits v) :
    n.Admits (n.shift k v) := by
  cases n with
  | typeExpr =>
    change Expr at v
    intro l span heq
    cases v with
    | literal l' span' =>
      obtain ⟨rfl, -⟩ := Expr.literal.inj heq
      exact h l' span' rfl
    | _ => cases heq
  | _ => trivial

theorem Token.ahead_map_shift (k : Nat) (ts : List Token) : ahead (ts.map (shift k)) = ahead ts := by
  cases ts <;> rfl

namespace Derivation

/-- The derivation of shifted tokens. -/
def shift (k : Nat) : {e : Phrase} → Derivation e → Derivation e
  | _, @word w t v read => word (t.shift k) (w.shift k v) (Terminal.read_shift k read)
  | _, ref d => ref (d.shift k)
  | _, seq d d' => seq (d.shift k) (d'.shift k)
  | _, inl d => inl (d.shift k)
  | _, inr d => inr (d.shift k)
  | _, skip => skip
  | _, take d => take (d.shift k)
  | _, done => done
  | _, more d ds => more (d.shift k) (ds.shift k)

variable {e : Phrase} (k : Nat)

/-- It derives the shifted tokens. -/
theorem yield_shift (d : Derivation e) : (d.shift k).yield = d.yield.map (Token.shift k) := by
  induction d with
  | word t v hread => rfl
  | ref d ih => exact ih
  | seq d d' ih ih' => rw [shift, yield, yield, List.map_append, ih, ih']
  | inl d ih => exact ih
  | inr d ih => exact ih
  | skip => rfl
  | take d ih => exact ih
  | done => rfl
  | more d ds ih ih' => rw [shift, yield, yield, List.map_append, ih, ih']

/-- Its tree is the shifted tree. -/
theorem value_shift (d : Derivation e) : (d.shift k).value = e.shift k d.value := by
  induction d with
  | word t v hread => rfl
  | @ref n d ih => rw [shift, value, value, ih, n.build_shift]; rfl
  | seq d d' ih ih' => rw [shift, value, value, ih, ih']; rfl
  | inl d ih => rw [shift, value, value, ih]; rfl
  | inr d ih => rw [shift, value, value, ih]; rfl
  | skip => rfl
  | take d ih => rw [shift, value, value, ih]; rfl
  | done => rfl
  | more d ds ih ih' => rw [shift, value, value, ih, ih']; rfl

variable {k}

/-- Whether a derivation is proper is a question of kinds. -/
theorem Proper.shift {d : Derivation e} {rest : List Token} (h : d.Proper rest) :
    (d.shift k).Proper (rest.map (Token.shift k)) := by
  induction d generalizing rest with
  | word t v hread => trivial
  | @ref n d ih =>
    refine ⟨ih h.1, ?_⟩
    rw [value_shift, n.build_shift]
    exact n.admits_shift k h.2
  | seq d d' ih ih' =>
    refine ⟨?_, ih' h.2⟩
    rw [yield_shift, ← List.map_append]
    exact ih h.1
  | inl d ih => exact ih h
  | inr d ih => exact ih h
  | skip => exact (Phrase.starts_congr (Token.ahead_map_shift k rest)).not.2 h
  | take d ih => exact ih h
  | done => exact (Phrase.starts_congr (Token.ahead_map_shift k rest)).not.2 h
  | more d ds ih ih' =>
    refine ⟨?_, ih' h.2⟩
    rw [yield_shift, ← List.map_append]
    exact ih h.1

/-! ## Joined derivations -/

/-- One repetition behind another. -/
def append {a : Phrase} : Derivation (.many a) → Derivation (.many a) → Derivation (.many a)
  | done, ds' => ds'
  | more d ds, ds' => more d (ds.append ds')

variable {a : Phrase}

theorem yield_append (ds ds' : Derivation (.many a)) :
    (ds.append ds').yield = ds.yield ++ ds'.yield :=
  match ds with
  | done => by rw [append, yield, List.nil_append]
  | more d ds => by rw [append, yield, yield, yield_append ds ds', List.append_assoc]

theorem value_append (ds ds' : Derivation (.many a)) :
    (ds.append ds').value = ds.value ++ ds'.value :=
  match ds with
  | done => by rw [append, value, List.nil_append]
  | more d ds => by rw [append, value, value, value_append ds ds', List.cons_append]

/-- The first repetition ends where the second begins, as long as its part could not go on with
that. -/
theorem Proper.append {ds ds' : Derivation (.many a)} {rest rest' : List Token}
    (h : ds.Proper rest) (h' : ds'.Proper rest')
    (hnot : ∀ kind, ahead (ds'.yield ++ rest') = some kind → a.mayContinue kind = false) :
    (ds.append ds').Proper rest' :=
  match ds, h with
  | done, _ => by rwa [Derivation.append]
  | more d ds, ⟨hd, hds⟩ => by
    rw [Derivation.append]
    refine ⟨hd.of_ahead ?_, hds.append h' hnot⟩
    rw [yield_append, List.append_assoc]
    by_cases hyield : ds.yield = []
    · right
      rwa [hyield, List.nil_append]
    · left
      rw [Token.ahead_append_of_ne_nil hyield, Token.ahead_append_of_ne_nil hyield]

end Derivation

/-- Of the tokens that start an item only a parenthesis can go on with the item before. -/
theorem Nonterminal.not_mayContinue_item {kind : Token.Kind}
    (hstart : Nonterminal.item.mayStart kind = true) (hparen : kind ≠ .symbol .leftParen) :
    Nonterminal.item.mayContinue kind = false := by
  cases kind with
  | symbol s => cases s <;> first | rfl | exact absurd rfl hparen | cases hstart
  | as => cases hstart
  | _ => rfl

/-! ## Joined programs -/

theorem Token.map_shift_lexemes (k : Nat) (ts : List Token) :
    (lexemes ts).map (Lexeme.shift k) = lexemes (ts.map (shift k)) := by
  simp only [lexemes, List.map_map]
  rfl

/-- The tokens of two texts with a line break between them. -/
theorem Lexeme.ofText_of_tokens {text text' : String} {ts ts' : List Token}
    (h : ofText text = lexemes ts) (h' : ofText text' = lexemes ts') :
    ofText (text ++ "\n" ++ text') =
      lexemes (ts ++ ts'.map (Token.shift (text.utf8ByteSize + 1))) := by
  have hlist : (text ++ "\n" ++ text').toList = text.toList ++ '\n' :: text'.toList := by simp
  have hbreak : Separates '\n' := separates_of_ascii (by decide) (by decide)
  rw [ofText] at h h'
  rw [ofText, hlist, scan_joined hbreak _ _ (closed_of_tokens h), Text.byteSize_toList, h, h',
    Token.map_shift_lexemes, lexemes, lexemes, lexemes, List.map_append]
  rfl

namespace Derivation

variable {d d' : Derivation .program} {k : Nat}

/-- The items of a second program go on with none of the first. -/
theorem Proper.append_shift (h : d.Proper []) (h' : d'.Proper [])
    (hfirst : ahead d'.yield ≠ some (.symbol .leftParen)) :
    (d.append (d'.shift k)).Proper [] := by
  refine h.append h'.shift fun kind hkind => ?_
  rw [List.append_nil, yield_shift, Token.ahead_map_shift] at hkind
  cases hyield : d'.yield with
  | nil => rw [hyield] at hkind; cases hkind
  | cons t ts =>
    rw [hyield] at hkind hfirst
    cases hkind
    exact Nonterminal.not_mayContinue_item (d'.mayStart hyield) fun hparen =>
      hfirst (congrArg some hparen)

/-- The items of both programs. -/
theorem items_append_shift (unit : Nat) :
    (d.append (d'.shift k)).items unit =
      d.items unit ++ (d'.items unit).map (Item.shift k) := by
  simp only [items, value_append, value_shift, Phrase.shift, List.map_append, List.map_map]
  rfl

end Derivation

namespace Item

variable {unit : Nat} {text text' : String} {items items' : List Item}

/-- **Programs concatenate.** A program behind another, on a new line, adds its items, shifted, if
it does not start with a parenthesis. -/
theorem ofText_append_newline (h : Item.ofText unit text = .ok items)
    (h' : Item.ofText unit text' = .ok items')
    (hfirst : ∀ l, (Lexeme.ofText text').head? = some l → l.reading ≠ .ok (.symbol .leftParen)) :
    Item.ofText unit (text ++ "\n" ++ text') =
      .ok (items ++ items'.map (shift (text.utf8ByteSize + 1))) := by
  obtain ⟨d, hlexemes, hd, rfl⟩ := ofText_eq_ok_iff_derivation.1 h
  obtain ⟨d', hlexemes', hd', rfl⟩ := ofText_eq_ok_iff_derivation.1 h'
  have hparen : ahead d'.yield ≠ some (.symbol .leftParen) := by
    intro hahead
    cases hyield : d'.yield with
    | nil => rw [hyield] at hahead; cases hahead
    | cons t ts =>
      rw [hyield] at hahead hlexemes'
      exact hfirst t.lexeme (by rw [hlexemes']; rfl) (congrArg Except.ok (Option.some.inj hahead))
  refine ofText_eq_ok_iff_derivation.2 ⟨_, ?_, hd.append_shift hd' hparen, d.items_append_shift unit⟩
  rw [Lexeme.ofText_of_tokens hlexemes hlexemes', Derivation.yield_append, Derivation.yield_shift]

/-- A name could be called, but not with the block that the second program starts with. -/
theorem ofText_append_newline_blockType :
    ∃ items items', Item.ofText 0 "const x = y" = .ok items ∧
      Item.ofText 0 "{ u8 } f() { x }" = .ok items' ∧ items.length = 1 ∧ items'.length = 1 ∧
      Item.ofText 0 "const x = y\n{ u8 } f() { x }" = .ok (items ++ items'.map (shift 12)) := by
  have hcount : (Item.ofText 0 "const x = y").toOption.map List.length = some 1 := by
    decide +kernel
  have hcount' : (Item.ofText 0 "{ u8 } f() { x }").toOption.map List.length = some 1 := by
    decide +kernel
  have hfirst : ∀ l ∈ (Lexeme.ofText "{ u8 } f() { x }").head?,
      l.reading ≠ .ok (.symbol .leftParen) := by decide +kernel
  obtain ⟨items, hsome, hlength⟩ := Option.map_eq_some_iff.1 hcount
  obtain ⟨items', hsome', hlength'⟩ := Option.map_eq_some_iff.1 hcount'
  have hitems := eq_ok_of_toOption hsome
  have hitems' := eq_ok_of_toOption hsome'
  exact ⟨items, items', hitems, hitems', hlength, hlength',
    ofText_append_newline hitems hitems' hfirst⟩

end Item

end ExprLang
