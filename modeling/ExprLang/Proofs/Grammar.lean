import ExprLang.Expr.Parser

/-!
# The grammar

The rules of the language as data (`Nonterminal.rule`), their derivations (`Derivation`), the tokens
that a derivation derives (`Derivation.yield`) and the tree it stands for (`Derivation.value`).
Operators group to the left, and parentheses leave no node.

The rules alone are ambiguous: no sign separates statements, and commas are optional. A derivation
is *proper* in front of some tokens if it takes every optional part that the next token allows, and
if no literal but a type stands in the place of a type (`Derivation.Proper`). Of two proper
derivations in front of the same tokens there is only one (`Derivation.eq_of_proper`).
-/

namespace ExprLang

/-! ## Rules -/

inductive Nonterminal where
  | item
  | function
  | statement
  | expression
  | term
  | factor
  | coerce
  | call
  | primary
  | literal
  | block
  | typeExpr
deriving DecidableEq, Repr

/-- The tokens that a rule asks for: a given one, or any of a category. -/
inductive Terminal where
  | exactly (kind : Token.Kind)
  | string
  | number
  | typeName

/-- The right side of a rule. -/
inductive Phrase where
  | word (w : Terminal)
  | ref (n : Nonterminal)
  | seq (first second : Phrase)
  | alt (first second : Phrase)
  | opt (part : Phrase)
  | many (part : Phrase)

namespace Phrase

def sign (s : Symbol) : Phrase := word (.exactly (.symbol s))

def identifier : Phrase := word (.exactly .identifier)

/-- `"const" identifier "=" expression` -/
def binding : Phrase :=
  seq (word (.exactly .const)) (seq identifier (seq (sign .equals) (ref .expression)))

/-- `operand ((s | s') operand)*` -/
def levelled (s s' : Symbol) (operand : Nonterminal) : Phrase :=
  seq (ref operand) (many (seq (alt (sign s) (sign s')) (ref operand)))

/-- `expression ","?` -/
def argument : Phrase := seq (ref .expression) (opt (sign .comma))

/-- `identifier ":" typeExpr ","?` -/
def param : Phrase := seq identifier (seq (sign .colon) (seq (ref .typeExpr) (opt (sign .comma))))

/-- `"(" argument* ")"` -/
def arguments : Phrase := seq (sign .leftParen) (seq (many argument) (sign .rightParen))

/-- `"as" typeExpr` -/
def coercion : Phrase := seq (word (.exactly .as)) (ref .typeExpr)

/-- `item*` -/
abbrev program : Phrase := many (ref .item)

end Phrase

open Phrase in
/-- The rules. -/
def Nonterminal.rule : Nonterminal → Phrase
  | item => alt binding (ref function)
  | function =>
    seq (ref typeExpr) (seq identifier (seq (sign .leftParen) (seq (many param)
      (seq (sign .rightParen) (ref block)))))
  | statement => alt binding (ref expression)
  | expression => ref term
  | term => levelled .plus .minus factor
  | factor => levelled .star .slash coerce
  | coerce => seq (ref call) (opt coercion)
  | call => seq (ref primary) (opt arguments)
  | primary =>
    alt identifier (alt (ref block)
      (alt (seq (sign .leftParen) (seq (ref expression) (sign .rightParen))) (ref literal)))
  | literal => alt (word .string) (alt (word .number) (word .typeName))
  | block => seq (sign .leftBrace) (seq (many (ref statement)) (sign .rightBrace))
  | typeExpr => ref primary

/-! ## Trees -/

/-- What a token is read as: itself, with the value it denotes if it is one of a category. -/
@[reducible] def Terminal.Value : Terminal → Type
  | exactly _ => Token
  | string => String × Token
  | number => WrittenNumber × Token
  | typeName => Ty × Token

def Terminal.read : (w : Terminal) → Token → Option w.Value
  | exactly kind, t => if t.kind = kind then some t else none
  | string, t =>
    match t.kind with
    | .string text => some (text, t)
    | _ => none
  | number, t =>
    match t.kind with
    | .number n => some (n, t)
    | _ => none
  | typeName, t =>
    match t.kind with
    | .typeName ty => some (ty, t)
    | _ => none

/-- What a nonterminal stands for. A function knows the number of the text it was read from, so
items are given that number last. -/
@[reducible] def Nonterminal.Tree : Nonterminal → Type
  | item => Nat → Item
  | function => Nat → Item
  | statement => Statement
  | block => Block
  | _ => Expr

@[reducible] def Phrase.Value : Phrase → Type
  | word w => w.Value
  | ref n => n.Tree
  | seq a b => a.Value × b.Value
  | alt a b => a.Value ⊕ b.Value
  | opt a => Option a.Value
  | many a => List a.Value

def Token.ident (t : Token) : Ident := ⟨t.text, t.span⟩

/-- The operator that one of two signs stands for. -/
def Operator.ofSide (op op' : Operator) (side : Token ⊕ Token) : Operator :=
  side.elim (fun _ => op) fun _ => op'

/-- Operands and the operators of a level between them, grouped to the left. -/
def Expr.grouped (op op' : Operator) (first : Expr) (others : List ((Token ⊕ Token) × Expr)) :
    Expr :=
  others.foldl (fun left part => .binary (.ofSide op op' part.1) left part.2) first

/-- The tree of a nonterminal from those of the parts of its rule. -/
def Nonterminal.build : (n : Nonterminal) → n.rule.Value → n.Tree
  | item, .inl (_, name, _, value) => fun _ => ⟨Token.ident name, value⟩
  | item, .inr f => f
  | function, (ret, name, _, params, _, body) => fun unit =>
    ⟨Token.ident name, .function ⟨unit, ret,
      params.map fun (name, _, type, _) => ⟨Token.ident name, type⟩, body⟩⟩
  | statement, .inl (keyword, name, _, value) =>
    .const (Token.span keyword) (Token.ident name) value
  | statement, .inr e => .expr e
  | expression, e => e
  | term, (first, others) => Expr.grouped .add .sub first others
  | factor, (first, others) => Expr.grouped .mul .div first others
  | coerce, (value, none) => value
  | coerce, (value, some (_, type)) => .coerce value type
  | call, (callee, none) => callee
  | call, (callee, some (opening, args, closing)) =>
    .call callee (args.map Prod.fst) (Token.span opening) (Token.span closing)
  | primary, .inl name => .name (Token.ident name)
  | primary, .inr (.inl b) => .block b
  | primary, .inr (.inr (.inl (_, e, _))) => e
  | primary, .inr (.inr (.inr l)) => l
  | literal, .inl (text, t) => .literal (.string text) t.span
  | literal, .inr (.inl (n, t)) => .literal (.number n) t.span
  | literal, .inr (.inr (ty, t)) => .literal (.type ty) t.span
  | block, (opening, statements, closing) =>
    ⟨statements, (Token.span opening).merge (Token.span closing)⟩
  | typeExpr, e => e

/-! ## Derivations -/

/-- How a phrase derives tokens. -/
inductive Derivation : Phrase → Type
  | word {w : Terminal} (t : Token) (v : w.Value) (read : w.read t = some v) :
    Derivation (.word w)
  | ref {n : Nonterminal} (d : Derivation n.rule) : Derivation (.ref n)
  | seq {a b : Phrase} (d : Derivation a) (d' : Derivation b) : Derivation (.seq a b)
  | inl {a b : Phrase} (d : Derivation a) : Derivation (.alt a b)
  | inr {a b : Phrase} (d : Derivation b) : Derivation (.alt a b)
  | skip {a : Phrase} : Derivation (.opt a)
  | take {a : Phrase} (d : Derivation a) : Derivation (.opt a)
  | done {a : Phrase} : Derivation (.many a)
  | more {a : Phrase} (d : Derivation a) (ds : Derivation (.many a)) : Derivation (.many a)

namespace Derivation

/-- The tokens that are derived. -/
def yield {e : Phrase} : Derivation e → List Token
  | word t _ _ => [t]
  | ref d => d.yield
  | seq d d' => d.yield ++ d'.yield
  | inl d => d.yield
  | inr d => d.yield
  | skip => []
  | take d => d.yield
  | done => []
  | more d ds => d.yield ++ ds.yield

/-- The tree that a derivation stands for. -/
def value : {e : Phrase} → Derivation e → e.Value
  | _, word _ v _ => v
  | _, @ref n d => n.build d.value
  | _, seq d d' => (d.value, d'.value)
  | _, inl d => .inl d.value
  | _, inr d => .inr d.value
  | _, skip => none
  | _, take d => some d.value
  | _, done => []
  | _, more d ds => d.value :: ds.value

/-- The items of a program, in the text of a number. -/
def items (unit : Nat) (d : Derivation .program) : List Item := d.value.map fun f => f unit

end Derivation

/-- The kind of the next of some tokens. -/
def Token.ahead (ts : List Token) : Option Token.Kind := ts.head?.map Token.kind

/-- Whether a phrase can start with the next of some tokens, that is with one of its kind. -/
def Phrase.Starts (e : Phrase) (rest : List Token) : Prop :=
  ∃ (d : Derivation e) (t : Token) (ts : List Token),
    d.yield = t :: ts ∧ Token.ahead rest = some t.kind

/-- A literal in the place of a type, in parentheses or not, is the name of a type. -/
def Nonterminal.Admits : (n : Nonterminal) → n.Tree → Prop
  | typeExpr, e => ∀ l span, e = Expr.literal l span → ∃ t, l = .type t
  | _, _ => True

/-- In front of the tokens `rest` a derivation takes every optional part that the next token allows,
and no literal but a type stands in the place of a type. -/
def Derivation.Proper : {e : Phrase} → Derivation e → (rest : List Token) → Prop
  | _, word _ _ _, _ => True
  | _, @ref n d, rest => d.Proper rest ∧ n.Admits (n.build d.value)
  | _, seq d d', rest => d.Proper (d'.yield ++ rest) ∧ d'.Proper rest
  | _, inl d, rest => d.Proper rest
  | _, inr d, rest => d.Proper rest
  | _, @skip a, rest => ¬a.Starts rest
  | _, take d, rest => d.Proper rest
  | _, @done a, rest => ¬a.Starts rest
  | _, more d ds, rest => d.Proper (ds.yield ++ rest) ∧ ds.Proper rest

/-! ## First tokens -/

/-- Whether a phrase can derive nothing. -/
def Phrase.nullable : Phrase → Bool
  | word _ => false
  | ref _ => false
  | seq a b => a.nullable && b.nullable
  | alt a b => a.nullable || b.nullable
  | opt _ => true
  | many _ => true

theorem Nonterminal.nullable_rule (n : Nonterminal) : n.rule.nullable = false := by
  cases n <;> rfl

theorem Derivation.yield_ne_nil {e : Phrase} (d : Derivation e) (he : e.nullable = false) :
    d.yield ≠ [] := by
  induction d with
  | word t v h => exact List.cons_ne_nil t []
  | @ref n d ih => exact ih n.nullable_rule
  | @seq a b d d' ih ih' =>
    intro h
    obtain ⟨hd, hd'⟩ := List.append_eq_nil_iff.1 h
    cases ha : a.nullable with
    | false => exact ih ha hd
    | true =>
      rw [Phrase.nullable, ha, Bool.true_and] at he
      exact ih' he hd'
  | inl d ih => exact ih (Bool.or_eq_false_iff.1 he).1
  | inr d ih => exact ih (Bool.or_eq_false_iff.1 he).2
  | skip => cases he
  | take d ih => cases he
  | done => cases he
  | more d ds ih ih' => cases he

namespace Token.Kind

/-- The kinds of literals. -/
def isLiteral : Kind → Bool
  | string _ => true
  | number _ => true
  | typeName _ => true
  | _ => false

/-- The kinds that a primary expression starts with. -/
def opens : Kind → Bool
  | identifier => true
  | symbol .leftBrace => true
  | symbol .leftParen => true
  | kind => kind.isLiteral

end Token.Kind

def Terminal.allows : Terminal → Token.Kind → Bool
  | exactly kind, found => found == kind
  | string, .string _ => true
  | number, .number _ => true
  | typeName, .typeName _ => true
  | _, _ => false

/-- The kinds that a nonterminal starts with. -/
def Nonterminal.mayStart : Nonterminal → Token.Kind → Bool
  | item, kind => kind == .const || kind.opens
  | statement, kind => kind == .const || kind.opens
  | literal, kind => kind.isLiteral
  | block, kind => kind == .symbol .leftBrace
  | _, kind => kind.opens

/-- The kinds that a phrase starts with. -/
def Phrase.mayStart : Phrase → Token.Kind → Bool
  | word w, kind => w.allows kind
  | ref n, kind => n.mayStart kind
  | seq a b, kind => a.mayStart kind || a.nullable && b.mayStart kind
  | alt a b, kind => a.mayStart kind || b.mayStart kind
  | opt a, kind => a.mayStart kind
  | many a, kind => a.mayStart kind

theorem Terminal.allows_of_read {w : Terminal} {t : Token} {v : w.Value} (h : w.read t = some v) :
    w.allows t.kind = true := by
  cases w with
  | exactly kind =>
    by_cases hkind : t.kind = kind
    · rw [allows, hkind, beq_self_eq_true]
    · rw [read, if_neg hkind] at h
      cases h
  | _ =>
    obtain ⟨kind, span, text⟩ := t
    cases kind <;> first | rfl | cases h

theorem Nonterminal.mayStart_of_rule (n : Nonterminal) (kind : Token.Kind)
    (h : n.rule.mayStart kind = true) : n.mayStart kind = true := by
  cases n <;> cases kind <;> first | rfl | exact h | (rename_i s; cases s <;> first | rfl | cases h)

theorem Derivation.mayStart {e : Phrase} (d : Derivation e) {t : Token} {ts : List Token}
    (h : d.yield = t :: ts) : e.mayStart t.kind = true := by
  induction d generalizing t ts with
  | word t' v hread =>
    cases h
    exact Terminal.allows_of_read hread
  | @ref n d ih => exact n.mayStart_of_rule t.kind (ih h)
  | @seq a b d d' ih ih' =>
    rw [Phrase.mayStart, Bool.or_eq_true, Bool.and_eq_true]
    rcases List.append_eq_cons_iff.1 h with ⟨hd, hd'⟩ | ⟨ts', hd, -⟩
    · cases ha : a.nullable with
      | false => exact absurd hd (d.yield_ne_nil ha)
      | true => exact .inr ⟨rfl, ih' hd'⟩
    · exact .inl (ih hd)
  | inl d ih => rw [Phrase.mayStart, ih h, Bool.true_or]
  | inr d ih => rw [Phrase.mayStart, ih h, Bool.or_true]
  | skip => cases h
  | take d ih => exact ih h
  | done => cases h
  | more d ds ih ih' =>
    rcases List.append_eq_cons_iff.1 h with ⟨-, hds⟩ | ⟨ts', hd, -⟩
    · exact ih' hds
    · exact ih hd

namespace Phrase

theorem not_starts {e : Phrase} {rest : List Token}
    (h : ∀ kind, Token.ahead rest = some kind → e.mayStart kind = false) : ¬e.Starts rest := by
  rintro ⟨d, t, ts, hd, hahead⟩
  have hkind := h t.kind hahead
  rw [d.mayStart hd] at hkind
  cases hkind

/-- A phrase starts with the tokens that it derives. -/
theorem starts_append {e : Phrase} (d : Derivation e) (he : e.nullable = false)
    (rest : List Token) : e.Starts (d.yield ++ rest) := by
  match h : d.yield with
  | [] => exact absurd h (d.yield_ne_nil he)
  | t :: ts => exact ⟨d, t, ts, h, rfl⟩

theorem Starts.seq {a b : Phrase} {rest : List Token} (h : a.Starts rest) (d' : Derivation b) :
    (Phrase.seq a b).Starts rest := by
  obtain ⟨d, t, ts, hd, hahead⟩ := h
  exact ⟨.seq d d', t, ts ++ d'.yield, by rw [Derivation.yield, hd]; rfl, hahead⟩

theorem Starts.inl {a b : Phrase} {rest : List Token} (h : a.Starts rest) :
    (Phrase.alt a b).Starts rest := by
  obtain ⟨d, t, ts, hd, hahead⟩ := h
  exact ⟨.inl d, t, ts, hd, hahead⟩

theorem Starts.inr {a b : Phrase} {rest : List Token} (h : b.Starts rest) :
    (Phrase.alt a b).Starts rest := by
  obtain ⟨d, t, ts, hd, hahead⟩ := h
  exact ⟨.inr d, t, ts, hd, hahead⟩

theorem starts_exactly {kind : Token.Kind} {rest : List Token}
    (h : Token.ahead rest = some kind) : (word (.exactly kind)).Starts rest := by
  cases rest with
  | nil => cases h
  | cons t rest => exact ⟨.word t t (if_pos (Option.some.inj h)), t, [], rfl, rfl⟩

theorem not_starts_of_ahead {e : Phrase} {rest : List Token} {kind : Token.Kind}
    (h : Token.ahead rest = some kind) (hkind : e.mayStart kind = false) : ¬e.Starts rest := by
  refine not_starts fun found hfound => ?_
  cases h.symm.trans hfound
  exact hkind

/-- A phrase that starts with one kind only starts where that kind is next. -/
theorem Starts.ahead_eq {e : Phrase} {rest : List Token} {kind : Token.Kind} (h : e.Starts rest)
    (he : ∀ found, e.mayStart found = (found == kind)) : Token.ahead rest = some kind := by
  obtain ⟨d, t, ts, hd, hahead⟩ := h
  have hkind := d.mayStart hd
  rw [he] at hkind
  rw [hahead, beq_iff_eq.1 hkind]

theorem not_starts_of_ne {e : Phrase} {rest : List Token} {kind : Token.Kind}
    (h : Token.ahead rest ≠ some kind) (he : ∀ found, e.mayStart found = (found == kind)) :
    ¬e.Starts rest :=
  fun hstarts => h (hstarts.ahead_eq he)

/-! ## Uniqueness -/

/-- Phrases that start with different tokens derive different ones. -/
theorem append_ne_append {a b : Phrase} (ha : a.nullable = false) (hb : b.nullable = false)
    (hapart : ∀ kind, a.mayStart kind = true → b.mayStart kind = false) (d : Derivation a)
    (d' : Derivation b) (rest rest' : List Token) : d.yield ++ rest ≠ d'.yield ++ rest' := by
  intro h
  match hd : d.yield, hd' : d'.yield with
  | [], _ => exact d.yield_ne_nil ha hd
  | _ :: _, [] => exact d'.yield_ne_nil hb hd'
  | t :: ts, t' :: ts' =>
    rw [hd, hd'] at h
    obtain ⟨rfl, -⟩ := List.cons.inj h
    have hb' := hapart t.kind (d.mayStart hd)
    rw [d'.mayStart hd'] at hb'
    cases hb'

/-- The first token tells the alternatives apart, and an optional part is never empty. -/
def Separate : Phrase → Prop
  | word _ => True
  | ref _ => True
  | seq a b => a.Separate ∧ b.Separate
  | alt a b => a.Separate ∧ b.Separate ∧ a.nullable = false ∧ b.nullable = false ∧
    ∀ kind, a.mayStart kind = true → b.mayStart kind = false
  | opt a => a.Separate ∧ a.nullable = false
  | many a => a.Separate ∧ a.nullable = false

end Phrase

theorem Nonterminal.separate_rule (n : Nonterminal) : n.rule.Separate := by
  cases n
  all_goals repeat' apply And.intro
  all_goals try first | exact trivial | rfl
  -- What is left are the pairs of alternatives, each compared kind by kind.
  all_goals
    intro kind
    cases kind with
    | symbol s => cases s <;> decide
    | _ => first | exact fun _ => rfl | exact fun h => nomatch h

namespace Derivation

/-- Of the proper derivations in front of some tokens there is only one. -/
theorem eq_of_proper {e : Phrase} (d d' : Derivation e) (he : e.Separate) {rest rest' : List Token}
    (hd : d.Proper rest) (hd' : d'.Proper rest') (h : d.yield ++ rest = d'.yield ++ rest') :
    d = d' ∧ rest = rest' := by
  induction d generalizing rest rest' with
  | word t v hread =>
    cases d' with
    | word t' v' hread' =>
      obtain ⟨rfl, rfl⟩ := List.cons.inj h
      obtain rfl : v = v' := Option.some.inj (hread.symm.trans hread')
      exact ⟨rfl, rfl⟩
  | @ref n d ih =>
    cases d' with
    | ref d' =>
      obtain ⟨rfl, rfl⟩ := ih d' n.separate_rule hd.1 hd'.1 h
      exact ⟨rfl, rfl⟩
  | seq d₁ d₂ ih₁ ih₂ =>
    cases d' with
    | seq d₁' d₂' =>
      rw [yield, yield, List.append_assoc, List.append_assoc] at h
      obtain ⟨rfl, hrest⟩ := ih₁ d₁' he.1 hd.1 hd'.1 h
      obtain ⟨rfl, rfl⟩ := ih₂ d₂' he.2 hd.2 hd'.2 hrest
      exact ⟨rfl, rfl⟩
  | inl d ih =>
    obtain ⟨ha, -, hne, hne', hapart⟩ := he
    cases d' with
    | inl d' =>
      obtain ⟨rfl, rfl⟩ := ih d' ha hd hd' h
      exact ⟨rfl, rfl⟩
    | inr d' => exact absurd h (Phrase.append_ne_append hne hne' hapart d d' rest rest')
  | inr d ih =>
    obtain ⟨-, hb, hne, hne', hapart⟩ := he
    cases d' with
    | inl d' => exact absurd h.symm (Phrase.append_ne_append hne hne' hapart d' d rest' rest)
    | inr d' =>
      obtain ⟨rfl, rfl⟩ := ih d' hb hd hd' h
      exact ⟨rfl, rfl⟩
  | skip =>
    cases d' with
    | skip => exact ⟨rfl, h⟩
    | take d' =>
      obtain rfl : rest = d'.yield ++ rest' := h
      exact absurd (Phrase.starts_append d' he.2 rest') hd
  | take d ih =>
    cases d' with
    | skip =>
      obtain rfl : d.yield ++ rest = rest' := h
      exact absurd (Phrase.starts_append d he.2 rest) hd'
    | take d' =>
      obtain ⟨rfl, rfl⟩ := ih d' he.1 hd hd' h
      exact ⟨rfl, rfl⟩
  | done =>
    cases d' with
    | done => exact ⟨rfl, h⟩
    | more d' ds' =>
      obtain rfl : rest = d'.yield ++ ds'.yield ++ rest' := h
      rw [Proper, List.append_assoc] at hd
      exact absurd (Phrase.starts_append d' he.2 (ds'.yield ++ rest')) hd
  | more d ds ih ih' =>
    cases d' with
    | done =>
      obtain rfl : d.yield ++ ds.yield ++ rest = rest' := h
      rw [Proper, List.append_assoc] at hd'
      exact absurd (Phrase.starts_append d he.2 (ds.yield ++ rest)) hd'
    | more d' ds' =>
      rw [yield, yield, List.append_assoc, List.append_assoc] at h
      obtain ⟨rfl, hrest⟩ := ih d' he.1 hd.1 hd'.1 h
      obtain ⟨rfl, rfl⟩ := ih' ds' he hd.2 hd'.2 hrest
      exact ⟨rfl, rfl⟩

end Derivation

end ExprLang
