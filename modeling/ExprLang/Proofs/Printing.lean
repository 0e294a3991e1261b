import Mathlib.Data.List.Chain
import ExprLang.Proofs.Continuation
import ExprLang.Proofs.Parsing

/-!
# Printing programs

A tree is printed as tokens without places, with parentheses only where an operand binds less
tightly than its place asks for (`Expr.printAt`) and with a comma behind every argument and
parameter but the last. `Expr.bare` forgets where a tree was read.

Nothing separates statements, and nothing separates items. Printed one behind the other they are
read as two only if the second does not start with a parenthesis (`Expr.opens`), or if the first
ends so that a parenthesis cannot go on with it (`Expr.closed`). The trees that a parser gives are
like that (`Derivation.printable`), since they were once written without a separator too.
-/

namespace ExprLang

open Token (ahead)

/-! ## Tokens without places -/

namespace Token

/-- A token without its place. Only a name needs its text, every other kind carries what it
denotes. -/
def bare (t : Token) : Token := ⟨t.kind, Span.origin, if t.kind = .identifier then t.text else ""⟩

/-- The token of a symbol. -/
def sign (s : Symbol) : Token := ⟨.symbol s, Span.origin, ""⟩

def word (kind : Token.Kind) : Token := ⟨kind, Span.origin, ""⟩

/-- The token of a name. -/
def named (name : String) : Token := ⟨.identifier, Span.origin, name⟩

/-- Tokens between parentheses. -/
def enclosed (ts : List Token) : List Token := sign .leftParen :: (ts ++ [sign .rightParen])

end Token

open Token (sign word named enclosed)

/-- The symbol that an operator is written with. -/
def Operator.sign : Operator → Symbol
  | add => .plus
  | sub => .minus
  | mul => .star
  | div => .slash

/-- The level of an operator: sums are of the lower one. -/
def Operator.level : Operator → Nat
  | add => 0
  | sub => 0
  | mul => 1
  | div => 1

/-- The kind of token that denotes a literal. -/
def Literal.kind : Literal → Token.Kind
  | number n => .number n
  | string text => .string text
  | type t => .typeName t

namespace Expr

/-- How tightly an expression holds together. -/
def level : Expr → Nat
  | binary op _ _ => op.level
  | coerce _ _ => 2
  | call _ _ _ _ => 3
  | _ => 4

/-- Parentheses around what does not hold together as tightly as a place asks for. -/
def guarded (place level : Nat) (ts : List Token) : List Token :=
  if level < place then enclosed ts else ts

end Expr

/-! ## Printing -/

mutual

/-- An expression as tokens. A function literal is not an expression that can be written. -/
def Expr.print : Expr → List Token
  | .literal l _ => [word l.kind]
  | .function _ => []
  | .name id => [named id.name]
  | .binary op left right =>
    Expr.guarded op.level left.level left.print ++
      sign op.sign :: Expr.guarded (op.level + 1) right.level right.print
  | .coerce value type =>
    Expr.guarded 3 value.level value.print ++ word .as :: Expr.guarded 4 type.level type.print
  | .call callee args _ _ =>
    Expr.guarded 4 callee.level callee.print ++
      sign .leftParen :: (Expr.printArgs args ++ [sign .rightParen])
  | .block b => b.print

/-- Arguments, with a comma behind each but the last. -/
def Expr.printArgs : List Expr → List Token
  | [] => []
  | [e] => e.print
  | e :: e' :: es => e.print ++ sign .comma :: Expr.printArgs (e' :: es)

/-- A block as tokens. -/
def Block.print : Block → List Token
  | ⟨statements, _⟩ => sign .leftBrace :: (Statement.printAll statements ++ [sign .rightBrace])

/-- Statements one behind the other, with nothing between them. -/
def Statement.printAll : List Statement → List Token
  | [] => []
  | s :: ss => s.print ++ Statement.printAll ss

def Statement.print : Statement → List Token
  | .expr e => e.print
  | .const _ name value => word .const :: named name.name :: sign .equals :: value.print

end

/-- An expression in a place that asks for a level. -/
def Expr.printAt (place : Nat) (e : Expr) : List Token := guarded place e.level e.print

/-- A parameter as tokens. Its type stands where only a primary expression can. -/
def Param.print (p : Param) : List Token :=
  named p.name.name :: sign .colon :: p.type.printAt 4

/-- Parameters, with a comma behind each but the last. -/
def Param.printAll : List Param → List Token
  | [] => []
  | [p] => p.print
  | p :: p' :: ps => p.print ++ sign .comma :: Param.printAll (p' :: ps)

/-- An item as tokens: a function as one is declared, and any other value as a constant. -/
def Item.print (i : Item) : List Token :=
  match i.value with
  | .function ⟨_, ret, params, body⟩ =>
    ret.printAt 4 ++ named i.name.name :: sign .leftParen ::
      (Param.printAll params ++ sign .rightParen :: body.print)
  | value => word .const :: named i.name.name :: sign .equals :: value.print

/-! ## Trees without places -/

/-- A name without the place it was read at. -/
def Ident.bare (id : Ident) : Ident := ⟨id.name, Span.origin⟩

mutual

def Expr.bare : Expr → Expr
  | .literal l _ => .literal l Span.origin
  | .function f => .function f.bare
  | .name id => .name id.bare
  | .binary op left right => .binary op left.bare right.bare
  | .coerce value type => .coerce value.bare type.bare
  | .call callee args _ _ => .call callee.bare (Expr.bareAll args) Span.origin Span.origin
  | .block b => .block b.bare

def Expr.bareAll : List Expr → List Expr
  | [] => []
  | e :: es => e.bare :: Expr.bareAll es

def Lambda.bare : Lambda → Lambda
  | ⟨unit, ret, params, body⟩ => ⟨unit, ret.bare, Param.bareAll params, body.bare⟩

def Param.bareAll : List Param → List Param
  | [] => []
  | p :: ps => p.bare :: Param.bareAll ps

def Param.bare : Param → Param
  | ⟨name, type⟩ => ⟨name.bare, type.bare⟩

def Block.bare : Block → Block
  | ⟨statements, _⟩ => ⟨Statement.bareAll statements, Span.origin⟩

def Statement.bareAll : List Statement → List Statement
  | [] => []
  | s :: ss => s.bare :: Statement.bareAll ss

def Statement.bare : Statement → Statement
  | .expr e => .expr e.bare
  | .const _ name value => .const Span.origin name.bare value.bare

end

/-- An item without the places of its parts. -/
def Item.bare (i : Item) : Item := ⟨i.name.bare, i.value.bare⟩

/-! ## Where a printed expression starts and ends -/

namespace Expr

/-- Whether an expression starts with a parenthesis, printed in a place. -/
def opens (place : Nat) : Expr → Bool
  | binary op left _ => op.level < place || left.opens op.level
  | coerce value _ => 2 < place || value.opens 3
  | call callee _ _ _ => 3 < place || callee.opens 4
  | _ => false

/-- Whether an expression ends with arguments or a type, so that no parenthesis goes on with it. -/
def closed : Expr → Bool
  | binary op _ right => op.level < right.level && right.closed
  | coerce _ _ => true
  | call _ _ _ _ => true
  | _ => false

end Expr

/-- Whether a statement starts with a parenthesis. -/
def Statement.opens : Statement → Bool
  | .expr e => e.opens 0
  | .const _ _ _ => false

/-- Whether no parenthesis goes on with a statement. -/
def Statement.closed : Statement → Bool
  | .expr e => e.closed
  | .const _ _ value => value.closed

/-- Whether an item starts with a parenthesis. Only the return type of a function can. -/
def Item.opens (i : Item) : Bool :=
  match i.value with
  | .function f => f.ret.opens 4
  | _ => false

/-- Whether no parenthesis goes on with an item. A function ends with its body. -/
def Item.closed (i : Item) : Bool :=
  match i.value with
  | .function _ => true
  | value => value.closed

/-- Two statements that are read as two if they stand one behind the other. -/
def Statement.Apart (s s' : Statement) : Prop := s'.opens = true → s.closed = true

/-- Two items that are read as two if they stand one behind the other. -/
def Item.Apart (i i' : Item) : Prop := i'.opens = true → i.closed = true

/-! ## Printable trees -/

mutual

/-- No function literal is nested in the expression, no literal but a type stands in the place of a
type, and statements that follow each other stay apart. -/
def Expr.Printable : Expr → Prop
  | .literal _ _ => True
  | .function _ => False
  | .name _ => True
  | .binary _ left right => left.Printable ∧ right.Printable
  | .coerce value type => value.Printable ∧ type.Printable ∧ Nonterminal.typeExpr.Admits type
  | .call callee args _ _ => callee.Printable ∧ Expr.AllPrintable args
  | .block b => b.Printable

def Expr.AllPrintable : List Expr → Prop
  | [] => True
  | e :: es => e.Printable ∧ Expr.AllPrintable es

def Block.Printable : Block → Prop
  | ⟨statements, _⟩ => Statement.AllPrintable statements ∧ statements.IsChain Statement.Apart

def Statement.AllPrintable : List Statement → Prop
  | [] => True
  | s :: ss => s.Printable ∧ Statement.AllPrintable ss

def Statement.Printable : Statement → Prop
  | .expr e => e.Printable
  | .const _ _ value => value.Printable

end

/-- An expression in the place of a type. -/
def Expr.PrintableType (e : Expr) : Prop := e.Printable ∧ Nonterminal.typeExpr.Admits e

/-- An item of the text of a number. -/
def Item.Printable (unit : Nat) (i : Item) : Prop :=
  match i.value with
  | .function ⟨home, ret, params, body⟩ =>
    home = unit ∧ ret.PrintableType ∧ (∀ p ∈ params, p.type.PrintableType) ∧ body.Printable
  | value => value.Printable

theorem Expr.allPrintable_iff {es : List Expr} :
    AllPrintable es ↔ ∀ e ∈ es, e.Printable := by
  induction es with
  | nil => simp [AllPrintable]
  | cons e es ih => simp [AllPrintable, ih]

theorem Statement.allPrintable_iff {ss : List Statement} :
    AllPrintable ss ↔ ∀ s ∈ ss, s.Printable := by
  induction ss with
  | nil => simp [AllPrintable]
  | cons s ss ih => simp [AllPrintable, ih]

/-! ## Parenthesis in front -/

namespace Expr

/-- What starts with a parenthesis in a place does so where more is asked for. -/
theorem opens_mono {place place' : Nat} (hle : place ≤ place') {e : Expr}
    (h : e.opens place = true) : e.opens place' = true := by
  cases e with
  | binary op left right =>
    simp only [opens, Bool.or_eq_true, decide_eq_true_eq] at h ⊢
    exact h.imp_left fun hlt => Nat.lt_of_lt_of_le hlt hle
  | coerce value type =>
    simp only [opens, Bool.or_eq_true, decide_eq_true_eq] at h ⊢
    exact h.imp_left fun hlt => Nat.lt_of_lt_of_le hlt hle
  | call callee args paren close =>
    simp only [opens, Bool.or_eq_true, decide_eq_true_eq] at h ⊢
    exact h.imp_left fun hlt => Nat.lt_of_lt_of_le hlt hle
  | _ => cases h

/-- Operands of a level start as the first of them does. -/
theorem opens_of_grouped {op op' : Operator} {place : Nat} (hop : op.level = place)
    (hop' : op'.level = place) {first : Expr} {others : List ((Token ⊕ Token) × Expr)}
    (h : (grouped op op' first others).opens place = true) : first.opens place = true := by
  induction others generalizing first with
  | nil => exact h
  | cons part others ih =>
    have hside : (Operator.ofSide op op' part.1).level = place := by
      rcases part with ⟨_ | _, _⟩
      · exact hop
      · exact hop'
    have hfirst := @ih (.binary (.ofSide op op' part.1) first part.2) h
    simpa [opens, hside] using hfirst

/-- Operands of a level end as the last of them does. -/
theorem closed_grouped {op op' : Operator} {place : Nat} (hop : op.level = place)
    (hop' : op'.level = place) {first : Expr} {others : List ((Token ⊕ Token) × Expr)}
    (h : (others = [] ∧ place + 1 ≤ first.level ∧ first.closed = true) ∨
      ∃ (init : List ((Token ⊕ Token) × Expr)) (last : (Token ⊕ Token) × Expr),
        others = init ++ [last] ∧ place + 1 ≤ last.2.level ∧ last.2.closed = true) :
    place ≤ (grouped op op' first others).level ∧ (grouped op op' first others).closed = true := by
  rcases h with ⟨rfl, hlevel, hclosed⟩ | ⟨init, last, rfl, hlevel, hclosed⟩
  · exact ⟨Nat.le_of_succ_le hlevel, hclosed⟩
  · have hside : (Operator.ofSide op op' last.1).level = place := by
      rcases last with ⟨_ | _, _⟩
      · exact hop
      · exact hop'
    rw [grouped_snoc]
    refine ⟨Nat.le_of_eq hside.symm, ?_⟩
    rw [closed, hside, hclosed, Bool.and_true, decide_eq_true_eq]
    exact hlevel

end Expr

namespace Derivation

theorem ahead_yield_append {e : Phrase} (d : Derivation e) (he : e.nullable = false)
    (rest : List Token) : ahead (d.yield ++ rest) = ahead d.yield :=
  Token.ahead_append_of_ne_nil (d.yield_ne_nil he) rest

/-- A primary expression that is printed with a parenthesis in front was written with one. -/
theorem ahead_of_opens_primary (d : Derivation (.ref .primary))
    (h : Expr.opens 4 d.value = true) : ahead d.yield = some (.symbol .leftParen) := by
  cases d with
  | ref d =>
    change Derivation (.alt _ (.alt _ (.alt _ (.ref .literal)))) at d
    cases d with
    | inl d => cases h
    | inr d => cases d with
      | inl d => cases h
      | inr d => cases d with
        | inl d => cases d with
          | seq d d' => cases d with
            | word t v hread =>
              have hkind := beq_iff_eq.1 (Terminal.allows_of_read hread)
              simp [yield, ahead, hkind]
        | inr d => cases d with
          | ref d =>
            change Derivation (.alt _ (.alt _ _)) at d
            cases d with
            | inl d => cases h
            | inr d => cases d with
              | inl d => cases h
              | inr d => cases h

/-- A call starts as its callee does. -/
theorem ahead_of_opens_call (d : Derivation (.ref .call)) (h : Expr.opens 3 d.value = true) :
    ahead d.yield = some (.symbol .leftParen) := by
  cases d with
  | ref d =>
    change Derivation (.seq (.ref .primary) (.opt .arguments)) at d
    cases d with
    | seq callee args =>
      change ahead (callee.yield ++ args.yield) = _
      rw [callee.ahead_yield_append rfl]
      apply callee.ahead_of_opens_primary
      cases args with
      | skip => exact Expr.opens_mono (Nat.le_succ 3) h
      | take args =>
        change (decide (3 < 3) || Expr.opens 4 callee.value) = true at h
        simpa using h

theorem ahead_of_opens_coerce (d : Derivation (.ref .coerce)) (h : Expr.opens 2 d.value = true) :
    ahead d.yield = some (.symbol .leftParen) := by
  cases d with
  | ref d =>
    change Derivation (.seq (.ref .call) (.opt .coercion)) at d
    cases d with
    | seq value type =>
      change ahead (value.yield ++ type.yield) = _
      rw [value.ahead_yield_append rfl]
      apply value.ahead_of_opens_call
      cases type with
      | skip => exact Expr.opens_mono (Nat.le_succ 2) h
      | take type =>
        change (decide (2 < 2) || Expr.opens 3 value.value) = true at h
        simpa using h

/-- Products start as their first operand does. -/
theorem ahead_of_opens_factor (d : Derivation (.ref .factor)) (h : Expr.opens 1 d.value = true) :
    ahead d.yield = some (.symbol .leftParen) := by
  cases d with
  | ref d =>
    change Derivation (.levelled .star .slash .coerce) at d
    cases d with
    | seq first others =>
      change ahead (first.yield ++ others.yield) = _
      rw [first.ahead_yield_append rfl]
      apply first.ahead_of_opens_coerce
      change Expr.opens 1 (Expr.grouped .mul .div first.value others.value) = true at h
      exact Expr.opens_mono (Nat.le_succ 1) (Expr.opens_of_grouped (by rfl) (by rfl) h)

/-- An expression that is printed with a parenthesis in front was written with one. -/
theorem ahead_of_opens_expression (d : Derivation (.ref .expression))
    (h : Expr.opens 0 d.value = true) : ahead d.yield = some (.symbol .leftParen) := by
  cases d with
  | ref d =>
    change Derivation (.ref .term) at d
    cases d with
    | ref d =>
      change Derivation (.levelled .plus .minus .factor) at d
      cases d with
      | seq first others =>
        change ahead (first.yield ++ others.yield) = _
        rw [first.ahead_yield_append rfl]
        apply first.ahead_of_opens_factor
        change Expr.opens 0 (Expr.grouped .add .sub first.value others.value) = true at h
        exact Expr.opens_mono (Nat.le_succ 0) (Expr.opens_of_grouped (by rfl) (by rfl) h)

/-- So was a statement. -/
theorem ahead_of_opens_statement (d : Derivation (.ref .statement))
    (h : Statement.opens d.value = true) : ahead d.yield = some (.symbol .leftParen) := by
  cases d with
  | ref d =>
    change Derivation (.alt .binding (.ref .expression)) at d
    cases d with
    | inl d => cases d with
      | seq keyword d => cases h
    | inr d => exact d.ahead_of_opens_expression h

/-! ## Parenthesis behind -/

/-- The last part of a repetition stands in front of what follows the repetition. -/
theorem last_of_proper {a e : Phrase} {Q : e.Value → Prop} {rest : List Token}
    (hQ : ∀ d : Derivation e, d.Proper rest → Q d.value) (ds : Derivation (.many (.seq a e)))
    (hds : ds.Proper rest) :
    (ds.yield = [] ∧ ds.value = []) ∨
      ∃ (others : List (a.Value × e.Value)) (last : a.Value × e.Value),
        ds.value = others ++ [last] ∧ Q last.2 :=
  match ds, hds with
  | done, _ => .inl ⟨by rw [yield], by rw [value]⟩
  | more (seq d d') ds, ⟨⟨_, hd'⟩, hds⟩ => by
    rcases last_of_proper hQ ds hds with ⟨hyield, hvalue⟩ | ⟨others, last, hvalue, hlast⟩
    · -- This part is the last one.
      rw [hyield, List.nil_append] at hd'
      refine .inr ⟨[], (d.value, d'.value), ?_, hQ d' hd'⟩
      rw [value, hvalue, value]
      rfl
    · refine .inr ⟨(d.value, d'.value) :: others, last, ?_, hlast⟩
      rw [value, hvalue, value]
      rfl

section Closed

variable {rest : List Token} (hrest : ahead rest = some (.symbol .leftParen))

include hrest

/-- What stands in front of a parenthesis, in the place of a call, is one with arguments: it would
have gone on with the parenthesis otherwise. -/
theorem closed_of_call {d : Derivation (.ref .call)} (h : d.Proper rest) :
    3 ≤ Expr.level d.value ∧ Expr.closed d.value = true := by
  cases d with
  | ref d =>
    change Derivation (.seq (.ref .primary) (.opt .arguments)) at d
    cases d with
    | seq callee args =>
      cases args with
      | skip => exact absurd (Parser.starts_arguments_iff.2 hrest) h.1.2
      | take args => cases args with
        | seq opening args => cases args with
          | seq args closing => exact ⟨Nat.le_refl 3, rfl⟩

/-- In front of a parenthesis, a coercion ends with its type or its value with arguments. -/
theorem closed_of_coerce {d : Derivation (.ref .coerce)} (h : d.Proper rest) :
    2 ≤ Expr.level d.value ∧ Expr.closed d.value = true := by
  cases d with
  | ref d =>
    change Derivation (.seq (.ref .call) (.opt .coercion)) at d
    cases d with
    | seq value type =>
      cases type with
      | skip =>
        obtain ⟨hlevel, hclosed⟩ := closed_of_call hrest h.1.1
        exact ⟨Nat.le_of_succ_le hlevel, hclosed⟩
      | take type => cases type with
        | seq keyword type => exact ⟨Nat.le_refl 2, rfl⟩

theorem closed_of_factor {d : Derivation (.ref .factor)} (h : d.Proper rest) :
    1 ≤ Expr.level d.value ∧ Expr.closed d.value = true := by
  cases d with
  | ref d =>
    change Derivation (.levelled .star .slash .coerce) at d
    cases d with
    | seq first others =>
      obtain ⟨⟨hfirst, hothers⟩, -⟩ := h
      refine Expr.closed_grouped (by rfl : Operator.mul.level = 1) (by rfl : Operator.div.level = 1)
        ?_
      refine (last_of_proper (Q := fun e : Expr => 2 ≤ e.level ∧ e.closed = true)
        (fun d hd => closed_of_coerce hrest hd) others hothers).imp_left fun hnone => ?_
      rw [hnone.1, List.nil_append] at hfirst
      exact ⟨hnone.2, closed_of_coerce hrest hfirst⟩

/-- An expression that was read in front of a parenthesis ends so that no parenthesis goes on with
it. -/
theorem closed_of_expression {d : Derivation (.ref .expression)} (h : d.Proper rest) :
    Expr.closed d.value = true := by
  cases d with
  | ref d =>
    change Derivation (.ref .term) at d
    cases d with
    | ref d =>
      change Derivation (.levelled .plus .minus .factor) at d
      cases d with
      | seq first others =>
        obtain ⟨⟨⟨hfirst, hothers⟩, -⟩, -⟩ := h
        refine (Expr.closed_grouped (by rfl : Operator.add.level = 0)
          (by rfl : Operator.sub.level = 0) ?_).2
        refine (last_of_proper (Q := fun e : Expr => 1 ≤ e.level ∧ e.closed = true)
          (fun d hd => closed_of_factor hrest hd) others hothers).imp_left fun hnone => ?_
        rw [hnone.1, List.nil_append] at hfirst
        exact ⟨hnone.2, closed_of_factor hrest hfirst⟩

/-- So does a statement. -/
theorem closed_of_statement {d : Derivation (.ref .statement)} (h : d.Proper rest) :
    Statement.closed d.value = true := by
  cases d with
  | ref d =>
    change Derivation (.alt .binding (.ref .expression)) at d
    cases d with
    | inl d => cases d with
      | seq keyword d => cases d with
        | seq name d => cases d with
          | seq equals d => exact closed_of_expression hrest h.1.2.2.2
    | inr d => exact closed_of_expression hrest h.1

end Closed

end Derivation

/-! ## What is parsed is printable -/

/-- What is printable among the trees of a nonterminal. -/
def Nonterminal.Fine : (n : Nonterminal) → n.Tree → Prop
  | item, f => ∀ unit, Item.Printable unit (f unit)
  | function, f => ∀ unit, Item.Printable unit (f unit)
  | statement, s => Statement.Printable s
  | block, b => Block.Printable b
  | typeExpr, e => Expr.PrintableType e
  | expression, e => Expr.Printable e
  | term, e => Expr.Printable e
  | factor, e => Expr.Printable e
  | coerce, e => Expr.Printable e
  | call, e => Expr.Printable e
  | primary, e => Expr.Printable e
  | literal, e => Expr.Printable e

/-- Two trees of a phrase that may follow each other in a block. -/
def Phrase.Apart : (e : Phrase) → e.Value → e.Value → Prop
  | ref .statement, s, s' => Statement.Apart s s'
  | _, _, _ => True

/-- All trees below a phrase are printable, and those of a repetition stay apart. -/
def Phrase.Fine : (e : Phrase) → e.Value → Prop
  | word _, _ => True
  | ref n, v => n.Fine v
  | seq a b, (v, w) => a.Fine v ∧ b.Fine w
  | alt a _, .inl v => a.Fine v
  | alt _ b, .inr v => b.Fine v
  | opt a, v => ∀ x, v = some x → a.Fine x
  | many a, vs => (∀ v ∈ vs, a.Fine v) ∧ vs.IsChain a.Apart

theorem Expr.printable_grouped {op op' : Operator} {first : Expr}
    {others : List ((Token ⊕ Token) × Expr)} (hfirst : first.Printable)
    (hothers : ∀ part ∈ others, part.2.Printable) : (grouped op op' first others).Printable := by
  induction others generalizing first with
  | nil => exact hfirst
  | cons part others ih =>
    refine @ih (.binary _ first part.2) ⟨hfirst, hothers part List.mem_cons_self⟩ ?_
    exact fun p hp => hothers p (List.mem_cons_of_mem _ hp)

theorem Item.printable_of_value {name : Ident} {value : Expr} (h : value.Printable) (unit : Nat) :
    (Item.mk name value).Printable unit := by
  cases value with
  | function f => exact h.elim
  | _ => exact h

/-- The tree of a rule is printable if its parts are and it is none that the rule refuses. -/
theorem Nonterminal.fine_build : (n : Nonterminal) → (v : n.rule.Value) → n.rule.Fine v →
    n.Admits (n.build v) → n.Fine (n.build v)
  | item, .inl (_, _, _, _), h, _ => Item.printable_of_value h.2.2.2
  | item, .inr _, h, _ => h
  | function, (ret, name, opening, params, closing, body), h, _ => by
    intro unit
    obtain ⟨hret, -, -, ⟨hparams, -⟩, -, hbody⟩ := h
    refine ⟨rfl, hret, fun p hp => ?_, hbody⟩
    obtain ⟨⟨pname, colon, type, comma⟩, hmem, rfl⟩ := List.mem_map.1 hp
    exact (hparams _ hmem).2.2.1
  | statement, .inl (_, _, _, _), h, _ => h.2.2.2
  | statement, .inr _, h, _ => h
  | expression, _, h, _ => h
  | term, (first, others), h, _ =>
    Expr.printable_grouped h.1 fun part hpart => (h.2.1 part hpart).2
  | factor, (first, others), h, _ =>
    Expr.printable_grouped h.1 fun part hpart => (h.2.1 part hpart).2
  | coerce, (_, none), h, _ => h.1
  | coerce, (_, some (_, _)), h, _ => ⟨h.1, (h.2 _ rfl).2.1, (h.2 _ rfl).2.2⟩
  | call, (_, none), h, _ => h.1
  | call, (callee, some (opening, args, closing)), h, _ => by
    refine ⟨h.1, Expr.allPrintable_iff.2 fun e he => ?_⟩
    obtain ⟨⟨arg, comma⟩, hmem, rfl⟩ := List.mem_map.1 he
    exact ((h.2 _ rfl).2.1.1 _ hmem).1
  | primary, .inl _, _, _ => trivial
  | primary, .inr (.inl _), h, _ => h
  | primary, .inr (.inr (.inl (_, _, _))), h, _ => h.2.1
  | primary, .inr (.inr (.inr _)), h, _ => h
  | literal, .inl (_, _), _, _ => trivial
  | literal, .inr (.inl (_, _)), _, _ => trivial
  | literal, .inr (.inr (_, _)), _, _ => trivial
  | block, (_, statements, _), h, _ => ⟨Statement.allPrintable_iff.2 h.2.1.1, h.2.1.2⟩
  | typeExpr, _, h, hadmits => ⟨h, hadmits⟩

namespace Derivation

/-- A statement that could go on with the parenthesis of the next one would have. -/
theorem apart_of_proper {a : Phrase} {d d' : Derivation a} {ds : Derivation (.many a)}
    {rest : List Token} (h : d.Proper (d'.yield ++ ds.yield ++ rest)) :
    a.Apart d.value d'.value := by
  unfold Phrase.Apart
  split
  · intro hopens
    have hahead := d'.ahead_of_opens_statement hopens
    refine closed_of_statement ?_ h
    rw [List.append_assoc, d'.ahead_yield_append rfl, hahead]
  · trivial

/-- **What the parser reads is printable.** -/
theorem fine {e : Phrase} (d : Derivation e) {rest : List Token} (h : d.Proper rest) :
    e.Fine d.value := by
  induction d generalizing rest with
  | word t v hread => trivial
  | @ref n d ih => exact n.fine_build d.value (ih h.1) h.2
  | seq d d' ih ih' => exact ⟨ih h.1, ih' h.2⟩
  | inl d ih => exact ih h
  | inr d ih => exact ih h
  | skip => exact nofun
  | take d ih => rintro _ ⟨⟩; exact ih h
  | done => exact ⟨nofun, List.isChain_nil⟩
  | more d ds ih ih' =>
    obtain ⟨hothers, hchain⟩ := ih' h.2
    refine ⟨fun v hv => ?_, ?_⟩
    · rcases List.mem_cons.1 hv with rfl | hv
      · exact ih h.1
      · exact hothers v hv
    · cases ds with
      | done => exact List.isChain_singleton _
      | more d' ds => exact List.isChain_cons_cons.2 ⟨apart_of_proper h.1, hchain⟩

/-- An item that is printed with a parenthesis in front is a function, and its return type was
written with one. -/
theorem ahead_of_opens_item {d : Derivation (.ref .item)} {rest : List Token} (h : d.Proper rest)
    {unit : Nat} (hopens : (d.value unit).opens = true) :
    ahead d.yield = some (.symbol .leftParen) := by
  cases d with
  | ref d =>
    change Derivation (.alt .binding (.ref .function)) at d
    cases d with
    | inl d => cases d with
      | seq keyword d => cases d with
        | seq name d => cases d with
          | seq equals d =>
            have hprintable : Expr.Printable d.value := d.fine h.1.2.2.2
            change Item.opens ⟨_, d.value⟩ = true at hopens
            cases hvalue : d.value with
            | function f => rw [hvalue] at hprintable; exact hprintable.elim
            | _ => rw [hvalue] at hopens; cases hopens
    | inr d => cases d with
      | ref d =>
        change Derivation (.seq (.ref .typeExpr) _) at d
        cases d with
        | seq ret d => cases ret with
          | ref ret =>
            change Derivation (.ref .primary) at ret
            change ahead (ret.yield ++ d.yield) = _
            rw [ret.ahead_yield_append rfl]
            exact ret.ahead_of_opens_primary hopens

/-- An item that was read in front of a parenthesis ends so that no parenthesis goes on with it. -/
theorem closed_of_item {d : Derivation (.ref .item)} {rest : List Token}
    (hrest : ahead rest = some (.symbol .leftParen)) (h : d.Proper rest) (unit : Nat) :
    (d.value unit).closed = true := by
  cases d with
  | ref d =>
    change Derivation (.alt .binding (.ref .function)) at d
    cases d with
    | inl d => cases d with
      | seq keyword d => cases d with
        | seq name d => cases d with
          | seq equals d =>
            have hclosed := closed_of_expression hrest h.1.2.2.2
            change Item.closed ⟨_, d.value⟩ = true
            cases hvalue : d.value with
            | function f => rfl
            | _ => rw [hvalue] at hclosed; exact hclosed
    | inr d => cases d with
      | ref d => rfl

/-- Items that were read one behind the other stay apart when they are printed. -/
theorem apart_items (d : Derivation .program) {rest : List Token} (h : d.Proper rest)
    (unit : Nat) : (d.items unit).IsChain Item.Apart :=
  match d, h with
  | done, _ => by simp [items, value]
  | more d done, _ => by simp [items, value]
  | more d (more d' ds), ⟨hd, hds⟩ => by
    have hchain := apart_items (more d' ds) hds unit
    have happart : Item.Apart (d.value unit) (d'.value unit) := by
      intro hopens
      refine closed_of_item ?_ hd unit
      rw [yield, List.append_assoc, d'.ahead_yield_append rfl]
      exact ahead_of_opens_item hds.1 hopens
    simp only [items, value, List.map_cons] at hchain ⊢
    exact List.isChain_cons_cons.2 ⟨happart, hchain⟩

/-- **The items of a program are printable, and stay apart when they are printed.** -/
theorem printable (d : Derivation .program) {rest : List Token} (h : d.Proper rest) (unit : Nat) :
    (∀ i ∈ d.items unit, i.Printable unit) ∧ (d.items unit).IsChain Item.Apart := by
  have hitems : ∀ i ∈ d.items unit, i.Printable unit := by
    intro i hi
    obtain ⟨f, hf, rfl⟩ := List.mem_map.1 hi
    exact (d.fine h).1 f hf unit
  exact ⟨hitems, d.apart_items h unit⟩

end Derivation

end ExprLang
