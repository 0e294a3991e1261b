import Mathlib.Logic.Relation
import ExprLang.Proofs.Nesting

/-!
# What lies below a node

A property of the nodes below a node (`Node.All`) is one of the node and of those below its
children. The tree of a text is made of its words (`Item.worded_of_ofText`): below an item, function
literals stand nowhere but in the place of a definition, and every other leaf is one of the tokens.
So the tree is plain (`Item.plain_of_ofText`): every literal of a type is a type that has a word of
its own, which neither the type of types nor the type of functions does.
-/

namespace ExprLang

open Token (lexemes)

namespace Node

/-- A node is another one or lies below it. -/
def Below : Node → Node → Prop := Relation.ReflTransGen fun child n => child ∈ n.children

/-- A property of a node and of all those below it. -/
def All (P : Node → Prop) (n : Node) : Prop := ∀ m : Node, m.Below n → P m

namespace All

variable {P Q : Node → Prop} {n m : Node}

theorem self (h : n.All P) : P n := h n .refl

theorem child (h : n.All P) (hm : m ∈ n.children) : m.All P := fun k hk => h k (hk.tail hm)

theorem below (h : n.All P) (hm : m.Below n) : m.All P := fun k hk => h k (hk.trans hm)

theorem intro (children : List Node) (hchildren : n.children = children) (hself : P n)
    (hbelow : ∀ child ∈ children, child.All P) : n.All P := by
  intro k hk
  rcases Relation.ReflTransGen.cases_tail hk with rfl | ⟨child, hk, hchild⟩
  · exact hself
  · exact hbelow child (hchildren ▸ hchild) k hk

theorem leaf (hchildren : n.children = []) (hself : P n) : n.All P :=
  intro [] hchildren hself (List.forall_mem_nil _)

theorem imp (h : n.All P) (hPQ : ∀ m : Node, P m → Q m) : n.All Q := fun m hm => hPQ m (h m hm)

end All

/-- What a node of a text is, functions apart: a leaf is one of the words. -/
def Worded (ts : List Token) : Node → Prop
  | expr (.function _) => False
  | expr (.literal l span) => ∃ t ∈ ts, Parser.literalOf t.kind = some l ∧ t.span = span
  | expr (.name id) => ∃ t ∈ ts, t.kind = .identifier ∧ t.ident = id
  | _ => True

/-- A name is mentioned by a node if it stands in the place of an expression there. -/
def Mentions (n : Node) (name : String) : Prop :=
  ∃ id : Ident, (expr (.name id)).Below n ∧ id.name = name

/-- What a node of a text is, functions apart. -/
def Plain : Node → Prop
  | expr (.function _) => False
  | expr (.literal (.type t) _) => t ∈ Token.typeNames
  | _ => True

end Node

/-- The parts of a function are plain. -/
def Lambda.Plain (f : Lambda) : Prop :=
  ∀ child ∈ (Node.expr (.function f)).children, child.All Node.Plain

/-- An item is a function of plain parts, or it has a plain value. -/
def Item.Plain (i : Item) : Prop :=
  (∃ f : Lambda, i.value = .function f ∧ f.Plain) ∨ (Node.expr i.value).All Node.Plain

/-- A property of the nodes below an item, the function that it may define apart. -/
def Item.All (P : Node → Prop) (i : Item) : Prop :=
  (∃ f : Lambda, i.value = .function f ∧
    ∀ child ∈ (Node.expr (.function f)).children, child.All P) ∨ (Node.expr i.value).All P

theorem Item.All.imp {P Q : Node → Prop} {i : Item} (h : i.All P)
    (hPQ : ∀ n : Node, P n → Q n) : i.All Q :=
  Or.imp (Exists.imp fun _ hf => ⟨hf.1, fun child hchild => (hf.2 child hchild).imp hPQ⟩)
    (fun hvalue => hvalue.imp hPQ) h

/-- What is below an item: the function that it defines, or a node whose nodes have the property. -/
theorem Item.All.below {P : Node → Prop} {i : Item} (h : i.All P) {e : Expr}
    (he : (Node.expr e).Below (.item i)) : (∃ f, e = .function f) ∨ (Node.expr e).All P := by
  rcases Relation.ReflTransGen.cases_tail he with hitem | ⟨child, he, hchild⟩
  · cases hitem
  obtain rfl := List.mem_singleton.1 hchild
  rcases h with ⟨f, hf, hparts⟩ | hvalue
  · rw [hf] at he
    rcases Relation.ReflTransGen.cases_tail he with hfunction | ⟨child, he, hchild⟩
    · cases hfunction
      exact .inl ⟨f, rfl⟩
    · exact .inr ((hparts child hchild).below he)
  · exact .inr (hvalue.below he)

/-! ## What is parsed is made of words -/

/-- What a token is read as. -/
def Terminal.Worded (ts : List Token) (w : Terminal) (v : w.Value) : Prop :=
  ∃ t ∈ ts, w.read t = some v

section Worded

variable (ts : List Token)

def Nonterminal.Worded : (n : Nonterminal) → n.Tree → Prop
  | item, f => ∀ unit, Item.All (Node.Worded ts) (f unit)
  | function, f => ∀ unit, Item.All (Node.Worded ts) (f unit)
  | statement, s => (Node.statement s).All (Node.Worded ts)
  | block, b => (Node.block b).All (Node.Worded ts)
  | expression, e => (Node.expr e).All (Node.Worded ts)
  | term, e => (Node.expr e).All (Node.Worded ts)
  | factor, e => (Node.expr e).All (Node.Worded ts)
  | coerce, e => (Node.expr e).All (Node.Worded ts)
  | call, e => (Node.expr e).All (Node.Worded ts)
  | primary, e => (Node.expr e).All (Node.Worded ts)
  | literal, e => (Node.expr e).All (Node.Worded ts)
  | typeExpr, e => (Node.expr e).All (Node.Worded ts)

def Phrase.Worded : (e : Phrase) → e.Value → Prop
  | word w, v => w.Worded ts v
  | ref n, v => n.Worded ts v
  | seq a b, v => a.Worded v.1 ∧ b.Worded v.2
  | alt a b, v => v.elim a.Worded b.Worded
  | opt a, v => ∀ x, v = some x → a.Worded x
  | many a, vs => ∀ v ∈ vs, a.Worded v

end Worded

section Build

variable {ts : List Token}

theorem Expr.worded_grouped {op op' : Operator} {first : Expr}
    {others : List ((Token ⊕ Token) × Expr)} (hfirst : (Node.expr first).All (Node.Worded ts))
    (hothers : ∀ part ∈ others, (Node.expr part.2).All (Node.Worded ts)) :
    (Node.expr (grouped op op' first others)).All (Node.Worded ts) := by
  induction others generalizing first with
  | nil => exact hfirst
  | cons part others ih =>
    obtain ⟨hpart, hothers⟩ := List.forall_mem_cons.1 hothers
    refine ih (.intro [.expr first, .expr part.2] rfl trivial ?_) hothers
    simp [hfirst, hpart]

theorem Expr.worded_name {t : Token} (h : Terminal.Worded ts (.exactly .identifier) t) :
    (Node.expr (.name t.ident)).All (Node.Worded ts) := by
  obtain ⟨t', ht, hread⟩ := h
  by_cases hkind : t'.kind = .identifier
  · rw [Terminal.read, if_pos hkind] at hread
    cases hread
    exact .leaf rfl ⟨_, ht, hkind, rfl⟩
  · rw [Terminal.read, if_neg hkind] at hread
    cases hread

theorem Expr.worded_string {text : String} {t : Token} (h : Terminal.string.Worded ts (text, t)) :
    (Node.expr (.literal (.string text) t.span)).All (Node.Worded ts) := by
  obtain ⟨⟨kind, span, word⟩, ht, hread⟩ := h
  cases kind <;> cases hread
  exact .leaf rfl ⟨_, ht, rfl, rfl⟩

theorem Expr.worded_number {n : WrittenNumber} {t : Token} (h : Terminal.number.Worded ts (n, t)) :
    (Node.expr (.literal (.number n) t.span)).All (Node.Worded ts) := by
  obtain ⟨⟨kind, span, word⟩, ht, hread⟩ := h
  cases kind <;> cases hread
  exact .leaf rfl ⟨_, ht, rfl, rfl⟩

theorem Expr.worded_typeName {ty : Ty} {t : Token} (h : Terminal.typeName.Worded ts (ty, t)) :
    (Node.expr (.literal (.type ty) t.span)).All (Node.Worded ts) := by
  obtain ⟨⟨kind, span, word⟩, ht, hread⟩ := h
  cases kind <;> cases hread
  exact .leaf rfl ⟨_, ht, rfl, rfl⟩

/-- The tree of parts that are made of words is made of words. -/
theorem Nonterminal.worded_build : (n : Nonterminal) → (v : n.rule.Value) → n.rule.Worded ts v →
    n.Worded ts (n.build v)
  | item, .inl (_, _, _, _), h => fun _ => .inr h.2.2.2
  | item, .inr _, h => h
  | function, (ret, name, opening, params, closing, body), h => by
    obtain ⟨hret, -, -, hparams, -, hbody⟩ := h
    refine fun unit => .inl ⟨_, rfl, fun child hchild => ?_⟩
    simp only [Node.children, List.mem_cons, List.mem_append, List.mem_flatMap, List.mem_map,
      List.not_mem_nil, or_false] at hchild
    rcases hchild with rfl | ⟨_, ⟨param, hparam, rfl⟩, rfl | rfl⟩ | rfl
    · exact hret
    · exact .leaf rfl trivial
    · exact (hparams param hparam).2.2.1
    · exact hbody
  | statement, .inl (_, name, _, value), h => by
    have hvalue : (Node.expr value).All (Node.Worded ts) := h.2.2.2
    have hname : (Node.mark (Token.span name)).All (Node.Worded ts) := .leaf rfl trivial
    exact .intro [.mark (Token.span name), .expr value] rfl trivial (by simp [hname, hvalue])
  | statement, .inr e, h => .intro [.expr e] rfl trivial (List.forall_mem_singleton.2 h)
  | expression, _, h => h
  | term, (first, others), h => Expr.worded_grouped h.1 fun part hpart => (h.2 part hpart).2
  | factor, (first, others), h => Expr.worded_grouped h.1 fun part hpart => (h.2 part hpart).2
  | coerce, (_, none), h => h.1
  | coerce, (value, some (_, type)), h => by
    obtain ⟨hvalue, htype⟩ := h
    have htype : (Node.expr type).All (Node.Worded ts) := (htype _ rfl).2
    exact .intro [.expr value, .expr type] rfl trivial
      (List.forall_mem_cons.2 ⟨hvalue, List.forall_mem_singleton.2 htype⟩)
  | call, (_, none), h => h.1
  | call, (callee, some (opening, args, closing)), h => by
    obtain ⟨hcallee, harguments⟩ := h
    refine .intro (.expr callee :: .mark (Token.span opening) :: (args.map Prod.fst).map .expr) rfl
      trivial (List.forall_mem_cons.2 ⟨hcallee, List.forall_mem_cons.2 ⟨.leaf rfl trivial, ?_⟩⟩)
    refine List.forall_mem_map.2 fun e he => ?_
    obtain ⟨arg, harg, rfl⟩ := List.mem_map.1 he
    exact ((harguments _ rfl).2.1 arg harg).1
  | primary, .inl _, h => Expr.worded_name h
  | primary, .inr (.inl b), h => .intro [.block b] rfl trivial (List.forall_mem_singleton.2 h)
  | primary, .inr (.inr (.inl (_, _, _))), h => h.2.1
  | primary, .inr (.inr (.inr _)), h => h
  | literal, .inl (_, _), h => Expr.worded_string h
  | literal, .inr (.inl (_, _)), h => Expr.worded_number h
  | literal, .inr (.inr (_, _)), h => Expr.worded_typeName h
  | block, (_, statements, _), h =>
    .intro (statements.map .statement) rfl trivial (List.forall_mem_map.2 h.2.1)
  | typeExpr, _, h => h

/-- What is derived from some of the tokens is made of words. -/
theorem Derivation.worded {e : Phrase} (d : Derivation e) (h : d.yield ⊆ ts) :
    e.Worded ts d.value := by
  induction d with
  | word t v hread => exact ⟨t, h List.mem_cons_self, hread⟩
  | @ref n d ih => exact n.worded_build d.value (ih h)
  | seq d d' ih ih' =>
    exact ⟨ih fun t ht => h (List.mem_append_left _ ht),
      ih' fun t ht => h (List.mem_append_right _ ht)⟩
  | inl d ih => exact ih h
  | inr d ih => exact ih h
  | skip => exact nofun
  | take d ih => rintro _ ⟨⟩; exact ih h
  | done => exact nofun
  | more d ds ih ih' =>
    refine List.forall_mem_cons.2 ⟨ih fun t ht => h (List.mem_append_left _ ht), ?_⟩
    exact ih' fun t ht => h (List.mem_append_right _ ht)

end Build

/-- **The tree of a text is made of its words.** -/
theorem Item.worded_of_ofText {unit : Nat} {text : String} {items : List Item}
    (h : Item.ofText unit text = .ok items) :
    ∃ ts, Lexeme.ofText text = lexemes ts ∧ ∀ i ∈ items, i.All (Node.Worded ts) := by
  obtain ⟨d, hlexemes, -, rfl⟩ := ofText_eq_ok_iff_derivation.1 h
  refine ⟨d.yield, hlexemes, fun i hi => ?_⟩
  obtain ⟨f, hf, rfl⟩ := List.mem_map.1 hi
  exact d.worded (List.Subset.refl _) f hf unit

/-! ## Keywords for types -/

/-- The type of a keyword has a word of its own. -/
theorem Token.mem_typeNames_of_keyword? {text : String} {t : Ty}
    (h : Token.keyword? text = some (.typeName t)) : t ∈ Token.typeNames := by
  obtain ⟨before, after, hkeywords, -⟩ := List.lookup_eq_some_iff.1 h
  have hentry : (text, Token.Kind.typeName t) ∈ Token.keywords := by simp [hkeywords]
  have hname : t ∈ Token.typeNames ∧ t.name = text := by simpa [Token.keywords] using hentry
  exact hname.1

theorem Lexeme.mem_typeNames_of_cut {c : Char} {cs : List Char} {t : Ty}
    (h : (cut c cs).reading = .ok (.typeName t)) : t ∈ Token.typeNames := by
  unfold cut at h
  split at h
  · simp only [cutWord, wordKind, Except.ok.injEq] at h
    split at h
    · cases h
    · rename_i hclear
      cases hkeyword : Token.keyword? (String.ofList (c :: cs.takeWhile isNameChar)) with
      | none => rw [hkeyword] at h; cases h
      | some kind =>
        rw [hkeyword] at h
        cases h
        exact Token.mem_typeNames_of_keyword? hkeyword
  split at h
  · simp only [cutNumber, numberReading] at h
    split at h <;> cases h
  split at h
  · simp only [cutString] at h
    split at h <;> cases h
  · split at h <;> cases h

theorem Lexeme.mem_typeNames_of_scan (start : Nat) (cs : List Char) :
    ∀ l ∈ scan start cs, ∀ t, l.reading = .ok (.typeName t) → t ∈ Token.typeNames := by
  have hlaid := scan_laid start cs
  generalize scan start cs = ls at hlaid
  induction hlaid with
  | done blank => exact List.forall_mem_nil _
  | @step start gap c cs ls blank rest ih =>
    exact List.forall_mem_cons.2 ⟨fun t ht => mem_typeNames_of_cut (ofCut_ok ht), ih⟩

theorem Node.plain_of_worded {ts : List Token}
    (htypes : ∀ t ∈ ts, ∀ ty, t.kind = .typeName ty → ty ∈ Token.typeNames) {n : Node}
    (h : n.Worded ts) : n.Plain := by
  cases n with
  | expr e =>
    cases e with
    | literal l span =>
      cases l with
      | type ty =>
        obtain ⟨⟨kind, _, _⟩, ht, hliteral, -⟩ := h
        cases kind <;> cases hliteral
        exact htypes _ ht ty rfl
      | _ => trivial
    | function f => exact h
    | _ => trivial
  | _ => trivial

/-- **The tree of a text is plain.** -/
theorem Item.plain_of_ofText {unit : Nat} {text : String} {items : List Item}
    (h : Item.ofText unit text = .ok items) : ∀ i ∈ items, i.Plain := by
  obtain ⟨ts, hlexemes, hworded⟩ := worded_of_ofText h
  refine fun i hi => (hworded i hi).imp fun n => Node.plain_of_worded fun t ht ty hkind => ?_
  have hmem : t.lexeme ∈ Lexeme.ofText text := hlexemes ▸ List.mem_map_of_mem ht
  exact Lexeme.mem_typeNames_of_scan 0 text.toList t.lexeme hmem ty (congrArg Except.ok hkind)

end ExprLang
