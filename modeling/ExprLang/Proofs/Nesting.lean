import Mathlib.Data.List.Flatten
import ExprLang.Proofs.Concatenation
import ExprLang.Proofs.Tiling

/-!
# Spans nest like the tree

A node of a tree (`Node`) covers a piece of the text that goes from the start of a token to the end
of one, its children lie in this piece one behind the other, and so on down the tree
(`Node.Nested`). The items of a program lie one behind the other too (`Item.ofText_nested`).

The parts that a phrase is made of stand in a row (`Node.Row`): tokens are in order in the text, so
what is derived from some of them comes before what is derived from later ones
(`Node.Row.append`). A rule of the grammar turns such a row into a node. Its children are among the
row, and it goes from the first member to the last (`Node.Row.gather`).
-/

namespace ExprLang

open Token (lexemes)

namespace Span

/-- One span lies in another. -/
def Within (a b : Span) : Prop := b.start ≤ a.start ∧ a.stop ≤ b.stop

/-- One span lies before another. -/
def Before (a b : Span) : Prop := a.stop ≤ b.start

/-- The span is not empty and goes from the start of a token to the end of one. -/
structure CutFrom (ts : List Token) (s : Span) : Prop where
  nonempty : s.start < s.stop
  starts : ∃ t ∈ ts, t.span.start = s.start
  stops : ∃ t ∈ ts, t.span.stop = s.stop

theorem merge_of_within {a b : Span} (h : a.Within b) : a.merge b = b := by
  obtain ⟨hstart, hstop⟩ := h
  simp [merge, hstart, hstop]

namespace CutFrom

variable {ts ts' : List Token} {a b : Span}

theorem mono (h : a.CutFrom ts) (hts : ts ⊆ ts') : a.CutFrom ts' := by
  obtain ⟨hne, ⟨t, ht, hstart⟩, t', ht', hstop⟩ := h
  exact ⟨hne, ⟨t, hts ht, hstart⟩, t', hts ht', hstop⟩

theorem merge (ha : a.CutFrom ts) (hb : b.CutFrom ts) : (a.merge b).CutFrom ts := by
  refine ⟨?_, ?_, ?_⟩
  · have := ha.nonempty
    simp only [merge_start, merge_stop]
    omega
  · rcases Nat.le_total a.start b.start with h | h
    · simpa [h] using ha.starts
    · simpa [h] using hb.starts
  · rcases Nat.le_total a.stop b.stop with h | h
    · simpa [h] using hb.stops
    · simpa [h] using ha.stops

end CutFrom

end Span

/-- Tokens as a text has them: none is empty, and each lies behind the ones in front of it. -/
structure Token.InOrder (ts : List Token) : Prop where
  nonempty : ∀ t ∈ ts, t.span.start < t.span.stop
  ordered : ts.Pairwise fun t t' => t.span.Before t'.span

namespace Token.InOrder

variable {ts ts' : List Token}

theorem left (h : InOrder (ts ++ ts')) : InOrder ts :=
  ⟨fun t ht => h.nonempty t (List.mem_append_left ts' ht), (List.pairwise_append.1 h.ordered).1⟩

theorem right (h : InOrder (ts ++ ts')) : InOrder ts' :=
  ⟨fun t ht => h.nonempty t (List.mem_append_right ts ht), (List.pairwise_append.1 h.ordered).2.1⟩

/-- What is cut from tokens lies before what is cut from later ones. -/
theorem before (h : InOrder (ts ++ ts')) {a b : Span} (ha : a.CutFrom ts) (hb : b.CutFrom ts') :
    a.Before b := by
  obtain ⟨t, ht, hstop⟩ := ha.stops
  obtain ⟨t', ht', hstart⟩ := hb.starts
  have hbefore := (List.pairwise_append.1 h.ordered).2.2 t ht t' ht'
  unfold Span.Before at hbefore ⊢
  omega

theorem cutFrom (h : InOrder ts) {t : Token} (ht : t ∈ ts) : t.span.CutFrom ts :=
  ⟨h.nonempty t ht, ⟨t, ht, rfl⟩, t, ht, rfl⟩

end Token.InOrder

/-! ## Nodes -/

/-- A part of a tree that has a place in the text: an item, expression, block or statement, or a
single token, that is a name or a sign, of which only the place counts. -/
inductive Node where
  | item (i : Item)
  | expr (e : Expr)
  | block (b : Block)
  | statement (s : Statement)
  | mark (span : Span)

namespace Node

def span : Node → Span
  | item i => i.span
  | expr e => e.span
  | block b => b.span
  | statement s => s.span
  | mark s => s

/-- The parts of a node in the order of the text. -/
def children : Node → List Node
  | item i => [expr i.value]
  | expr (.literal _ _) => []
  | expr (.function f) =>
    expr f.ret ::
      (f.params.flatMap (fun p => [mark p.name.span, expr p.type]) ++ [block f.body])
  | expr (.name _) => []
  | expr (.binary _ left right) => [expr left, expr right]
  | expr (.coerce value type) => [expr value, expr type]
  | expr (.call callee args paren _) => expr callee :: mark paren :: args.map expr
  | expr (.block b) => [block b]
  | block b => b.statements.map statement
  | statement (.expr e) => [expr e]
  | statement (.const _ name value) => [mark name.span, expr value]
  | mark _ => []

/-- A node and all those below it are cut from tokens, and the children of each lie in it, one
behind the other. -/
inductive Nested (ts : List Token) : Node → Prop
  | intro {n : Node} (cut : n.span.CutFrom ts)
      (within : ∀ child ∈ n.children, child.span.Within n.span)
      (ordered : n.children.Pairwise fun child child' => child.span.Before child'.span)
      (below : ∀ child ∈ n.children, Nested ts child) :
    Nested ts n

variable {ts ts' : List Token} {n : Node} {row row' : List Node}

theorem Nested.cut (h : n.Nested ts) : n.span.CutFrom ts := by
  cases h with
  | intro cut => exact cut

theorem Nested.mono (h : n.Nested ts) (hts : ts ⊆ ts') : n.Nested ts' := by
  induction h with
  | intro cut within ordered _ ih => exact .intro (cut.mono hts) within ordered ih

/-- A node without children needs a place only. -/
theorem Nested.leaf (h : n.span.CutFrom ts) (hchildren : n.children = []) : n.Nested ts := by
  refine .intro h ?_ ?_ ?_ <;> simp [hchildren]

/-! ## Rows -/

/-- Nodes one behind the other. -/
structure Row (ts : List Token) (row : List Node) : Prop where
  nested : ∀ n ∈ row, n.Nested ts
  ordered : row.Pairwise fun n n' => n.span.Before n'.span

namespace Row

theorem nil : Row ts [] := ⟨by simp, .nil⟩

theorem single (h : n.Nested ts) : Row ts [n] := ⟨by simpa using h, by simp⟩

/-- Rows of tokens that follow each other follow each other. -/
theorem append (hts : Token.InOrder (ts ++ ts')) (h : Row ts row) (h' : Row ts' row') :
    Row (ts ++ ts') (row ++ row') := by
  refine ⟨fun n hn => ?_, List.pairwise_append.2 ⟨h.ordered, h'.ordered, fun n hn n' hn' => ?_⟩⟩
  · rcases List.mem_append.1 hn with hn | hn
    · exact (h.nested n hn).mono (List.subset_append_left ts ts')
    · exact (h'.nested n hn).mono (List.subset_append_right ts ts')
  · exact hts.before (h.nested n hn).cut (h'.nested n' hn').cut

/-- A row of which members are left out. -/
theorem sublist (h : Row ts row) (hrow : row'.Sublist row) : Row ts row' :=
  ⟨fun n hn => h.nested n (hrow.subset hn), h.ordered.sublist hrow⟩

/-- The members of a row lie between the first and the last one. -/
theorem within {first last : Node} (middle : List Node)
    (h : Row ts (first :: (middle ++ [last]))) :
    ∀ m ∈ first :: (middle ++ [last]), m.span.Within (first.span.merge last.span) := by
  intro m hm
  have hfirst := (h.nested first (by simp)).cut.nonempty
  have hlast := (h.nested last (by simp)).cut.nonempty
  have hbehind := (List.pairwise_cons.1 h.ordered).1
  have hordered := (List.pairwise_append.1 (List.pairwise_cons.1 h.ordered).2).2.2
  simp only [Span.Before, Span.Within, Span.merge_start, Span.merge_stop] at hbehind hordered ⊢
  have hends := hbehind last (by simp)
  simp only [List.mem_cons, List.mem_append, List.not_mem_nil, or_false] at hm
  rcases hm with rfl | hm | rfl
  · omega
  · have hstart := hbehind m (by simp [hm])
    have hstop := hordered m hm last (by simp)
    omega
  · omega

/-- A node is made of the front of a row: it goes from the first member to the last, and its
children are among them. -/
theorem gather {first last : Node} (middle : List Node)
    (h : Row ts (first :: (middle ++ last :: row))) (hspan : n.span = first.span.merge last.span)
    (hchildren : n.children.Sublist (first :: (middle ++ [last]))) : Row ts (n :: row) := by
  have hsplit : first :: (middle ++ last :: row) = (first :: (middle ++ [last])) ++ row := by simp
  rw [hsplit] at h
  have hpart := h.sublist (List.sublist_append_left _ row)
  have hfirst : first ∈ first :: (middle ++ [last]) := by simp
  have hlast : last ∈ first :: (middle ++ [last]) := by simp
  have hrow := hpart.sublist hchildren
  have hnested : n.Nested ts := by
    refine .intro ?_ ?_ hrow.ordered hrow.nested
    · rw [hspan]
      exact (hpart.nested first hfirst).cut.merge (hpart.nested last hlast).cut
    · intro child hchild
      rw [hspan]
      exact within middle hpart child (hchildren.subset hchild)
  obtain ⟨-, hrest, hbefore⟩ := List.pairwise_append.1 h.ordered
  refine ⟨fun m hm => ?_, List.pairwise_cons.2 ⟨fun m hm => ?_, hrest⟩⟩
  · rcases List.mem_cons.1 hm with rfl | hm
    · exact hnested
    · exact h.nested m (List.mem_append_right _ hm)
  · have hfirstBefore := hbefore first hfirst m hm
    have hlastBefore := hbefore last hlast m hm
    simp only [Span.Before, hspan, Span.merge_stop] at hfirstBefore hlastBefore ⊢
    omega

/-- A token that is a node of its own. -/
theorem leaf (h : Row ts [mark n.span]) (hchildren : n.children = []) : Row ts [n] :=
  .single (.leaf (h.nested _ List.mem_cons_self).cut hchildren)

/-- A node around another one that covers the same text. -/
theorem around {child : Node} (h : Row ts [child]) (hspan : n.span = child.span)
    (hchildren : n.children = [child]) : Row ts [n] := by
  have hchild : child.Nested ts := h.nested child List.mem_cons_self
  apply single
  apply Nested.intro
  · rw [hspan]
    exact hchild.cut
  · simp [hchildren, hspan, Span.Within]
  · simp [hchildren]
  · simpa [hchildren] using hchild

/-- Operators that group to the left take the front of the row, one operand after the other. -/
theorem grouped (op op' : Operator) {first : Expr} {others : List ((Token ⊕ Token) × Expr)}
    (h : Row ts (expr first ::
      others.flatMap fun part => [mark (part.1.elim Token.span Token.span), expr part.2])) :
    Row ts [expr (Expr.grouped op op' first others)] := by
  induction others generalizing first with
  | nil => exact h
  | cons part others ih =>
    obtain ⟨side, e⟩ := part
    apply ih
    apply gather [mark (side.elim Token.span Token.span)] h rfl
    simp [children]

theorem coerce {value type : Expr} {sign : Span} (h : Row ts [expr value, mark sign, expr type]) :
    Row ts [expr (.coerce value type)] := by
  refine gather [mark sign] h rfl ?_
  simp [children]

theorem call {α : Type} {callee : Expr} {args : List α} {value : α → Expr} {paren close : Span}
    {nodes : α → List Node}
    (h : Row ts (expr callee :: ((mark paren :: args.flatMap nodes) ++ [mark close])))
    (hargs : ∀ arg, [expr (value arg)].Sublist (nodes arg)) :
    Row ts [expr (.call callee (args.map value) paren close)] := by
  apply gather _ h rfl
  simp only [children, List.map_map, List.cons_append, List.cons_sublist_cons]
  rw [List.map_eq_flatMap]
  exact (List.Sublist.flatMap_right args fun arg _ => hargs arg).trans
    (List.sublist_append_left _ _)

theorem block {statements : List Statement} {opening closing : Span}
    (h : Row ts (mark opening :: (statements.map statement ++ [mark closing]))) :
    Row ts [block ⟨statements, opening.merge closing⟩] := by
  apply gather _ h rfl
  exact (List.sublist_append_left _ _).cons _

theorem constStatement {keyword equals : Span} {name : Ident} {value : Expr}
    (h : Row ts [mark keyword, mark name.span, mark equals, expr value]) :
    Row ts [statement (.const keyword name value)] := by
  refine gather [mark name.span, mark equals] h rfl ?_
  simp [children]

theorem constItem {keyword equals : Span} {name : Ident} {value : Expr}
    (h : Row ts [mark keyword, mark name.span, mark equals, expr value]) :
    Row ts [item ⟨name, value⟩] := by
  refine gather [mark equals] (h.sublist (List.sublist_cons_self _ _)) rfl ?_
  simp [children]

/-- The name of a function stands between its return type and its body. -/
theorem functionItem {α : Type} {unit : Nat} {ret : Expr} {name : Ident} {opening closing : Span}
    {params : List α} {param : α → Param} {body : Block} {nodes : α → List Node}
    (h : Row ts (expr ret :: mark name.span :: mark opening ::
      (params.flatMap nodes ++ [mark closing, .block body])))
    (hparams : ∀ p, [mark (param p).name.span, expr (param p).type].Sublist (nodes p)) :
    Row ts [item ⟨name, .function ⟨unit, ret, params.map param, body⟩⟩] := by
  rw [show params.flatMap nodes ++ [mark closing, .block body] =
    (params.flatMap nodes ++ [mark closing]) ++ [.block body] by simp] at h
  have hname := within (mark name.span :: mark opening :: _) h (mark name.span) (by simp)
  have hfunction : Row ts [expr (.function ⟨unit, ret, params.map param, body⟩)] := by
    apply gather (mark name.span :: mark opening :: _) h rfl
    simp only [children, List.cons_append, List.cons_sublist_cons, List.flatMap_map]
    apply List.Sublist.cons
    apply List.Sublist.cons
    have hsublist := List.Sublist.flatMap_right params fun p _ => hparams p
    exact (hsublist.trans (List.sublist_append_left _ _)).append (.refl _)
  exact hfunction.around (Span.merge_of_within hname) rfl

end Row

end Node

/-! ## Rows of phrases -/

def Terminal.place : (w : Terminal) → w.Value → Span
  | exactly _, t => Token.span t
  | string, (_, t) => t.span
  | number, (_, t) => t.span
  | typeName, (_, t) => t.span

/-- The node that the tree of a nonterminal is, in the text of a number. -/
def Nonterminal.node (unit : Nat) : (n : Nonterminal) → n.Tree → Node
  | item, f => .item (f unit)
  | function, f => .item (f unit)
  | statement, s => .statement s
  | block, b => .block b
  | expression, e => .expr e
  | term, e => .expr e
  | factor, e => .expr e
  | coerce, e => .expr e
  | call, e => .expr e
  | primary, e => .expr e
  | literal, e => .expr e
  | typeExpr, e => .expr e

/-- The nodes that a phrase is made of. -/
def Phrase.nodes (unit : Nat) : (e : Phrase) → e.Value → List Node
  | word w, v => [.mark (w.place v)]
  | ref n, v => [n.node unit v]
  | seq a b, v => a.nodes unit v.1 ++ b.nodes unit v.2
  | alt a b, v => v.elim (a.nodes unit) (b.nodes unit)
  | opt a, v => v.elim [] (a.nodes unit)
  | many a, vs => vs.flatMap (a.nodes unit)

theorem Terminal.place_of_read {w : Terminal} {t : Token} {v : w.Value} (h : w.read t = some v) :
    w.place v = t.span := by
  cases w with
  | exactly kind =>
    by_cases hkind : t.kind = kind
    · rw [read, if_pos hkind] at h
      cases h
      rfl
    · rw [read, if_neg hkind] at h
      cases h
  | _ =>
    obtain ⟨kind, span, text⟩ := t
    cases kind <;> cases h
    rfl

/-- The nodes of operands with operators between them. -/
theorem Phrase.nodes_levelled (unit : Nat) (s s' : Symbol) (operand : Nonterminal)
    (first : operand.Tree) (others : List ((Token ⊕ Token) × operand.Tree)) :
    (Phrase.levelled s s' operand).nodes unit (first, others) =
      operand.node unit first :: others.flatMap fun part =>
        [.mark (part.1.elim Token.span Token.span), operand.node unit part.2] := by
  refine congrArg _ (congrArg (fun f => others.flatMap f) (funext fun part => ?_))
  obtain ⟨side, e⟩ := part
  cases side <;> rfl

/-- The tree of a nonterminal is a node that is made of those of its rule. -/
theorem Nonterminal.row_build {ts : List Token} (unit : Nat) : (n : Nonterminal) →
    (v : n.rule.Value) → Node.Row ts (n.rule.nodes unit v) →
    Node.Row ts [n.node unit (n.build v)]
  | item, .inl (_, name, _, _), h => @Node.Row.constItem _ _ _ (Token.ident name) _ h
  | item, .inr _, h => h
  | function, (ret, name, opening, params, closing, body), h => by
    refine @Node.Row.functionItem _ _ unit ret (Token.ident name) _ _ params _ body
      (Phrase.param.nodes unit) h fun (_, _, type, _) => ?_
    exact ((List.sublist_append_left [Node.expr type] _).cons _).cons_cons _
  | statement, .inl (_, name, _, _), h => @Node.Row.constStatement _ _ _ (Token.ident name) _ h
  | statement, .inr _, h => h.around rfl rfl
  | expression, _, h => h
  | term, (first, others), h => by
    have h' := Phrase.nodes_levelled unit .plus .minus factor first others ▸ h
    exact h'.grouped .add .sub
  | factor, (first, others), h => by
    have h' := Phrase.nodes_levelled unit .star .slash coerce first others ▸ h
    exact h'.grouped .mul .div
  | coerce, (_, none), h => h
  | coerce, (_, some (_, _)), h => Node.Row.coerce h
  | call, (_, none), h => h
  | call, (_, some (opening, args, closing)), h => by
    refine @Node.Row.call _ _ _ args Prod.fst _ _ (Phrase.argument.nodes unit) h fun arg => ?_
    exact List.sublist_append_left _ _
  | primary, .inl _, h => h.leaf rfl
  | primary, .inr (.inl _), h => h.around rfl rfl
  | primary, .inr (.inr (.inl (_, e, _))), h =>
    h.sublist ((List.sublist_append_left [Node.expr e] _).cons _)
  | primary, .inr (.inr (.inr _)), h => h
  | literal, .inl (_, _), h => h.leaf rfl
  | literal, .inr (.inl (_, _)), h => h.leaf rfl
  | literal, .inr (.inr (_, _)), h => h.leaf rfl
  | block, (opening, statements, closing), h => by
    apply Node.Row.block
    rw [List.map_eq_flatMap]
    exact h
  | typeExpr, _, h => h

/-- The nodes that tokens in order derive stand in a row. -/
theorem Derivation.row {e : Phrase} (unit : Nat) (d : Derivation e) (h : Token.InOrder d.yield) :
    Node.Row d.yield (e.nodes unit d.value) := by
  induction d with
  | word t v hread =>
    have hcut := h.cutFrom List.mem_cons_self
    rw [← Terminal.place_of_read hread] at hcut
    exact .single (.leaf hcut rfl)
  | @ref n d ih => exact n.row_build unit d.value (ih h)
  | seq d d' ih ih' => exact .append h (ih h.left) (ih' h.right)
  | inl d ih => exact ih h
  | inr d ih => exact ih h
  | skip => exact .nil
  | take d ih => exact ih h
  | done => exact .nil
  | more d ds ih ih' => exact .append h (ih h.left) (ih' h.right)

/-- The tokens of a text are in order. -/
theorem Token.inOrder_of_ofText {text : String} {ts : List Token}
    (h : Lexeme.ofText text = lexemes ts) : InOrder ts := by
  have hlaid := Lexeme.scan_laid 0 text.toList
  have hscan : Lexeme.scan 0 text.toList = lexemes ts := h
  rw [hscan] at hlaid
  refine ⟨fun t ht => hlaid.nonempty t.lexeme (List.mem_map_of_mem ht), ?_⟩
  have hordered := hlaid.ordered
  rw [lexemes, List.pairwise_map] at hordered
  exact hordered

/-- **Spans nest like the tree.** Every node of a program is cut from the tokens of its text, its
children lie in it one behind the other, and the items of the program lie one behind the other. -/
theorem Item.ofText_nested {unit : Nat} {text : String} {items : List Item}
    (h : Item.ofText unit text = .ok items) :
    ∃ ts, Token.ofText text = .ok ts ∧ (∀ i ∈ items, (Node.item i).Nested ts) ∧
      items.Pairwise fun i j => i.span.Before j.span := by
  obtain ⟨d, hlexemes, -, rfl⟩ := ofText_eq_ok_iff_derivation.1 h
  have hrow := d.row unit (Token.inOrder_of_ofText hlexemes)
  have hnodes : Phrase.program.nodes unit d.value = (d.items unit).map Node.item := by
    rw [Derivation.items, List.map_map, List.map_eq_flatMap]
    rfl
  rw [hnodes] at hrow
  have hordered := hrow.ordered
  rw [List.pairwise_map] at hordered
  refine ⟨d.yield, Token.ofText_iff_scan.2 hlexemes, fun i hi => ?_, hordered⟩
  exact hrow.nested (.item i) (List.mem_map_of_mem hi)

/-- A product that starts behind a parenthesis, a call, and a block in the place of a type. -/
theorem Item.ofText_nested_parenthesized :
    ∃ items ts, Item.ofText 0 "const a = (b + c) * f(d) {u8} f(x: u8) { const y = x y }" =
        .ok items ∧ items.length = 2 ∧
      Token.ofText "const a = (b + c) * f(d) {u8} f(x: u8) { const y = x y }" = .ok ts ∧
      (∀ i ∈ items, (Node.item i).Nested ts) ∧ items.Pairwise fun i j => i.span.Before j.span := by
  have hcount : (Item.ofText 0
      "const a = (b + c) * f(d) {u8} f(x: u8) { const y = x y }").toOption.map List.length =
        some 2 := by decide +kernel
  obtain ⟨items, hsome, hlength⟩ := Option.map_eq_some_iff.1 hcount
  have hitems := eq_ok_of_toOption hsome
  obtain ⟨ts, hts, hnested, hordered⟩ := Item.ofText_nested hitems
  exact ⟨items, ts, hitems, hlength, hts, hnested, hordered⟩

end ExprLang
