import ExprLang.Expr.Parser

/-!
# Where spans lie

A span *lies in* a text if its ends are in order and stand between characters of the text
(`Span.LiesIn`). The lexer cuts a text at such places only (`Lexeme.ofText_placed`), and the parser
makes new spans by merging old ones. So whatever set of spans contains those of the lexemes and the
end of the text, and is closed under merging, contains every span of a parsed program and of a
diagnostic about the text (`Item.ofText_placed`). `Expr.Placed` says this of a tree.
-/

namespace ExprLang

namespace Text

/-- An offset between two characters of a text, or at one of its ends. -/
def IsBoundary (text : List Char) (n : Nat) : Prop :=
  ∃ before after, text = before ++ after ∧ byteSize before = n

theorem isBoundary_zero (text : List Char) : IsBoundary text 0 := ⟨[], text, rfl, rfl⟩

theorem isBoundary_byteSize (text : List Char) : IsBoundary text (byteSize text) :=
  ⟨text, [], by simp, rfl⟩

/-- No boundary is behind the end. -/
theorem IsBoundary.le {text : List Char} {n : Nat} (h : IsBoundary text n) : n ≤ byteSize text := by
  obtain ⟨before, after, rfl, rfl⟩ := h
  simp

/-- The bytes of a text are counted by its characters. -/
theorem byteSize_toList (text : String) : byteSize text.toList = text.utf8ByteSize := by
  have hlist : ∀ cs : List Char, byteSize cs = (String.ofList cs).utf8ByteSize := by
    intro cs
    induction cs with
    | nil => rfl
    | cons c cs ih =>
      rw [byteSize_cons, String.ofList_cons, String.utf8ByteSize_append,
        String.utf8ByteSize_singleton, ih]
  rw [hlist, String.ofList_toList]

end Text

/-- The ends of a span are in order, in a text and between its characters. -/
structure Span.LiesIn (s : Span) (text : List Char) : Prop where
  start_le : s.start ≤ s.stop
  stop_le : s.stop ≤ Text.byteSize text
  start_boundary : Text.IsBoundary text s.start
  stop_boundary : Text.IsBoundary text s.stop

namespace Span.LiesIn

variable {text : List Char}

/-- Each end of a merged span is one of an end before. -/
theorem merge {a b : Span} (ha : a.LiesIn text) (hb : b.LiesIn text) :
    (a.merge b).LiesIn text := by
  have hstart : (a.merge b).start = a.start ∨ (a.merge b).start = b.start := by
    simp only [merge_start]; omega
  have hstop : (a.merge b).stop = a.stop ∨ (a.merge b).stop = b.stop := by
    simp only [merge_stop]; omega
  have hle := ha.start_le
  have hle' := ha.stop_le
  have hle'' := hb.stop_le
  refine ⟨by simp only [merge_start, merge_stop]; omega, by simp only [merge_stop]; omega, ?_, ?_⟩
  · rcases hstart with h | h <;> rw [h]
    · exact ha.start_boundary
    · exact hb.start_boundary
  · rcases hstop with h | h <;> rw [h]
    · exact ha.stop_boundary
    · exact hb.stop_boundary

theorem point {n : Nat} (h : Text.IsBoundary text n) : (Span.point n).LiesIn text :=
  ⟨Nat.le_refl n, h.le, h, h⟩

theorem origin : Span.origin.LiesIn text := point (Text.isBoundary_zero text)

/-- A piece of a text, from its first byte on to its last. -/
theorem piece (before cs after : List Char) :
    (Span.mk (Text.byteSize before) (Text.byteSize before + Text.byteSize cs)).LiesIn
      (before ++ cs ++ after) := by
  refine ⟨by simp, by simp, ⟨before, cs ++ after, by simp, rfl⟩, ⟨before ++ cs, after, rfl, ?_⟩⟩
  simp

end Span.LiesIn

/-! ## Lexemes -/

namespace Lexeme

/-- The span of a lexeme, and that of its problem if it has one. -/
structure Placed (P : Span → Prop) (l : Lexeme) : Prop where
  span : P l.span
  problem : ∀ d, l.reading = .error d → P d.span

/-- A token stands where its lexeme does. -/
theorem Placed.token {P : Span → Prop} {l : Lexeme} (h : l.Placed P) {t : Token}
    (ht : l.token = .ok t) : P t.span := by
  obtain ⟨span, text, reading⟩ := l
  cases reading with
  | ok kind => cases ht; exact h.span
  | error d => cases ht

theorem Placed.error {P : Span → Prop} {l : Lexeme} (h : l.Placed P) {d : Diagnostic}
    (hd : l.token = .error d) : P d.span := by
  obtain ⟨span, text, reading⟩ := l
  cases reading with
  | ok kind => cases hd
  | error _ => cases hd; exact h.problem d rfl

/-- The lexeme of a step at the start of a text. -/
theorem ofCut_zero {step : Cut} {kind : Token.Kind} (h : step.reading = .ok kind) :
    ofCut 0 step =
      ⟨⟨0, (String.ofList step.taken).utf8ByteSize⟩, String.ofList step.taken, .ok kind⟩ := by
  rw [ofCut, h, Nat.zero_add, ← Text.byteSize_toList, String.toList_ofList]
  rfl

/-- The lexeme of a step stands where the characters do that the step takes. -/
theorem ofCut_placed (before after : List Char) (step : Cut) :
    (ofCut (Text.byteSize before) step).Placed
      (Span.LiesIn · (before ++ step.taken ++ after)) := by
  have hspan := Span.LiesIn.piece before step.taken after
  refine ⟨hspan, fun d hd => ?_⟩
  obtain ⟨-, hplace⟩ := ofCut_error hd
  rw [hplace]
  split
  · exact .point hspan.stop_boundary
  · exact hspan

/-- Lexemes stand in the text from the place on where lexing starts. -/
theorem scan_placed (before cs : List Char) :
    ∀ l ∈ scan (Text.byteSize before) cs, l.Placed (Span.LiesIn · (before ++ cs)) := by
  generalize hn : cs.length = n
  -- What is left gets shorter by at least one character with each step.
  induction n using Nat.strongRecOn generalizing before cs with
  | ind n ih =>
    intro l hl
    cases cs with
    | nil => simp [scan] at hl
    | cons c cs =>
      simp only [List.length_cons] at hn
      rw [scan] at hl
      split at hl
      · have hstart : Text.byteSize before + c.utf8Size = Text.byteSize (before ++ [c]) := by simp
        rw [hstart] at hl
        have hrest := ih cs.length (by omega) (before ++ [c]) cs rfl l hl
        simpa using hrest
      · have hcut := cut_taken_append_rest c cs
        rcases List.mem_cons.1 hl with rfl | hl
        · have hplaced := ofCut_placed before (cut c cs).rest (cut c cs)
          rwa [List.append_assoc, hcut] at hplaced
        · have hshorter := cut_rest_length_le c cs
          have hstart : Text.byteSize before + Text.byteSize (cut c cs).taken =
              Text.byteSize (before ++ (cut c cs).taken) := by simp
          rw [hstart] at hl
          have hrest := ih (cut c cs).rest.length (by omega) (before ++ (cut c cs).taken)
            (cut c cs).rest rfl l hl
          rwa [List.append_assoc, hcut] at hrest

/-- Every lexeme of a text and every problem of one lies in the text. -/
theorem ofText_placed (text : String) :
    ∀ l ∈ ofText text, l.Placed (Span.LiesIn · text.toList) :=
  scan_placed [] text.toList

end Lexeme

/-! ## Trees -/

section Trees

variable (P : Span → Prop)

-- All spans of a tree, one constructor for each kind of node.
mutual

inductive Expr.Placed : Expr → Prop
  | literal {value : Literal} {span : Span} (h : P span) : Expr.Placed (.literal value span)
  | function {f : Lambda} (h : Lambda.Placed f) : Expr.Placed (.function f)
  | name {id : Ident} (h : P id.span) : Expr.Placed (.name id)
  | binary {op : Operator} {left right : Expr} (l : Expr.Placed left) (r : Expr.Placed right) :
    Expr.Placed (.binary op left right)
  | coerce {value type : Expr} (v : Expr.Placed value) (t : Expr.Placed type) :
    Expr.Placed (.coerce value type)
  | call {callee : Expr} {args : List Expr} {paren close : Span} (c : Expr.Placed callee)
      (as : ∀ e ∈ args, Expr.Placed e) (p : P paren) (q : P close) :
    Expr.Placed (.call callee args paren close)
  | block {b : Block} (h : Block.Placed b) : Expr.Placed (.block b)

inductive Lambda.Placed : Lambda → Prop
  | intro {unit : Nat} {ret : Expr} {params : List Param} {body : Block} (r : Expr.Placed ret)
      (ps : ∀ p ∈ params, Param.Placed p) (b : Block.Placed body) :
    Lambda.Placed ⟨unit, ret, params, body⟩

inductive Param.Placed : Param → Prop
  | intro {name : Ident} {type : Expr} (n : P name.span) (t : Expr.Placed type) :
    Param.Placed ⟨name, type⟩

inductive Block.Placed : Block → Prop
  | intro {statements : List Statement} {span : Span}
      (ss : ∀ s ∈ statements, Statement.Placed s) (h : P span) : Block.Placed ⟨statements, span⟩

inductive Statement.Placed : Statement → Prop
  | expr {e : Expr} (h : Expr.Placed e) : Statement.Placed (.expr e)
  | const {keyword : Span} {name : Ident} {value : Expr} (k : P keyword) (n : P name.span)
      (v : Expr.Placed value) : Statement.Placed (.const keyword name value)

end

/-- The spans of an item: that of its name, and those of its value. -/
structure Item.Placed (i : Item) : Prop where
  name : P i.name.span
  value : i.value.Placed P

variable {P} (hmerge : ∀ {a b : Span}, P a → P b → P (a.merge b))

include hmerge

/-- The span of an expression is made by merging those it holds. -/
theorem Expr.Placed.span : ∀ {e : Expr}, e.Placed P → P e.span
  | .literal _ _, .literal h => h
  | .function ⟨_, _, _, ⟨_, _⟩⟩, .function (.intro r _ (.intro _ h)) =>
    hmerge (Expr.Placed.span r) h
  | .name _, .name h => h
  | .binary _ _ _, .binary l r => hmerge (Expr.Placed.span l) (Expr.Placed.span r)
  | .coerce _ _, .coerce v t => hmerge (Expr.Placed.span v) (Expr.Placed.span t)
  | .call _ _ _ _, .call c _ _ q => hmerge (Expr.Placed.span c) q
  | .block ⟨_, _⟩, .block (.intro _ h) => h

theorem Statement.Placed.span {s : Statement} (h : s.Placed P) : P s.span := by
  cases h with
  | expr h => exact h.span hmerge
  | const k n v => exact hmerge k (v.span hmerge)

/-- The result of a block comes from a statement of it, or from the block itself. -/
theorem Block.Placed.resultSpan {b : Block} (h : b.Placed P) : P b.resultSpan := by
  obtain ⟨hstatements, hspan⟩ := h
  rename_i statements span
  unfold Block.resultSpan
  cases hlast : statements.getLast? with
  | none => exact hspan
  | some s => exact (hstatements s (List.mem_of_getLast? hlast)).span hmerge

end Trees

/-! ## Parsers -/

namespace Parser

variable {α β : Type} (P : Span → Prop)

/-- A result that is as it should be, or a diagnostic at a span of the set, in front of lexemes at
spans of the set. -/
inductive Outcome (good : α → Prop) : Except Diagnostic α × List Lexeme → Prop
  | ok {a : α} {rest : List Lexeme} (h : good a) (ls : ∀ l ∈ rest, l.Placed P) :
    Outcome good (.ok a, rest)
  | error {d : Diagnostic} {rest : List Lexeme} (h : P d.span) (ls : ∀ l ∈ rest, l.Placed P) :
    Outcome good (.error d, rest)

/-- On lexemes at spans of the set a parser ends well. -/
def Keeps (source : Source) (good : α → Prop) (p : Parser α) : Prop :=
  ∀ ls : List Lexeme, (∀ l ∈ ls, l.Placed P) → Outcome P good (p source ls)

variable {P} {source : Source} {good : α → Prop} {good' : β → Prop}

namespace Keeps

theorem pure {a : α} (h : good a) : Keeps P source good (pure a) := fun _ hls => .ok h hls

theorem fail {d : Diagnostic} (h : P d.span) : Keeps P source good (fail d) :=
  fun _ hls => .error h hls

/-- One parser after another ends well if the second does behind each good result of the first. -/
theorem bind {p : Parser α} {q : α → Parser β} (hp : Keeps P source good p)
    (hq : ∀ a, good a → Keeps P source good' (q a)) : Keeps P source good' (p >>= q) := by
  intro ls hls
  have h := hp ls hls
  generalize hresult : p source ls = result at h
  cases h with
  | ok ha hrest =>
    rw [bind_of_ok hresult]
    exact hq _ ha _ hrest
  | error hd hrest =>
    rw [bind_of_error hresult]
    exact .error hd hrest

end Keeps

/-- Looking at a lexeme that reads as a problem uses it up and gives the problem. -/
theorem peekKind_keeps : Keeps P source (fun _ => True) peekKind := by
  have hpeek : Keeps P source (fun _ => True) peek := by
    intro ls hls
    cases ls with
    | nil => exact .ok trivial hls
    | cons l rest =>
      have hrest : ∀ l ∈ rest, l.Placed P := fun l hl => hls l (List.mem_cons_of_mem _ hl)
      simp only [peek]
      cases htoken : l.token with
      | ok t => exact .ok trivial hls
      | error d => exact .error ((hls l List.mem_cons_self).error htoken) hrest
  exact hpeek.bind fun _ _ => .pure trivial

theorem sees_keeps (kind : Token.Kind) : Keeps P source (fun _ => True) (sees kind) :=
  peekKind_keeps.bind fun _ _ => .pure trivial

variable (heof : P (Span.point source.eof))

include heof

theorem failAtEnd_keeps : Keeps P source good failAtEnd := fun _ hls => .error heof hls

theorem next_keeps : Keeps P source (fun t => P t.span) next := by
  intro ls hls
  cases ls with
  | nil => exact .error heof hls
  | cons l rest =>
    have hrest : ∀ l ∈ rest, l.Placed P := fun l hl => hls l (List.mem_cons_of_mem _ hl)
    have hl := hls l List.mem_cons_self
    simp only [next]
    cases htoken : l.token with
    | ok t => exact .ok (hl.token htoken) hrest
    | error d => exact .error (hl.error htoken) hrest

theorem accept_keeps (kind : Token.Kind) : Keeps P source (fun _ => True) (accept kind) := by
  refine (sees_keeps kind).bind fun seen _ => ?_
  cases seen with
  | true => exact (next_keeps heof).bind fun _ _ => .pure trivial
  | false => exact .pure trivial

/-- An unexpected token is reported where it stands. -/
theorem expect_keeps (kind : Token.Kind) (wanted : Wanted) :
    Keeps P source (fun t => P t.span) (expect kind wanted) := by
  refine (next_keeps heof).bind fun t ht => ?_
  by_cases h : t.kind = kind
  · rw [if_pos h]; exact .pure ht
  · rw [if_neg h]; exact .fail ht

theorem identifier_keeps : Keeps P source (fun id => P id.span) identifier := by
  refine (next_keeps heof).bind fun t ht => ?_
  by_cases h : t.kind = .identifier
  · rw [if_pos h]; exact .pure ht
  · rw [if_neg h]; exact .fail ht

/-- All elements of a loop are good if each one is. -/
theorem untilSymbol_keeps {close : Symbol} {element : Parser α}
    (helement : Keeps P source good element) (bound : Nat) :
    Keeps P source (fun as => ∀ a ∈ as, good a) (untilSymbol close element bound) := by
  induction bound with
  | zero => exact failAtEnd_keeps heof
  | succ bound ih =>
    refine (sees_keeps _).bind fun seen _ => ?_
    cases seen with
    | true => exact .pure fun a ha => nomatch ha
    | false =>
      refine helement.bind fun first hfirst => ih.bind fun others hothers => .pure ?_
      intro a ha
      rcases List.mem_cons.1 ha with rfl | ha
      · exact hfirst
      · exact hothers a ha

theorem optionalComma_keeps : Keeps P source (fun _ => True) optionalComma :=
  (accept_keeps heof _).bind fun _ _ => .pure trivial

/-- A chain is placed with what is to the left of it. -/
theorem chain_keeps {level : Token.Kind → Option Operator} {operand : Parser Expr}
    (hoperand : Keeps P source (Expr.Placed P) operand) (bound : Nat) {left : Expr}
    (hleft : left.Placed P) : Keeps P source (Expr.Placed P) (chain level operand bound left) := by
  induction bound generalizing left with
  | zero => exact .pure hleft
  | succ bound ih =>
    have hoperator : Keeps P source (fun _ => True) (operator level) := by
      refine peekKind_keeps.bind fun found _ => ?_
      cases found.bind level with
      | some op => exact (next_keeps heof).bind fun _ _ => .pure trivial
      | none => exact .pure trivial
    refine hoperator.bind fun op _ => ?_
    cases op with
    | some op => exact hoperand.bind fun right hright => ih (.binary hleft hright)
    | none => exact .pure hleft

theorem literal_keeps : Keeps P source (Expr.Placed P) literal := by
  refine (next_keeps heof).bind fun t ht => ?_
  cases literalOf t.kind with
  | some value => exact .pure (.literal ht)
  | none => exact .fail ht

variable (hmerge : ∀ {a b : Span}, P a → P b → P (a.merge b))

section Nested

variable {nested : Parser Expr} (hnested : Keeps P source (Expr.Placed P) nested)

include hnested

/-- A binding gives a keyword, a name and a value that are placed. -/
theorem binding_keeps :
    Keeps P source (fun v => P v.1 ∧ P v.2.1.span ∧ v.2.2.Placed P) (binding nested) := by
  refine (next_keeps heof).bind fun keyword hkeyword => ?_
  refine (identifier_keeps heof).bind fun name hname => ?_
  refine (expect_keeps heof _ _).bind fun _ _ => ?_
  exact hnested.bind fun value hvalue => .pure ⟨hkeyword, hname, hvalue⟩

theorem statement_keeps : Keeps P source (Statement.Placed P) (statement nested) := by
  refine (sees_keeps _).bind fun seen _ => ?_
  cases seen with
  | true =>
    refine (binding_keeps heof hnested).bind ?_
    rintro ⟨keyword, name, value⟩ ⟨hkeyword, hname, hvalue⟩
    exact .pure (.const hkeyword hname hvalue)
  | false => exact hnested.bind fun e he => .pure (.expr he)

include hmerge

/-- The span of a block is merged of those of its braces. -/
theorem block_keeps (bound : Nat) : Keeps P source (Block.Placed P) (block nested bound) := by
  refine (expect_keeps heof _ _).bind fun opening hopening => ?_
  refine (untilSymbol_keeps heof (statement_keeps heof hnested) bound).bind fun ss hss => ?_
  refine (expect_keeps heof _ _).bind fun closing hclosing => ?_
  exact .pure (.intro hss (hmerge hopening hclosing))

theorem primary_keeps (bound : Nat) : Keeps P source (Expr.Placed P) (primary nested bound) := by
  refine peekKind_keeps.bind fun found _ => ?_
  split
  · exact failAtEnd_keeps heof
  · exact (identifier_keeps heof).bind fun name hname => .pure (.name hname)
  · exact (block_keeps heof hmerge hnested bound).bind fun b hb => .pure (.block hb)
  · refine (next_keeps heof).bind fun _ _ => hnested.bind fun e he => ?_
    exact (expect_keeps heof _ _).bind fun _ _ => .pure he
  · exact literal_keeps heof

/-- A literal in the place of a type is reported at its own span. -/
theorem typeExpr_keeps (bound : Nat) : Keeps P source (Expr.Placed P) (typeExpr nested bound) := by
  refine (primary_keeps heof hmerge hnested bound).bind fun e he => ?_
  cases misplacedLiteral e with
  | some t => exact .fail (he.span hmerge)
  | none => exact .pure he

theorem called_keeps (bound : Nat) : Keeps P source (Expr.Placed P) (called nested bound) := by
  refine (primary_keeps heof hmerge hnested bound).bind fun callee hcallee => ?_
  refine (sees_keeps _).bind fun seen _ => ?_
  cases seen with
  | true =>
    have hargument : Keeps P source (Expr.Placed P) (argument nested) :=
      hnested.bind fun e he => (optionalComma_keeps heof).bind fun _ _ => .pure he
    refine (next_keeps heof).bind fun paren hparen => ?_
    refine (untilSymbol_keeps heof hargument bound).bind fun args hargs => ?_
    exact (expect_keeps heof _ _).bind fun close hclose =>
      .pure (.call hcallee hargs hparen hclose)
  | false => exact .pure hcallee

theorem coerced_keeps (bound : Nat) : Keeps P source (Expr.Placed P) (coerced nested bound) := by
  refine (called_keeps heof hmerge hnested bound).bind fun value hvalue => ?_
  refine (accept_keeps heof _).bind fun seen _ => ?_
  cases seen with
  | true =>
    exact (typeExpr_keeps heof hmerge hnested bound).bind fun type htype =>
      .pure (.coerce hvalue htype)
  | false => exact .pure hvalue

theorem sum_keeps (bound : Nat) : Keeps P source (Expr.Placed P) (sum nested bound) := by
  have hcoerced := coerced_keeps heof hmerge hnested bound
  have hfactor : Keeps P source (Expr.Placed P) (factor nested bound) :=
    hcoerced.bind fun first hfirst => chain_keeps heof hcoerced bound hfirst
  exact hfactor.bind fun first hfirst => chain_keeps heof hfactor bound hfirst

end Nested

include hmerge

/-- Expressions of every nesting are placed, by induction on the bound. -/
theorem expression_keeps (bound : Nat) : Keeps P source (Expr.Placed P) (expression bound) := by
  induction bound with
  | zero => exact failAtEnd_keeps heof
  | succ bound ih => exact sum_keeps heof hmerge ih bound

theorem param_keeps (bound : Nat) : Keeps P source (Param.Placed P) (param bound) := by
  have hexpression := expression_keeps heof hmerge bound
  refine (identifier_keeps heof).bind fun name hname => ?_
  refine (expect_keeps heof _ _).bind fun _ _ => ?_
  refine (typeExpr_keeps heof hmerge hexpression bound).bind fun type htype => ?_
  exact (optionalComma_keeps heof).bind fun _ _ => .pure (.intro hname htype)

/-- A function is placed with its return type, its parameters and its body. -/
theorem function_keeps (bound : Nat) : Keeps P source (Item.Placed P) (function bound) := by
  have hexpression := expression_keeps heof hmerge bound
  refine (typeExpr_keeps heof hmerge hexpression bound).bind fun ret hret => ?_
  refine (identifier_keeps heof).bind fun name hname => ?_
  refine (expect_keeps heof _ _).bind fun _ _ => ?_
  refine (untilSymbol_keeps heof (param_keeps heof hmerge bound) bound).bind fun ps hps => ?_
  refine (expect_keeps heof _ _).bind fun _ _ => ?_
  refine (block_keeps heof hmerge hexpression bound).bind fun body hbody => ?_
  have hunit : Keeps P source (fun _ => True) unit := fun _ hls => .ok trivial hls
  exact hunit.bind fun number _ => .pure ⟨hname, .function (.intro hret hps hbody)⟩

/-- An item is placed, if there is one. -/
theorem item_keeps : Keeps P source (fun o => ∀ i, o = some i → i.Placed P) item := by
  have hsome : ∀ {p : Parser Item}, Keeps P source (Item.Placed P) p →
      Keeps P source (fun o => ∀ i, o = some i → i.Placed P) (p >>= fun i => Pure.pure (some i)) :=
    fun hp => hp.bind fun i hi => .pure fun j hj => Option.some.inj hj ▸ hi
  intro ls hls
  unfold item
  refine peekKind_keeps.bind (fun found _ => ?_) ls hls
  split
  · exact .pure nofun
  · refine hsome ((binding_keeps heof (expression_keeps heof hmerge _)).bind ?_)
    rintro ⟨keyword, name, value⟩ ⟨-, hname, hvalue⟩
    exact .pure ⟨hname, hvalue⟩
  · exact hsome (function_keeps heof hmerge _)

/-- A parse gives placed items, and a problem at a span of the set. -/
theorem ofLexemes_placed (bound : Nat) {ls : List Lexeme} (hls : ∀ l ∈ ls, l.Placed P) :
    (∀ i ∈ (Parse.ofLexemes source bound ls).items.map Prod.fst, i.Placed P) ∧
      ∀ d rest, (Parse.ofLexemes source bound ls).problem = some (d, rest) → P d.span := by
  induction bound generalizing ls with
  | zero => simp [Parse.ofLexemes]
  | succ bound ih =>
    have h := item_keeps heof hmerge ls hls
    rw [Parse.ofLexemes]
    generalize item source ls = result at h
    cases h with
    | @ok o rest ho hrest =>
      cases o with
      | none => simp
      | some i =>
        obtain ⟨hitems, hproblem⟩ := ih hrest
        refine ⟨fun j hj => ?_, hproblem⟩
        rcases List.mem_cons.1 hj with rfl | hj
        · exact ho _ rfl
        · exact hitems j hj
    | error hd _ =>
      refine ⟨by simp, fun d rest hproblem => ?_⟩
      cases hproblem
      exact hd

end Parser

/-- The items of a text and the diagnostic about it are placed in it. -/
theorem Item.ofText_placed (unit : Nat) (text : String) :
    (∀ items, Item.ofText unit text = .ok items →
      ∀ i ∈ items, i.Placed (Span.LiesIn · text.toList)) ∧
    ∀ d, Item.ofText unit text = .error d → d.span.LiesIn text.toList := by
  have heof : (Span.point (Source.ofText unit text).eof).LiesIn text.toList := by
    rw [Source.ofText, ← Text.byteSize_toList]
    exact .point (Text.isBoundary_byteSize _)
  obtain ⟨hitems, hproblem⟩ := Parser.ofLexemes_placed heof Span.LiesIn.merge
    (Lexeme.ofText text).length (Lexeme.ofText_placed text)
  unfold Item.ofText Parse.program Parse.ofText
  constructor
  · intro items h
    dsimp only at h
    split at h
    · cases h
    · cases h
      exact hitems
  · intro d h
    dsimp only at h
    split at h
    · rename_i d' rest hsome
      cases h
      exact hproblem d rest hsome
    · cases h

end ExprLang
