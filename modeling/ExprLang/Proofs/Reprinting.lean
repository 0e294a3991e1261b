import ExprLang.Proofs.Reading

/-!
# Programs are read as they were printed

The items of a program, printed one behind the other, are read as the same items up to places
(`Item.ofText_reprinted`). A parsed program is printable, so its items stay apart, and each of them
is read by the phrases of which it is made.
-/

namespace ExprLang

open Token (ahead lexemes sign word named enclosed Spells kind_of_bare text_of_bare)

open Phrase (Reads Ends)

/-! ## Printed tokens -/

namespace Token

/-- What is printed stands nowhere, so nothing is lost when its places are forgotten. -/
@[simp] theorem bare_sign (s : Symbol) : (sign s).bare = sign s := rfl

@[simp] theorem bare_named (name : String) : (named name).bare = named name := rfl

@[simp] theorem bare_kind (l : Literal) : (word l.kind).bare = word l.kind := by cases l <;> rfl

@[simp] theorem bare_as : (word .as).bare = word .as := rfl

@[simp] theorem bare_const : (word .const).bare = word .const := rfl

/-- Parentheses are printed tokens as well. -/
theorem map_bare_guarded {place level : Nat} {ts : List Token} (h : ts.map bare = ts) :
    (Expr.guarded place level ts).map bare = Expr.guarded place level ts := by
  unfold Expr.guarded
  split
  · simp [enclosed, h]
  · exact h

end Token

mutual

theorem Expr.map_bare_print : (e : Expr) → e.print.map Token.bare = e.print
  | .literal l _ => by simp [Expr.print]
  | .function _ => by simp [Expr.print]
  | .name id => by simp [Expr.print]
  | .binary op left right => by
    simp [Expr.print, Token.map_bare_guarded left.map_bare_print,
      Token.map_bare_guarded right.map_bare_print]
  | .coerce value type => by
    simp [Expr.print, Token.map_bare_guarded value.map_bare_print,
      Token.map_bare_guarded type.map_bare_print]
  | .call callee args _ _ => by
    simp [Expr.print, Token.map_bare_guarded callee.map_bare_print, Expr.map_bare_printArgs args]
  | .block b => by rw [Expr.print, b.map_bare_print]

theorem Expr.map_bare_printArgs : (es : List Expr) →
    (Expr.printArgs es).map Token.bare = Expr.printArgs es
  | [] => by simp [Expr.printArgs]
  | [e] => by rw [Expr.printArgs, e.map_bare_print]
  | e :: e' :: es => by simp [Expr.printArgs, e.map_bare_print, Expr.map_bare_printArgs (e' :: es)]

theorem Block.map_bare_print : (b : Block) → b.print.map Token.bare = b.print
  | ⟨statements, _⟩ => by simp [Block.print, Statement.map_bare_printAll statements]

theorem Statement.map_bare_printAll : (ss : List Statement) →
    (Statement.printAll ss).map Token.bare = Statement.printAll ss
  | [] => by simp [Statement.printAll]
  | s :: ss => by simp [Statement.printAll, s.map_bare_print, Statement.map_bare_printAll ss]

theorem Statement.map_bare_print : (s : Statement) → s.print.map Token.bare = s.print
  | .expr e => by rw [Statement.print, e.map_bare_print]
  | .const _ name value => by simp [Statement.print, value.map_bare_print]

end

/-- Parameters are printed with commas between them, and none behind the last one. -/
theorem Param.map_bare_printAll (ps : List Param) : (printAll ps).map Token.bare = printAll ps := by
  have hprint : ∀ p : Param, p.print.map Token.bare = p.print := fun p => by
    simp [print, Expr.printAt, Token.map_bare_guarded p.type.map_bare_print]
  fun_induction printAll ps with
  | case1 => rfl
  | case2 p => exact hprint p
  | case3 p p' ps ih => simp [hprint p, ih]

/-- A printed item is made of tokens without places. -/
theorem Item.map_bare_print (i : Item) : i.print.map Token.bare = i.print := by
  obtain ⟨name, value⟩ := i
  cases value with
  | function f =>
    obtain ⟨home, ret, params, body⟩ := f
    simp [print, Expr.printAt, Token.map_bare_guarded ret.map_bare_print,
      Param.map_bare_printAll params, body.map_bare_print]
  | _ => simp [print, Expr.map_bare_print]

/-! ## Parameters -/

namespace Phrase.Reads

variable {closed : Bool} {ts : List Token}

/-- A comma behind a parameter is read with it. It is not part of the parameter. -/
theorem comma_taken {comma : Token} (h : comma.kind = .symbol .comma) :
    Reads (.opt (.sign .comma)) (fun _ => True) true [comma] :=
  ⟨.take (.word comma comma (if_pos h)), rfl, trivial, fun _ _ => trivial⟩

/-- No comma is read if nothing that follows is one. -/
theorem comma_skipped : Reads (.opt (.sign .comma)) (fun _ => True) false [] := by
  refine ⟨.skip, rfl, trivial, fun rest hrest => Phrase.not_starts fun kind hkind => ?_⟩
  exact (Bool.or_eq_false_iff.1 (hrest.not_mayContinue hkind)).1

/-- A parameter is read from its name, a colon, its type and a comma that may be missing. -/
theorem param_of_type {p : Param} {id colon : Token} {ts' : List Token}
    (hid : id.bare = named p.name.name) (hcolon : colon.kind = .symbol .colon)
    (htype : Reads (.ref .typeExpr) p.type.Same true ts)
    (hcomma : Reads (.opt (.sign .comma)) (fun _ => True) closed ts') :
    Reads .param (fun v => (Param.mk (Token.ident v.1) v.2.2.1).bare = p.bare) closed
      (id :: colon :: (ts ++ ts')) := by
  obtain ⟨d, rfl, hsame, hd⟩ := htype
  obtain ⟨d', rfl, -, hd'⟩ := hcomma
  refine ⟨.seq (.word id id (if_pos (kind_of_bare hid))) (.seq (.word colon colon (if_pos hcolon))
    (.seq d d')), rfl, ?_,
    fun rest hrest => ⟨trivial, trivial, hd _ (.of_closed rfl _ _), hd' rest ?_⟩⟩
  · change (Param.mk id.ident d.value).bare = p.bare
    obtain ⟨name, type⟩ := p
    rw [Param.bare, Param.bare, hsame, Ident.bare, Ident.bare, Token.ident, text_of_bare hid]
  · refine fun kind hkind => (hrest kind hkind).imp_left fun hnot => ?_
    have htail := (Bool.or_eq_false_iff.1 (Bool.or_eq_false_iff.1 hnot).1).1
    exact (Bool.or_eq_false_iff.1 htail).1

end Phrase.Reads

/-- An expression in the place of a type. -/
theorem Expr.reads_type {e : Expr} (h : e.PrintableType) {ts : List Token}
    (hts : Spells ts (e.printAt 4)) : Reads (.ref .typeExpr) e.Same true ts :=
  (Expr.Written.primary_guarded (fun _ => e.written h.1) hts).typeExpr_of_primary h.2

/-- Printed parameters are read as they are. The comma in front of the next one is read with the
parameter before it. -/
theorem Param.reads_all (ps : List Param) (h : ∀ p ∈ ps, p.type.PrintableType) {ts : List Token}
    (hts : Spells ts (printAll ps)) :
    Reads (.many .param)
      (fun vs => bareAll (vs.map fun v => ⟨Token.ident v.1, v.2.2.1⟩) = bareAll ps) false ts := by
  fun_induction printAll ps generalizing ts with
  | case1 =>
    rw [hts.nil]
    exact Reads.many_nil.imp fun vs hvs => by rw [hvs]; rfl
  | case2 p =>
    obtain ⟨id, back, rfl, hid, hback⟩ := hts.cons
    obtain ⟨colon, back, rfl, hcolon, hback⟩ := hback.cons
    have htype := p.type.reads_type (h p List.mem_cons_self) hback
    have hlast := Reads.param_of_type hid (kind_of_bare hcolon) htype .comma_skipped
    rw [List.append_nil] at hlast
    rw [← List.append_nil (id :: colon :: back)]
    refine (Reads.many_cons (by simp [Phrase.repeated]) hlast .many_nil (by simp [ahead])).imp ?_
    rintro _ ⟨v, _, rfl, hv, rfl⟩
    change [Param.bare ⟨Token.ident v.1, v.2.2.1⟩] = [p.bare]
    rw [hv]
  | case3 p p' ps ih =>
    obtain ⟨front, back, rfl, hfront, hback⟩ := hts.append
    obtain ⟨comma, back, rfl, hcomma, hback⟩ := hback.cons
    obtain ⟨id, front, rfl, hid, hfront⟩ := hfront.cons
    obtain ⟨colon, front, rfl, hcolon, hfront⟩ := hfront.cons
    have htype := p.type.reads_type (h p List.mem_cons_self) hfront
    have hfirst := Reads.param_of_type hid (kind_of_bare hcolon) htype
      (.comma_taken (kind_of_bare hcomma))
    have hothers := ih (fun q hq => h q (List.mem_cons_of_mem _ hq)) hback
    rw [List.append_cons]
    refine (Reads.many_cons (by simp [Phrase.repeated]) hfirst hothers fun _ => rfl).imp ?_
    rintro _ ⟨v, vs, rfl, hv, hvs⟩
    change Param.bare ⟨Token.ident v.1, v.2.2.1⟩ :: bareAll _ = p.bare :: bareAll (p' :: ps)
    rw [hv, hvs]

/-! ## Items -/

namespace Phrase.Reads

variable {closed : Bool} {ts : List Token}

/-- A constant is read by the phrase for a binding. -/
theorem item_of_binding {name : Ident} {value : Expr} (unit : Nat)
    (h : Reads .binding (fun v => (Token.ident v.2.1).bare = name.bare ∧ value.Same v.2.2.2) closed
      ts) :
    Reads (.ref .item) (fun f => Item.bare (f unit) = (Item.mk name value).bare) closed ts := by
  obtain ⟨d, rfl, ⟨hname, hvalue⟩, hd⟩ := h
  refine ⟨.ref (n := .item) (.inl d), rfl, ?_, fun rest hrest => ⟨hd rest ?_, trivial⟩⟩
  · change (Item.mk (Token.ident d.value.2.1) d.value.2.2.2).bare = _
    rw [Item.bare, Item.bare, hname, hvalue]
  · exact fun kind hkind => (hrest kind hkind).imp_left fun hnot => by
      rwa [Phrase.mayContinue_binding]

/-- A function is read from the five parts of its rule. Nothing goes on with the block at its end,
so the item is closed. -/
theorem item_of_function {name : Ident} {ret : Expr} {params : List Param} {body : Block}
    (unit : Nat) {id opening closing : Token} {ts' ts'' : List Token}
    (hret : Reads (.ref .typeExpr) ret.Same true ts) (hid : id.bare = named name.name)
    (hopening : opening.kind = .symbol .leftParen)
    (hparams : Reads (.many .param)
      (fun vs => Param.bareAll (vs.map fun v => ⟨Token.ident v.1, v.2.2.1⟩) = Param.bareAll params)
      false ts')
    (hclosing : closing.kind = .symbol .rightParen)
    (hbody : Reads (.ref .block) (fun b => Block.bare b = body.bare) closed ts'') :
    Reads (.ref .item)
      (fun f => Item.bare (f unit) = (Item.mk name (.function ⟨unit, ret, params, body⟩)).bare) true
      (ts ++ id :: opening :: (ts' ++ closing :: ts'')) := by
  obtain ⟨r, rfl, hsame, hr⟩ := hret
  obtain ⟨ps, rfl, hsame', hps⟩ := hparams
  obtain ⟨b, rfl, hsame'', hb⟩ := hbody
  refine ⟨.ref (n := .item) (.inr (.ref (n := .function) (.seq r
    (.seq (.word id id (if_pos (kind_of_bare hid))) (.seq (.word opening opening (if_pos hopening))
      (.seq ps (.seq (.word closing closing (if_pos hclosing)) b))))))), rfl, ?_, fun rest _ => ?_⟩
  · change Item.bare ⟨Token.ident id, .function ⟨unit, r.value,
      ps.value.map fun v => ⟨Token.ident v.1, v.2.2.1⟩, b.value⟩⟩ = _
    rw [Item.bare, Item.bare, Expr.bare, Expr.bare, Lambda.bare, Lambda.bare, hsame, hsame',
      hsame'', Ident.bare, Ident.bare, Token.ident, text_of_bare hid]
  · exact ⟨⟨⟨hr _ (.of_closed rfl _ _), trivial, trivial, hps _ (.of_cons hclosing rfl _), trivial,
      hb rest (.of_closed rfl _ _)⟩, trivial⟩, trivial⟩

end Phrase.Reads

namespace Item

/-- A printed constant is read as it is, and goes on as its value does. -/
theorem reads_constant {name : Ident} {value : Expr} (h : value.Printable) (unit : Nat)
    {ts : List Token}
    (hts : Spells ts (word .const :: named name.name :: sign .equals :: value.print)) :
    Reads (.ref .item) (fun f => Item.bare (f unit) = (Item.mk name value).bare) value.closed
      ts := by
  obtain ⟨keyword, back, rfl, hkeyword, hback⟩ := hts.cons
  obtain ⟨id, back, rfl, hid, hback⟩ := hback.cons
  obtain ⟨equals, back, rfl, hequals, hback⟩ := hback.cons
  have hvalue := (value.written h hback).expression
  exact (hvalue.binding_of_value (kind_of_bare hkeyword) hid (kind_of_bare hequals)).item_of_binding
    unit

/-- A printed item is read as it is. -/
theorem reads {unit : Nat} {i : Item} (h : i.Printable unit) {ts : List Token}
    (hts : Spells ts i.print) :
    Reads (.ref .item) (fun f => Item.bare (f unit) = i.bare) i.closed ts := by
  obtain ⟨name, value⟩ := i
  cases value with
  | function f =>
    obtain ⟨home, ret, params, body⟩ := f
    obtain ⟨rfl, hret, hparams, hbody⟩ := h
    rw [print] at hts
    obtain ⟨front, back, rfl, hfront, hback⟩ := hts.append
    obtain ⟨id, back, rfl, hid, hback⟩ := hback.cons
    obtain ⟨opening, back, rfl, hopening, hback⟩ := hback.cons
    obtain ⟨inner, back, rfl, hinner, hback⟩ := hback.append
    obtain ⟨closing, back, rfl, hclosing, hback⟩ := hback.cons
    exact (ret.reads_type hret hfront).item_of_function home hid (kind_of_bare hopening)
      (Param.reads_all params hparams hinner) (kind_of_bare hclosing) (body.reads hbody hback)
  | _ => exact reads_constant h unit hts

theorem print_ne_nil {unit : Nat} {i : Item} (h : i.Printable unit) : i.print ≠ [] := by
  obtain ⟨name, value⟩ := i
  cases value with
  | function f => obtain ⟨home, ret, params, body⟩ := f; simp [print]
  | _ => simp [print]

/-- An item is printed with a parenthesis in front only if it is a function whose return type has
one. -/
theorem opens_of_ahead {unit : Nat} {i : Item} (hi : i.Printable unit)
    (h : ahead i.print = some (.symbol .leftParen)) : i.opens = true := by
  obtain ⟨name, value⟩ := i
  cases value with
  | function f =>
    obtain ⟨home, ret, params, body⟩ := f
    obtain ⟨-, ⟨hret, -⟩, -, -⟩ := hi
    change ahead (Expr.guarded 4 ret.level ret.print ++ _) = _ at h
    rw [Expr.ahead_guarded_append hret] at h
    exact ret.opens_of_ahead hret (Nat.le_refl 4) h
  | _ => cases h

/-- Printed items are read one behind the other, as long as none of them goes on with the next. -/
theorem reads_all {unit : Nat} (is : List Item) (h : ∀ i ∈ is, i.Printable unit)
    (happart : is.IsChain Apart) {ts : List Token} (hts : Spells ts (is.flatMap print)) :
    Reads .program (fun fs => (fs.map fun f => Item.bare (f unit)) = is.map bare) false ts := by
  induction is generalizing ts with
  | nil =>
    rw [hts.nil]
    exact Reads.many_nil.imp fun vs hvs => by rw [hvs]; rfl
  | cons i is ih =>
    have his : ∀ i ∈ is, i.Printable unit := fun i hi => h i (List.mem_cons_of_mem _ hi)
    rw [List.flatMap_cons] at hts
    obtain ⟨front, back, rfl, hfront, hback⟩ := hts.append
    refine (Reads.many_cons (by simp [Phrase.repeated]) (reads (h i List.mem_cons_self) hfront)
      (ih his happart.of_cons hback) fun hparen => ?_).imp ?_
    · -- Only a function is printed with a parenthesis in front, that of its return type.
      rw [hback.ahead_eq] at hparen
      cases is with
      | nil => cases hparen
      | cons i' is =>
        have hi' := his i' List.mem_cons_self
        rw [List.flatMap_cons, Token.ahead_append_of_ne_nil (print_ne_nil hi')] at hparen
        exact (List.isChain_cons_cons.1 happart).1 (opens_of_ahead hi' hparen)
    · rintro _ ⟨f, fs, rfl, hf, hfs⟩
      rw [List.map_cons, List.map_cons, hf, hfs]

/-- **The printed form of a program is read as that program.** It is made of tokens without places,
and wherever its tokens are placed, they are parsed, and as the same items up to places. -/
theorem ofText_reprinted {unit : Nat} {text : String} {items : List Item}
    (h : Item.ofText unit text = .ok items) :
    (items.flatMap print).map Token.bare = items.flatMap print ∧
    ∀ (eof : Nat) (ts : List Token), ts.map Token.bare = items.flatMap print →
      ∃ items', (Parse.ofLexemes ⟨unit, eof⟩ ts.length (lexemes ts)).program = .ok items' ∧
        items'.map bare = items.map bare := by
  obtain ⟨d, -, hd, rfl⟩ := ofText_eq_ok_iff_derivation.1 h
  obtain ⟨hprintable, happart⟩ := d.printable hd unit
  refine ⟨by simp [List.map_flatMap, map_bare_print], fun eof ts hts => ?_⟩
  obtain ⟨d', hyield, hsame, hproper⟩ := reads_all _ hprintable happart hts
  have hprogram := (Parse.program_ofLexemes_iff ⟨unit, eof⟩ (Nat.le_refl ts.length)
    (d'.items unit)).2 ⟨d', hyield, hproper [] nofun, rfl⟩
  refine ⟨d'.items unit, hprogram, ?_⟩
  rw [← hsame, Derivation.items, List.map_map]
  rfl

/-- Of the parentheses around an expression only those of the sum are printed, and the call in front
of them does not go on with them. -/
theorem ofText_reprinted_apart :
    ∃ items, Item.ofText 0 "u8 f(x: (u8),) { (g(x)) g(x) (x + x) * (x) }" = .ok items ∧
      (items.flatMap print).length = 24 ∧
      ∃ items', (Parse.ofLexemes ⟨0, 0⟩ (items.flatMap print).length
          (lexemes (items.flatMap print))).program = .ok items' ∧
        items'.map bare = items.map bare := by
  have hcount : (Item.ofText 0 "u8 f(x: (u8),) { (g(x)) g(x) (x + x) * (x) }").toOption.map
      (fun items => (items.flatMap print).length) = some 24 := by decide +kernel
  obtain ⟨items, hsome, hlength⟩ := Option.map_eq_some_iff.1 hcount
  have hitems := eq_ok_of_toOption hsome
  obtain ⟨hbare, hread⟩ := ofText_reprinted hitems
  exact ⟨items, hitems, hlength, hread 0 _ hbare⟩

end Item

end ExprLang
