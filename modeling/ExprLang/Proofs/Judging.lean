import ExprLang.Proofs.Completion

/-!
# Parsers that judge

Where a parser that follows a phrase fails, its diagnostic is a verdict on the tokens
(`Parser.Verdict`). Either the text has ended too early, and then some tokens can be added to make a
whole of the phrase; or the tokens are wrong, and then nothing that could be added makes them right.
A parser that gives no other diagnostics judges the phrase (`Parser.Judges`), and judging is put
together as following is.
-/

namespace ExprLang

open Token (ahead lexemes)

namespace Parser

variable {α β : Type} {source : Source}

/-! ## Judging a phrase -/

/-- What a diagnostic says about tokens that do not begin with a phrase. -/
inductive Verdict (source : Source) (e : Phrase) (ts : List Token) : Diagnostic → Prop
  | early {kinds : List Token.Kind} (h : e.Completes ts kinds) :
    Verdict source e ts ⟨.unexpectedEnd, Span.point source.eof⟩
  | wrong {d : Diagnostic} (hkind : d.kind ≠ .eof) (hts : ts ≠ [])
    (h : ∀ front rest more, e.Derives front rest → front ++ rest ≠ ts ++ more) :
    Verdict source e ts d

/-- In front of tokens of a kind, the diagnostics of a parser are verdicts. -/
def Judges (source : Source) (on : List Token → Prop) (p : Parser α) (e : Phrase) : Prop :=
  ∀ ts, on ts → ∀ d ls, p source (lexemes ts) = (.error d, ls) → Verdict source e ts d

/-- A token that the phrase cannot start with is wrong, whatever follows it. -/
theorem Verdict.of_not_starts {e : Phrase} {ts : List Token} {d : Diagnostic}
    (hkind : d.kind ≠ .eof) (hts : ts ≠ []) (he : e.nullable = false) (hstarts : ¬e.Starts ts) :
    Verdict source e ts d := by
  refine .wrong hkind hts fun front rest more hfront heq => hstarts ?_
  have hstart := hfront.starts he rest
  rwa [heq, Phrase.starts_congr (Token.ahead_append_of_ne_nil hts more)] at hstart

namespace Judges

variable {on on' : List Token → Prop} {p p' : Parser α} {q : α → Parser β} {a b c : Phrase}

theorem mono (hp : Judges source on' p a) (hon : ∀ ts, on ts → on' ts) : Judges source on p a :=
  fun ts hts => hp ts (hon ts hts)

/-- A parser that never fails gives no verdict. -/
theorem never (h : ∀ ts, on ts → ∃ x ls, p source (lexemes ts) = (.ok x, ls)) :
    Judges source on p a := by
  intro ts hts d ls hd
  obtain ⟨x, ls', hx⟩ := h ts hts
  cases hx.symm.trans hd

theorem pure (x : α) : Judges source on (Pure.pure x) a := never fun ts _ => ⟨x, lexemes ts, rfl⟩

/-- A verdict on one phrase is one on another if both derive the same, as far as the tokens
allow. -/
theorem transfer (hp : Judges source on p a)
    (hto : ∀ ts, on ts → ∀ more, a.Derives (ts ++ more) [] → b.Derives (ts ++ more) [])
    (hof : ∀ ts, on ts → ts ≠ [] → ∀ front rest more, front ++ rest = ts ++ more →
      b.Derives front rest → a.Derives front rest) : Judges source on p b := by
  intro ts hts d ls h
  cases hp ts hts d ls h with
  | early hcompletes => exact .early (hcompletes.imp (hto ts hts))
  | wrong hkind hne hnone =>
    refine .wrong hkind hne fun front rest more hfront heq => ?_
    exact hnone front rest more (hof ts hts hne front rest more heq hfront) heq

/-- One parser after another judges one phrase after another. The second phrase has a whole that
does not go on with the first. -/
theorem seq {f : a.Value → α} (hf : Follows source on p a f) (hp : Judges source on p a)
    (ha : a.Separate)
    (hon : ∀ (d : Derivation a) (rest : List Token), on (d.yield ++ rest) → on' rest)
    (hq : ∀ v, Judges source on' (q (f v)) b) {kinds : List Token.Kind}
    (hb : b.Completes [] kinds)
    (hnot : ∀ kind, kinds.head? = some kind → a.mayContinue kind = false) :
    Judges source on (p >>= q) (.seq a b) := by
  intro ts hts d ls h
  match hresult : p source (lexemes ts) with
  | (.error d', mid) =>
    rw [bind_of_error hresult] at h
    cases h
    cases hp ts hts d _ hresult with
    | early hcompletes => exact .early (hcompletes.seq hb hnot)
    | wrong hkind hne hnone =>
      refine .wrong hkind hne fun front rest more hder heq => ?_
      obtain ⟨l, r, rfl, hl, -⟩ := Phrase.derives_seq.1 hder
      exact hnone l (r ++ rest) more hl (by rw [← heq, List.append_assoc])
  | (.ok x, mid) =>
    rw [bind_of_ok hresult] at h
    obtain ⟨d₀, rest₀, rfl, hd₀, rfl, rfl⟩ := ((hf ts hts x mid).1 hresult).exists
    have hfirst : a.Derives d₀.yield rest₀ := ⟨d₀, rfl, hd₀⟩
    cases hq d₀.value rest₀ (hon d₀ rest₀ hts) d ls h with
    | early hcompletes =>
      by_cases hrest : rest₀ = []
      · -- The first phrase ended with the tokens, and the second is added as a whole.
        subst hrest
        have hwhole : a.Completes d₀.yield [] := by
          refine ⟨nofun, fun more hmore => ?_⟩
          rw [List.map_eq_nil_iff.1 hmore, List.append_nil]
          exact hfirst
        rw [List.append_nil]
        exact .early (hwhole.seq hb hnot)
      · refine .early ⟨hcompletes.plain, fun more hmore => ?_⟩
        refine Phrase.derives_seq.2 ⟨d₀.yield, rest₀ ++ more, by simp, ?_,
          hcompletes.derives more hmore⟩
        refine hfirst.of_ahead ?_
        rw [List.append_assoc, Token.ahead_append_of_ne_nil hrest]
    | wrong hkind hne hnone =>
      refine .wrong hkind (by simp [hne]) fun front rest more hder heq => ?_
      obtain ⟨l, r, rfl, hl, hr⟩ := Phrase.derives_seq.1 hder
      have hfirst' : a.Derives d₀.yield (rest₀ ++ more) :=
        hfirst.of_ahead (Token.ahead_append_of_ne_nil hne more)
      have hboth : l ++ (r ++ rest) = d₀.yield ++ (rest₀ ++ more) := by
        simpa [List.append_assoc] using heq
      obtain ⟨-, hrest⟩ := hl.unique ha hfirst' hboth
      exact hnone r rest more hr hrest

/-- What becomes of a result does not change the verdicts. -/
theorem map {g : α → β} (hp : Judges source on p a) :
    Judges source on (p >>= fun x => Pure.pure (g x)) a := by
  intro ts hts d ls h
  match hresult : p source (lexemes ts) with
  | (.error d', mid) =>
    rw [bind_of_error hresult] at h
    cases h
    exact hp ts hts d _ hresult
  | (.ok x, mid) =>
    rw [bind_of_ok hresult] at h
    cases h

theorem map_unit {g : α → Nat → β} (hp : Judges source on p a) :
    Judges source on (p >>= fun x => unit >>= fun number => Pure.pure (g x number)) a :=
  hp.map (g := fun x => g x source.unit)

/-- A nonterminal is judged by a parser for its rule, if every tree of the rule is admitted. -/
theorem ref {n : Nonterminal} (hp : Judges source on p n.rule) (hn : ∀ v, n.Admits (n.build v)) :
    Judges source on p (.ref n) :=
  hp.transfer (fun _ _ _ => (Phrase.derives_ref hn).2)
    fun _ _ _ _ _ _ _ => (Phrase.derives_ref hn).1

/-- A phrase that cannot start with the tokens has no derivation of them. -/
theorem not_derives {ts front rest more : List Token} (hts : ts ≠ [])
    (heq : front ++ rest = ts ++ more) (hb : b.nullable = false) (hstarts : ¬b.Starts ts) :
    ¬b.Derives front rest := by
  intro hder
  have hstart := hder.starts hb rest
  rw [heq, Phrase.starts_congr (Token.ahead_append_of_ne_nil hts more)] at hstart
  exact hstarts hstart

/-- Where the second of two alternatives cannot start, only the first is judged. -/
theorem inl (hp : Judges source on p a) (hb : b.nullable = false)
    (hstarts : ∀ ts, on ts → ¬b.Starts ts) : Judges source on p (.alt a b) := by
  refine hp.transfer (fun _ _ _ h => Phrase.derives_alt.2 (.inl h)) ?_
  intro ts hts hne front rest more heq h
  rcases Phrase.derives_alt.1 h with ha | hder
  · exact ha
  · exact absurd hder (not_derives hne heq hb (hstarts ts hts))

/-- Where the first of two alternatives cannot start, only the second is judged. -/
theorem inr (hp : Judges source on p b) (ha : a.nullable = false)
    (hstarts : ∀ ts, on ts → ¬a.Starts ts) : Judges source on p (.alt a b) := by
  refine hp.transfer (fun _ _ _ h => Phrase.derives_alt.2 (.inr h)) ?_
  intro ts hts hne front rest more heq h
  rcases Phrase.derives_alt.1 h with hder | hb
  · exact absurd hder (not_derives hne heq ha (hstarts ts hts))
  · exact hb

/-- Where an optional phrase starts, it is judged as if it had to stand there. -/
theorem take (hp : Judges source on p a) (hstarts : ∀ ts, on ts → a.Starts ts) :
    Judges source on p (.opt a) := by
  refine hp.transfer (fun _ _ _ h => Phrase.derives_opt.2 (.inr h)) ?_
  intro ts hts hne front rest more heq h
  rcases Phrase.derives_opt.1 h with ⟨rfl, hnot⟩ | ha
  · rw [List.nil_append] at heq
    rw [heq, Phrase.starts_congr (Token.ahead_append_of_ne_nil hne more)] at hnot
    exact absurd (hstarts ts hts) hnot
  · exact ha

/-- Where a repeated phrase starts, one more of it is judged in front of the others. -/
theorem more (hp : Judges source on p (.seq a (.many a))) (hstarts : ∀ ts, on ts → a.Starts ts) :
    Judges source on p (.many a) := by
  refine hp.transfer (fun _ _ _ h => Phrase.derives_many.2 (.inr h)) ?_
  intro ts hts hne front rest more heq h
  rcases Phrase.derives_many.1 h with ⟨rfl, hnot⟩ | ha
  · rw [List.nil_append] at heq
    rw [heq, Phrase.starts_congr (Token.ahead_append_of_ne_nil hne more)] at hnot
    exact absurd (hstarts ts hts) hnot
  · exact ha

theorem assoc (hp : Judges source on p (.seq a (.seq b c))) :
    Judges source on p (.seq (.seq a b) c) :=
  hp.transfer (fun _ _ _ => Phrase.derives_assoc.2) fun _ _ _ _ _ _ _ => Phrase.derives_assoc.1

/-- Where what follows a repetition cannot start, one more of the repeated phrase is judged. -/
theorem more_seq (hp : Judges source on p (.seq a (.seq (.many a) c))) (hc : c.nullable = false)
    (hstarts : ∀ ts, on ts → ¬c.Starts ts) : Judges source on p (.seq (.many a) c) := by
  refine hp.transfer (fun _ _ _ h => Phrase.derives_many_seq.2 (.inr h)) ?_
  intro ts hts hne front rest more heq h
  rcases Phrase.derives_many_seq.1 h with ⟨hder, -⟩ | hmore
  · exact absurd hder (not_derives hne heq hc (hstarts ts hts))
  · exact hmore

/-- Where a repeated phrase cannot start, only what follows the repetition is judged. -/
theorem done_seq (hp : Judges source on p c) (ha : a.nullable = false)
    (hon : ∀ ts, on ts → ts ≠ [] ∧ ¬a.Starts ts) : Judges source on p (.seq (.many a) c) := by
  refine hp.transfer ?_ ?_
  · intro ts hts more h
    obtain ⟨hne, hnot⟩ := hon ts hts
    refine Phrase.derives_many_seq.2 (.inl ⟨h, ?_⟩)
    rwa [List.append_nil, Phrase.starts_congr (Token.ahead_append_of_ne_nil hne more)]
  · intro ts hts hne front rest more heq h
    rcases Phrase.derives_many_seq.1 h with ⟨hc, -⟩ | hmore
    · exact hc
    · obtain ⟨l, r, rfl, hl, -⟩ := Phrase.derives_seq.1 hmore
      rw [List.append_assoc] at heq
      exact absurd hl (not_derives hne heq ha (hon ts hts).2)

/-- Where one of two alternatives in front of a phrase cannot start, only the other is judged. -/
theorem seq_inl (hp : Judges source on p (.seq a c)) (hb : b.nullable = false)
    (hstarts : ∀ ts, on ts → ¬b.Starts ts) : Judges source on p (.seq (.alt a b) c) := by
  refine hp.transfer ?_ ?_
  · intro ts hts more h
    obtain ⟨l, r, heq, hl, hr⟩ := Phrase.derives_seq.1 h
    exact Phrase.derives_seq.2 ⟨l, r, heq, Phrase.derives_alt.2 (.inl hl), hr⟩
  · intro ts hts hne front rest more heq h
    obtain ⟨l, r, rfl, hl, hr⟩ := Phrase.derives_seq.1 h
    rw [List.append_assoc] at heq
    rcases Phrase.derives_alt.1 hl with hl | hder
    · exact Phrase.derives_seq.2 ⟨l, r, rfl, hl, hr⟩
    · exact absurd hder (not_derives hne heq hb (hstarts ts hts))

theorem seq_inr (hp : Judges source on p (.seq b c)) (ha : a.nullable = false)
    (hstarts : ∀ ts, on ts → ¬a.Starts ts) : Judges source on p (.seq (.alt a b) c) := by
  refine hp.transfer ?_ ?_
  · intro ts hts more h
    obtain ⟨l, r, heq, hl, hr⟩ := Phrase.derives_seq.1 h
    exact Phrase.derives_seq.2 ⟨l, r, heq, Phrase.derives_alt.2 (.inr hl), hr⟩
  · intro ts hts hne front rest more heq h
    obtain ⟨l, r, rfl, hl, hr⟩ := Phrase.derives_seq.1 h
    rw [List.append_assoc] at heq
    rcases Phrase.derives_alt.1 hl with hder | hl
    · exact absurd hder (not_derives hne heq ha (hstarts ts hts))
    · exact Phrase.derives_seq.2 ⟨l, r, rfl, hl, hr⟩

/-- A parser that looks at the next token judges a phrase if it does for each token it may find. -/
theorem peek {f : Option Token.Kind → Parser α}
    (h : ∀ next, Judges source (fun ts => on ts ∧ ahead ts = next) (f next) a) :
    Judges source on (peekKind >>= f) a := by
  intro ts hts d ls
  rw [bind_of_ok (peekKind_lexemes source ts)]
  exact h (ahead ts) ts ⟨hts, rfl⟩ d ls

theorem sees {kind : Token.Kind} {f : Bool → Parser α}
    (htrue : Judges source (fun ts => on ts ∧ ahead ts = some kind) (f true) a)
    (hfalse : Judges source (fun ts => on ts ∧ ahead ts ≠ some kind) (f false) a) :
    Judges source on (Parser.sees kind >>= f) a := by
  intro ts hts d ls
  rw [bind_of_ok (sees_lexemes source kind ts)]
  by_cases h : ahead ts = some kind
  · rw [beq_iff_eq.2 h]
    exact htrue ts ⟨hts, h⟩ d ls
  · rw [beq_eq_false_iff_ne.2 h]
    exact hfalse ts ⟨hts, h⟩ d ls

theorem accept {kind : Token.Kind} {f : Bool → Parser α}
    (htrue : Judges source (fun ts => on ts ∧ ahead ts = some kind) (next >>= fun _ => f true) a)
    (hfalse : Judges source (fun ts => on ts ∧ ahead ts ≠ some kind) (f false) a) :
    Judges source on (Parser.accept kind >>= f) a := by
  intro ts hts d ls
  by_cases h : ahead ts = some kind
  · intro herror
    refine htrue ts ⟨hts, h⟩ d ls ?_
    cases ts with
    | nil => cases h
    | cons t ts =>
      rw [bind_of_ok (accept_cons kind t ts (Option.some.inj h))] at herror
      exact herror
  · rw [bind_of_ok (accept_of_ne kind ts h)]
    exact hfalse ts ⟨hts, h⟩ d ls

end Judges

/-! ## Single tokens -/

theorem wanted_kind_ne_eof (wanted : Wanted) : wanted.kind ≠ .eof := by
  cases wanted <;> decide

/-- A token that is missing at the end can be added, and another one in its place is wrong. -/
theorem expect_judges (on : List Token → Prop) {kind : Token.Kind} (hkind : kind.isPlain = true)
    (wanted : Wanted) : Judges source on (expect kind wanted) (.word (.exactly kind)) := by
  intro ts _ d ls h
  cases ts with
  | nil =>
    cases h
    exact .early (.exactly hkind)
  | cons t ts =>
    rw [expect_cons] at h
    split at h
    · cases h
    · rename_i hne
      cases h
      refine .of_not_starts (wanted_kind_ne_eof wanted) (List.cons_ne_nil t ts) rfl ?_
      exact Phrase.not_starts_of_ahead rfl (beq_eq_false_iff_ne.2 hne)

theorem identifier_judges (on : List Token → Prop) : Judges source on identifier .identifier := by
  intro ts hts d ls h
  have hexpect : expect .identifier .identifier source (lexemes ts) = (.error d, ls) := by
    cases ts with
    | nil => cases h; rfl
    | cons t ts =>
      change (if t.kind = .identifier then pure t.ident else unexpected .identifier t :
        Parser Ident) source (lexemes ts) = _ at h
      rw [expect_cons]
      split at h
      · cases h
      · rename_i hne
        rw [if_neg hne]
        cases h
        rfl
  exact expect_judges on rfl _ ts hts d ls hexpect

theorem next_judges {on : List Token → Prop} {kind : Token.Kind}
    (hon : ∀ ts, on ts → ahead ts = some kind) {e : Phrase} : Judges source on next e := by
  refine .never fun ts hts => ?_
  have hnext := hon ts hts
  cases ts with
  | nil => cases hnext
  | cons t ts => exact ⟨t, lexemes ts, rfl⟩

/-- A literal is a single token, so that tokens that begin with none have a wrong first token. -/
theorem literal_judges : Judges source (· ≠ []) literal (.ref .literal) := by
  intro ts hts d ls h
  cases ts with
  | nil => exact absurd rfl hts
  | cons t ts =>
    obtain ⟨kind, span, text⟩ := t
    cases kind with
    | string value => cases h
    | number n => cases h
    | typeName ty => cases h
    | _ =>
      cases h
      exact .of_not_starts (wanted_kind_ne_eof .literal) hts rfl
        (Phrase.not_starts_of_ahead rfl rfl)

/-! ## Loops -/

/-- A token that is known to be next, and what follows it. -/
theorem Judges.next_seq {n : Nat} {kind : Token.Kind} {e : Phrase} {q : Token → Parser α}
    (hq : ∀ t, Judges source (AtMost n) (q t) e) {kinds : List Token.Kind}
    (he : e.Completes [] kinds) :
    Judges source (fun ts => AtMost (n + 1) ts ∧ ahead ts = some kind) (next >>= q)
      (.seq (.word (.exactly kind)) e) :=
  .seq (next_follows fun _ h => h.2) (next_judges fun _ h => h.2) trivial
    (fun d rest h => AtMost.rest_of_succ rfl d rest h.1) hq he fun _ _ => rfl

/-- A loop up to a closing symbol judges a repetition and what follows it, which starts with the
symbol. A text that breaks off in the loop is completed by that alone. -/
theorem untilSymbol_judges {close : Symbol} {element : Parser α} {e c : Phrase} {f : e.Value → α}
    {n : Nat} (hfollows : Follows source (AtMost n) element e f)
    (hjudges : Judges source (AtMost n) element e) (he : e.nullable = false)
    (hseparate : e.Separate) (hclose : e.mayStart (.symbol close) = false)
    (hends : e.mayContinue (.symbol close) = false)
    (hc : c.nullable = false) (hstart : ∀ kind, c.mayStart kind = (kind == .symbol close))
    {kinds : List Token.Kind} (hwhole : c.Completes [] (.symbol close :: kinds)) {bound : Nat}
    (hbound : bound ≤ n) {q : List α → Parser β}
    (hq : ∀ vs, Judges source (AtMost n) (q vs) c) :
    Judges source (AtMost bound) (untilSymbol close element bound >>= q) (.seq (.many e) c) := by
  have hnone : (Phrase.seq (.many e) c).Completes [] (.symbol close :: kinds) := by
    refine Phrase.Completes.seq .done hwhole ?_
    rintro _ ⟨⟩
    rw [Phrase.mayContinue, hclose, hends]
    rfl
  induction bound generalizing q with
  | zero =>
    intro ts hts d ls h
    obtain rfl : ts = [] := List.length_eq_zero_iff.1 (Nat.le_zero.1 hts)
    cases h
    exact .early hnone
  | succ bound ih =>
    rw [untilSymbol, bind_assoc]
    refine Judges.sees ?_ ?_
    · refine Judges.done_seq ((hq []).mono fun _ h => Nat.le_trans h.1 hbound) he fun ts h => ?_
      refine ⟨?_, Phrase.not_starts_of_ahead h.2 hclose⟩
      rintro rfl
      cases h.2
    · refine Judges.more_seq ?_ hc fun _ h => Phrase.not_starts_of_ne h.2 hstart
      rw [if_neg Bool.false_ne_true, bind_assoc]
      have hwithin : ∀ ts, AtMost (bound + 1) ts ∧ ahead ts ≠ some (.symbol close) → AtMost n ts :=
        fun _ h => Nat.le_trans h.1 hbound
      refine Judges.seq (hfollows.mono hwithin) (hjudges.mono hwithin) hseparate
        (fun d rest h => AtMost.rest_of_succ he d rest h.1) (fun v => ?_) hnone ?_
      · rw [bind_assoc]
        exact ih (Nat.le_of_succ_le hbound) fun vs => hq (f v :: vs)
      · rintro _ ⟨⟩
        exact hends

section Chain

variable {level : Token.Kind → Option Operator} {s s' : Symbol} {op op' : Operator}
  (hlevel : IsLevel level s s' op op')

include hlevel

/-- At a level of operators the next token is one of two symbols, or there is no operator. -/
theorem Judges.operator {on : List Token → Prop} {f : Option Operator → Parser α} {e : Phrase}
    (hs : Judges source (fun ts => on ts ∧ ahead ts = some (.symbol s))
      (next >>= fun _ => f (some op)) e)
    (hs' : Judges source (fun ts => on ts ∧ ahead ts = some (.symbol s'))
      (next >>= fun _ => f (some op')) e)
    (hnone : Judges source (fun _ => True) (f none) e) :
    Judges source on (Parser.operator level >>= f) e := by
  intro ts hts d ls
  cases ts with
  | nil => exact hnone [] trivial d ls
  | cons t ts =>
    by_cases h : t.kind = .symbol s
    · rw [bind_of_ok (operator_cons (h ▸ hlevel.first) ts)]
      exact hs (t :: ts) ⟨hts, congrArg some h⟩ d ls
    · by_cases h' : t.kind = .symbol s'
      · rw [bind_of_ok (operator_cons (h' ▸ hlevel.second) ts)]
        exact hs' (t :: ts) ⟨hts, congrArg some h'⟩ d ls
      · have hahead : (ahead (t :: ts)).bind level = none := hlevel.other t.kind h h'
        rw [bind_of_ok (operator_of_none hahead)]
        exact hnone (t :: ts) trivial d ls

/-- A chain of operands judges the repetition of an operator and an operand. -/
theorem chain_judges {operand : Parser Expr} {e : Phrase} {f : e.Value → Expr} {n bound : Nat}
    (hfollows : Follows source (AtMost n) operand e f)
    (hjudges : Judges source (AtMost n) operand e) (hseparate : e.Separate)
    (sample : Derivation e) {kinds : List Token.Kind} (hwhole : e.Completes [] kinds)
    (hbound : bound ≤ n) (left : Expr) :
    Judges source (AtMost bound) (chain level operand bound left)
      (.many (.seq (.alt (.sign s) (.sign s')) e)) := by
  induction bound generalizing left with
  | zero => exact Judges.pure left
  | succ bound ih =>
    have hbound' : bound ≤ n := Nat.le_of_succ_le hbound
    have hrest : ∀ o, Judges source (AtMost bound)
        (operand >>= fun right => chain level operand bound (.binary o left right))
        (.seq e (.many (.seq (.alt (.sign s) (.sign s')) e))) := by
      intro o
      exact Judges.seq (hfollows.mono fun _ h => Nat.le_trans h hbound')
        (hjudges.mono fun _ h => Nat.le_trans h hbound') hseparate AtMost.rest
        (fun v => ih hbound' _) .done nofun
    rw [chain]
    refine Judges.operator hlevel ?_ ?_ (Judges.pure left)
    · refine Judges.more (Judges.assoc (Judges.seq_inl ?_ rfl ?_)) ?_
      · exact Judges.next_seq (fun _ => hrest op) (hwhole.seq_nil .done)
      · exact fun _ h => Phrase.not_starts_of_ahead h.2 (beq_eq_false_iff_ne.2 hlevel.ne)
      · exact fun _ h => (Phrase.Starts.inl (Phrase.starts_exactly h.2)).seq sample
    · refine Judges.more (Judges.assoc (Judges.seq_inr ?_ rfl ?_)) ?_
      · exact Judges.next_seq (fun _ => hrest op') (hwhole.seq_nil .done)
      · exact fun _ h => Phrase.not_starts_of_ahead h.2 (beq_eq_false_iff_ne.2 hlevel.ne.symm)
      · exact fun _ h => (Phrase.Starts.inr (Phrase.starts_exactly h.2)).seq sample

end Chain

end Parser

end ExprLang
