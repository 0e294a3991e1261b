import ExprLang.Proofs.Grammar

/-!
# Parsers that follow the grammar

A parser follows a phrase of the grammar (`Parser.Follows`) if it takes what a proper derivation of
the phrase derives, gives a result that the tree of the derivation determines, and fails where there
is no such derivation. The combinators of the parser follow those of the grammar. So do its loops,
as long as their bound is not below the number of tokens that are left
(`Parser.untilSymbol_follows`, `Parser.chain_follows`).
-/

namespace ExprLang

/-! ## Lexemes that read as tokens -/

/-- The lexeme that reads as a token. -/
def Token.lexeme (t : Token) : Lexeme := ⟨t.span, t.text, .ok t.kind⟩

def Token.lexemes (ts : List Token) : List Lexeme := ts.map Token.lexeme

theorem Lexeme.eq_of_token {l : Lexeme} {t : Token} (h : l.token = .ok t) : l = t.lexeme := by
  obtain ⟨span, text, reading⟩ := l
  cases reading with
  | ok kind => cases h; rfl
  | error d => cases h

theorem Lexeme.eq_of_mapM_token {ls : List Lexeme} {ts : List Token}
    (h : ls.mapM Lexeme.token = .ok ts) : ls = Token.lexemes ts := by
  induction ls generalizing ts with
  | nil => cases h; rfl
  | cons l ls ih =>
    rw [List.mapM_cons] at h
    cases hl : l.token with
    | error d => rw [hl] at h; cases h
    | ok t =>
      cases hls : ls.mapM Lexeme.token with
      | error d => rw [hl, hls] at h; cases h
      | ok ts' =>
        rw [hl, hls] at h
        cases h
        rw [Lexeme.eq_of_token hl, ih hls]
        rfl

theorem Lexeme.mapM_token_lexemes (ts : List Token) :
    (Token.lexemes ts).mapM Lexeme.token = .ok ts := by
  induction ts with
  | nil => rfl
  | cons t ts ih =>
    have htoken : t.lexeme.token = .ok t := rfl
    rw [Token.lexemes, List.map_cons, List.mapM_cons, htoken]
    change (do let ts ← (Token.lexemes ts).mapM Lexeme.token; pure (t :: ts)) = _
    rw [ih]
    rfl

/-- A text is made of tokens if it is lexed as they are. -/
theorem Token.ofText_iff_scan {text : String} {ts : List Token} :
    Token.ofText text = .ok ts ↔ Lexeme.scan 0 text.toList = Token.lexemes ts := by
  refine ⟨Lexeme.eq_of_mapM_token, fun h => ?_⟩
  rw [Token.ofText, Lexeme.ofText, h]
  exact Lexeme.mapM_token_lexemes ts

/-- What a reading comes to is settled by its result as an option, which can be computed. -/
theorem eq_ok_of_toOption {ε α : Type} {x : Except ε α} {a : α} (h : x.toOption = some a) :
    x = .ok a := by
  cases x with
  | ok b => cases h; rfl
  | error e => cases h

open Token (ahead lexemes)

namespace Parser

variable {α β : Type} {source : Source}

theorem bind_eq_ok {p : Parser α} {q : α → Parser β} {ls rest : List Lexeme} {b : β}
    (h : (p >>= q) source ls = (.ok b, rest)) :
    ∃ a mid, p source ls = (.ok a, mid) ∧ q a source mid = (.ok b, rest) := by
  match hp : p source ls with
  | (.ok a, mid) => exact ⟨a, mid, rfl, by rw [← h, bind_of_ok hp]⟩
  | (.error d, mid) => rw [bind_of_error hp] at h; cases h

theorem bind_assoc {γ : Type} (p : Parser α) (q : α → Parser β) (r : β → Parser γ) :
    (p >>= q) >>= r = p >>= fun a => q a >>= r := by
  funext source ls
  match hp : p source ls with
  | (.ok a, mid) =>
    rw [bind_of_ok hp]
    show andThen (p >>= q) r source ls = andThen (q a) r source mid
    rw [andThen, andThen, bind_of_ok hp]
  | (.error d, mid) => rw [bind_of_error hp, bind_of_error (bind_of_error hp)]

theorem peekKind_lexemes (source : Source) (ts : List Token) :
    peekKind source (lexemes ts) = (.ok (ahead ts), lexemes ts) := by
  cases ts with
  | nil => rfl
  | cons t ts => rfl

theorem sees_lexemes (source : Source) (kind : Token.Kind) (ts : List Token) :
    sees kind source (lexemes ts) = (.ok (ahead ts == some kind), lexemes ts) := by
  rw [sees, bind_of_ok (peekKind_lexemes source ts)]
  rfl

/-! ## Following a phrase -/

/-- What a parser that follows a phrase does: it takes the tokens of a proper derivation and gives
its tree, seen as a result of the parser. -/
inductive Takes {e : Phrase} (result : e.Value → α) : List Token → α → List Lexeme → Prop
  | intro (d : Derivation e) (rest : List Token) (proper : d.Proper rest) :
    Takes result (d.yield ++ rest) (result d.value) (lexemes rest)

theorem Takes.exists {e : Phrase} {result : e.Value → α} {ts : List Token} {a : α}
    {ls : List Lexeme} (h : Takes result ts a ls) :
    ∃ (d : Derivation e) (rest : List Token), d.yield ++ rest = ts ∧ d.Proper rest ∧
      result d.value = a ∧ lexemes rest = ls := by
  obtain ⟨d, rest, hd⟩ := h
  exact ⟨d, rest, rfl, hd, rfl, rfl⟩

/-- In front of tokens of a kind, a parser succeeds exactly where a phrase has a proper
derivation. -/
def Follows (source : Source) (on : List Token → Prop) (p : Parser α) (e : Phrase)
    (result : e.Value → α) : Prop :=
  ∀ ts, on ts → ∀ a ls, p source (lexemes ts) = (.ok a, ls) ↔ Takes result ts a ls

namespace Follows

variable {on on' : List Token → Prop} {p p' : Parser α} {q : α → Parser β} {a b : Phrase}

theorem mono {result : a.Value → α} (hp : Follows source on' p a result)
    (hon : ∀ ts, on ts → on' ts) : Follows source on p a result :=
  fun ts hts => hp ts (hon ts hts)

theorem congr {result : a.Value → α} (hp : Follows source on p' a result)
    (h : ∀ ts, on ts → p source (lexemes ts) = p' source (lexemes ts)) :
    Follows source on p a result := by
  intro ts hts x ls
  rw [h ts hts]
  exact hp ts hts x ls

/-- One parser after another follows one phrase after another. -/
theorem seq {f : a.Value → α} {result : (Phrase.seq a b).Value → β}
    (hp : Follows source on p a f)
    (hon : ∀ (d : Derivation a) (rest : List Token), on (d.yield ++ rest) → on' rest)
    (hq : ∀ v, Follows source on' (q (f v)) b fun u => result (v, u)) :
    Follows source on (p >>= q) (.seq a b) result := by
  intro ts hts y ls
  constructor
  · intro h
    obtain ⟨x, mid, hx, hy⟩ := bind_eq_ok h
    obtain ⟨d, rest, hd⟩ := (hp ts hts x mid).1 hx
    obtain ⟨d', rest', hd'⟩ := (hq d.value rest (hon d rest hts) y ls).1 hy
    rw [← List.append_assoc]
    exact .intro (.seq d d') rest' ⟨hd, hd'⟩
  · intro h
    obtain ⟨d, rest', hd⟩ := h
    cases d with
    | seq d d' =>
      rw [Derivation.yield, List.append_assoc] at hts ⊢
      rw [bind_of_ok ((hp _ hts _ _).2 (.intro d (d'.yield ++ rest') hd.1))]
      exact (hq d.value _ (hon d _ hts) _ _).2 (.intro d' rest' hd.2)

/-- What is made of the result changes nothing else. -/
theorem map {f : a.Value → α} {g : α → β} {result : a.Value → β} (hp : Follows source on p a f)
    (hg : ∀ v, g (f v) = result v) :
    Follows source on (p >>= fun x => pure (g x)) a result := by
  intro ts hts y ls
  constructor
  · intro h
    obtain ⟨x, mid, hx, hy⟩ := bind_eq_ok h
    obtain ⟨d, rest, hd⟩ := (hp ts hts x mid).1 hx
    cases hy
    rw [hg]
    exact .intro d rest hd
  · intro h
    obtain ⟨d, rest, hd⟩ := h
    rw [bind_of_ok ((hp _ hts _ _).2 (.intro d rest hd)), ← hg]
    rfl

/-- The number of the text may enter the result. -/
theorem map_unit {f : a.Value → α} {g : α → Nat → β} {result : a.Value → β}
    (hp : Follows source on p a f) (hg : ∀ v, g (f v) source.unit = result v) :
    Follows source on (p >>= fun x => unit >>= fun number => pure (g x number)) a result :=
  hp.map hg

theorem ref {n : Nonterminal} {g : n.Tree → α}
    (hp : Follows source on p n.rule fun v => g (n.build v)) (hn : ∀ v, n.Admits (n.build v)) :
    Follows source on p (.ref n) g := by
  intro ts hts x ls
  rw [hp ts hts x ls]
  constructor
  · intro h
    obtain ⟨d, rest, hd⟩ := h
    exact .intro (.ref d) rest ⟨hd, hn d.value⟩
  · intro h
    obtain ⟨d, rest, hd⟩ := h
    cases d with
    | ref d => exact .intro d rest hd.1

theorem inl {result : (Phrase.alt a b).Value → α}
    (hp : Follows source on p a fun v => result (.inl v)) (hb : b.nullable = false)
    (hstarts : ∀ ts, on ts → ¬b.Starts ts) : Follows source on p (.alt a b) result := by
  intro ts hts x ls
  rw [hp ts hts x ls]
  constructor
  · intro h
    obtain ⟨d, rest, hd⟩ := h
    exact .intro (.inl d) rest hd
  · intro h
    obtain ⟨d, rest, hd⟩ := h
    cases d with
    | inl d => exact .intro d rest hd
    | inr d => exact absurd (Phrase.starts_append d hb rest) (hstarts _ hts)

theorem inr {result : (Phrase.alt a b).Value → α}
    (hp : Follows source on p b fun v => result (.inr v)) (ha : a.nullable = false)
    (hstarts : ∀ ts, on ts → ¬a.Starts ts) : Follows source on p (.alt a b) result := by
  intro ts hts x ls
  rw [hp ts hts x ls]
  constructor
  · intro h
    obtain ⟨d, rest, hd⟩ := h
    exact .intro (.inr d) rest hd
  · intro h
    obtain ⟨d, rest, hd⟩ := h
    cases d with
    | inl d => exact absurd (Phrase.starts_append d ha rest) (hstarts _ hts)
    | inr d => exact .intro d rest hd

/-- Where an optional part can start, it is taken. -/
theorem take {result : (Phrase.opt a).Value → α}
    (hp : Follows source on p a fun v => result (some v)) (hstarts : ∀ ts, on ts → a.Starts ts) :
    Follows source on p (.opt a) result := by
  intro ts hts x ls
  rw [hp ts hts x ls]
  constructor
  · intro h
    obtain ⟨d, rest, hd⟩ := h
    exact .intro (.take d) rest hd
  · intro h
    obtain ⟨d, rest, hd⟩ := h
    cases d with
    | skip => exact absurd (hstarts _ hts) hd
    | take d => exact .intro d rest hd

/-- Where an optional part cannot start, it is left out. -/
theorem skip {x : α} {result : (Phrase.opt a).Value → α} (hx : x = result none)
    (ha : a.nullable = false) (hstarts : ∀ ts, on ts → ¬a.Starts ts) :
    Follows source on (pure x) (.opt a) result := by
  subst hx
  intro ts hts x ls
  constructor
  · intro h
    cases h
    exact .intro .skip ts (hstarts ts hts)
  · intro h
    obtain ⟨d, rest, hd⟩ := h
    cases d with
    | skip => rfl
    | take d => exact absurd (Phrase.starts_append d ha rest) (hstarts _ hts)

/-- Where the part of a repetition can start, it is taken. -/
theorem more {result : (Phrase.many a).Value → α}
    (hp : Follows source on p (.seq a (.many a)) fun v => result (v.1 :: v.2))
    (hstarts : ∀ ts, on ts → a.Starts ts) : Follows source on p (.many a) result := by
  intro ts hts x ls
  rw [hp ts hts x ls]
  constructor
  · intro h
    obtain ⟨d, rest, hd⟩ := h
    cases d with
    | seq d ds => exact .intro (.more d ds) rest hd
  · intro h
    obtain ⟨d, rest, hd⟩ := h
    cases d with
    | done => exact absurd (hstarts _ hts) hd
    | more d ds => exact .intro (.seq d ds) rest hd

/-- Where the part of a repetition cannot start, the repetition ends. -/
theorem done {x : α} {result : (Phrase.many a).Value → α} (hx : x = result [])
    (ha : a.nullable = false) (hstarts : ∀ ts, on ts → ¬a.Starts ts) :
    Follows source on (pure x) (.many a) result := by
  subst hx
  intro ts hts x ls
  constructor
  · intro h
    cases h
    exact .intro .done ts (hstarts ts hts)
  · intro h
    obtain ⟨d, rest, hd⟩ := h
    cases d with
    | done => rfl
    | more d ds =>
      rw [Derivation.yield, List.append_assoc] at hts
      exact absurd (Phrase.starts_append d ha _) (hstarts _ hts)

theorem assoc {c : Phrase} {result : (Phrase.seq (.seq a b) c).Value → α}
    (hp : Follows source on p (.seq a (.seq b c)) fun v => result ((v.1, v.2.1), v.2.2)) :
    Follows source on p (.seq (.seq a b) c) result := by
  intro ts hts x ls
  rw [hp ts hts x ls]
  constructor
  · intro h
    obtain ⟨d, rest, hd⟩ := h
    cases d with
    | seq d₁ d =>
      cases d with
      | seq d₂ d₃ =>
        simp only [Derivation.Proper, Derivation.yield, List.append_assoc] at hd ⊢
        rw [← List.append_assoc, ← List.append_assoc]
        exact .intro (.seq (.seq d₁ d₂) d₃) rest ⟨⟨hd.1, hd.2.1⟩, hd.2.2⟩
  · intro h
    obtain ⟨d, rest, hd⟩ := h
    cases d with
    | seq d d₃ =>
      cases d with
      | seq d₁ d₂ =>
        obtain ⟨⟨hd₁, hd₂⟩, hd₃⟩ := hd
        rw [← List.append_assoc] at hd₁
        rw [Derivation.yield, Derivation.yield, List.append_assoc d₁.yield]
        exact .intro (.seq d₁ (.seq d₂ d₃)) rest ⟨hd₁, hd₂, hd₃⟩

theorem seq_inl {c : Phrase} {result : (Phrase.seq (.alt a b) c).Value → α}
    (hp : Follows source on p (.seq a c) fun v => result (.inl v.1, v.2)) (hb : b.nullable = false)
    (hstarts : ∀ ts, on ts → ¬b.Starts ts) : Follows source on p (.seq (.alt a b) c) result := by
  intro ts hts x ls
  rw [hp ts hts x ls]
  constructor
  · intro h
    obtain ⟨d, rest, hd⟩ := h
    cases d with
    | seq d d' => exact .intro (.seq (.inl d) d') rest hd
  · intro h
    obtain ⟨d, rest, hd⟩ := h
    cases d with
    | seq d d' =>
      cases d with
      | inl d => exact .intro (.seq d d') rest hd
      | inr d =>
        rw [Derivation.yield, List.append_assoc] at hts
        exact absurd (Phrase.starts_append d hb _) (hstarts _ hts)

theorem seq_inr {c : Phrase} {result : (Phrase.seq (.alt a b) c).Value → α}
    (hp : Follows source on p (.seq b c) fun v => result (.inr v.1, v.2)) (ha : a.nullable = false)
    (hstarts : ∀ ts, on ts → ¬a.Starts ts) : Follows source on p (.seq (.alt a b) c) result := by
  intro ts hts x ls
  rw [hp ts hts x ls]
  constructor
  · intro h
    obtain ⟨d, rest, hd⟩ := h
    cases d with
    | seq d d' => exact .intro (.seq (.inr d) d') rest hd
  · intro h
    obtain ⟨d, rest, hd⟩ := h
    cases d with
    | seq d d' =>
      cases d with
      | inl d =>
        rw [Derivation.yield, List.append_assoc] at hts
        exact absurd (Phrase.starts_append d ha _) (hstarts _ hts)
      | inr d => exact .intro (.seq d d') rest hd

/-- A repetition in front of a phrase that cannot start yet has a first part. -/
theorem more_seq {c : Phrase} {result : (Phrase.seq (.many a) c).Value → α}
    (hp : Follows source on p (.seq a (.seq (.many a) c)) fun v => result (v.1 :: v.2.1, v.2.2))
    (hc : c.nullable = false) (hstarts : ∀ ts, on ts → ¬c.Starts ts) :
    Follows source on p (.seq (.many a) c) result := by
  intro ts hts x ls
  rw [hp ts hts x ls]
  constructor
  · intro h
    obtain ⟨d, rest, hd⟩ := h
    cases d with
    | seq d₁ d =>
      cases d with
      | seq d₂ d₃ =>
        simp only [Derivation.Proper, Derivation.yield, List.append_assoc] at hd ⊢
        rw [← List.append_assoc, ← List.append_assoc]
        exact .intro (.seq (.more d₁ d₂) d₃) rest ⟨⟨hd.1, hd.2.1⟩, hd.2.2⟩
  · intro h
    obtain ⟨d, rest, hd⟩ := h
    cases d with
    | seq d d₃ =>
      cases d with
      | done => exact absurd (Phrase.starts_append d₃ hc rest) (hstarts _ hts)
      | more d₁ d₂ =>
        obtain ⟨⟨hd₁, hd₂⟩, hd₃⟩ := hd
        rw [← List.append_assoc] at hd₁
        rw [Derivation.yield, Derivation.yield, List.append_assoc d₁.yield]
        exact .intro (.seq d₁ (.seq d₂ d₃)) rest ⟨hd₁, hd₂, hd₃⟩

/-- A repetition whose part cannot start is left out. -/
theorem done_seq {c : Phrase} {result : (Phrase.seq (.many a) c).Value → α}
    (hp : Follows source on p c fun u => result ([], u)) (ha : a.nullable = false)
    (hstarts : ∀ ts, on ts → ¬a.Starts ts) : Follows source on p (.seq (.many a) c) result := by
  intro ts hts x ls
  rw [hp ts hts x ls]
  constructor
  · intro h
    obtain ⟨d, rest, hd⟩ := h
    exact .intro (.seq .done d) rest ⟨hstarts _ hts, hd⟩
  · intro h
    obtain ⟨d, rest, hd⟩ := h
    cases d with
    | seq d d' =>
      cases d with
      | done => exact .intro d' rest hd.2
      | more d ds =>
        simp only [Derivation.yield, List.append_assoc] at hts
        exact absurd (Phrase.starts_append d ha _) (hstarts _ hts)

/-- Where a phrase cannot start, a parser that follows it fails. -/
theorem fails {result : a.Value → α} (ha : a.nullable = false)
    (hstarts : ∀ ts, on ts → ¬a.Starts ts)
    (hp : ∀ ts, on ts → ∀ x ls, p source (lexemes ts) ≠ (.ok x, ls)) :
    Follows source on p a result := by
  intro ts hts x ls
  constructor
  · intro h
    exact absurd h (hp ts hts x ls)
  · intro h
    obtain ⟨d, rest, -⟩ := h
    exact absurd (Phrase.starts_append d ha rest) (hstarts _ hts)

/-- A parser may decide by the kind of the next token. -/
theorem peek {f : Option Token.Kind → Parser α} {result : a.Value → α}
    (h : ∀ next, Follows source (fun ts => on ts ∧ ahead ts = next) (f next) a result) :
    Follows source on (peekKind >>= f) a result := by
  intro ts hts x ls
  rw [bind_of_ok (peekKind_lexemes source ts)]
  exact h (ahead ts) ts ⟨hts, rfl⟩ x ls

theorem sees {kind : Token.Kind} {f : Bool → Parser α} {result : a.Value → α}
    (htrue : Follows source (fun ts => on ts ∧ ahead ts = some kind) (f true) a result)
    (hfalse : Follows source (fun ts => on ts ∧ ahead ts ≠ some kind) (f false) a result) :
    Follows source on (Parser.sees kind >>= f) a result := by
  intro ts hts x ls
  rw [bind_of_ok (sees_lexemes source kind ts)]
  by_cases h : ahead ts = some kind
  · rw [beq_iff_eq.2 h]
    exact htrue ts ⟨hts, h⟩ x ls
  · rw [beq_eq_false_iff_ne.2 h]
    exact hfalse ts ⟨hts, h⟩ x ls

theorem word {w : Terminal} {result : w.Value → α}
    (hnil : ∀ x ls, p source [] ≠ (.ok x, ls))
    (hcons : ∀ t ts, on (t :: ts) → ∀ x ls, p source (lexemes (t :: ts)) = (.ok x, ls) ↔
      ∃ v, w.read t = some v ∧ result v = x ∧ lexemes ts = ls) :
    Follows source on p (.word w) result := by
  intro ts hts x ls
  constructor
  · intro h
    cases ts with
    | nil => exact absurd h (hnil x ls)
    | cons t ts =>
      obtain ⟨v, hread, rfl, rfl⟩ := (hcons t ts hts x ls).1 h
      exact .intro (.word t v hread) ts trivial
  · intro h
    obtain ⟨d, rest, -⟩ := h
    cases d with
    | word t v hread => exact (hcons t rest hts _ _).2 ⟨v, hread, rfl, rfl⟩

end Follows

/-! ## Single tokens -/

theorem expect_cons (kind : Token.Kind) (wanted : Wanted) (t : Token) (ts : List Token) :
    expect kind wanted source (lexemes (t :: ts)) =
      (if t.kind = kind then pure t else unexpected wanted t : Parser Token) source (lexemes ts) :=
  rfl

theorem expect_follows (on : List Token → Prop) (kind : Token.Kind) (wanted : Wanted) :
    Follows source on (expect kind wanted) (.word (.exactly kind)) fun t => t := by
  refine Follows.word nofun ?_
  intro t ts _ x ls
  rw [expect_cons, Terminal.read]
  by_cases hkind : t.kind = kind
  · rw [if_pos hkind, if_pos hkind]
    constructor
    · intro h
      cases h
      exact ⟨t, rfl, rfl, rfl⟩
    · rintro ⟨_, ⟨⟩, rfl, rfl⟩
      rfl
  · rw [if_neg hkind, if_neg hkind]
    constructor
    · intro h
      cases h
    · rintro ⟨_, h, -⟩
      cases h

/-- A token that is known to be next needs no test. -/
theorem next_follows {on : List Token → Prop} {kind : Token.Kind}
    (hon : ∀ ts, on ts → ahead ts = some kind) :
    Follows source on next (.word (.exactly kind)) fun t => t := by
  refine (expect_follows on kind .literal).congr ?_
  intro ts hts
  have hnext := hon ts hts
  cases ts with
  | nil => cases hnext
  | cons t ts =>
    rw [expect_cons, if_pos (Option.some.inj hnext)]
    rfl

theorem identifier_follows (on : List Token → Prop) :
    Follows source on identifier .identifier Token.ident := by
  have hmap : Follows source on (expect .identifier .identifier >>= fun t => pure (Token.ident t))
      .identifier Token.ident := (expect_follows on _ _).map fun _ => rfl
  refine hmap.congr ?_
  intro ts _
  cases ts with
  | nil => rfl
  | cons t ts =>
    show (if t.kind = .identifier then pure t.ident else unexpected .identifier t : Parser Ident)
      source (lexemes ts) = _
    by_cases hkind : t.kind = .identifier
    · rw [if_pos hkind, bind_of_ok (by rw [expect_cons, if_pos hkind]; rfl)]
    · rw [if_neg hkind, bind_of_error (by rw [expect_cons, if_neg hkind]; rfl)]
      rfl

theorem literal_follows (on : List Token → Prop) :
    Follows source on literal (.ref .literal) fun e => e := by
  refine Follows.ref ?_ fun _ => trivial
  intro ts _ x ls
  constructor
  · intro h
    cases ts with
    | nil => cases h
    | cons t ts =>
      obtain ⟨kind, span, text⟩ := t
      cases kind with
      | string value =>
        cases h
        exact .intro (.inl (.word (w := .string) ⟨.string value, span, text⟩ (value, _) rfl)) ts
          trivial
      | number n =>
        cases h
        exact .intro (.inr (.inl (.word (w := .number) ⟨.number n, span, text⟩ (n, _) rfl))) ts
          trivial
      | typeName ty =>
        cases h
        exact .intro (.inr (.inr (.word (w := .typeName) ⟨.typeName ty, span, text⟩ (ty, _) rfl))) ts
          trivial
      | _ => cases h
  · intro h
    obtain ⟨d, rest, -⟩ := h
    cases d with
    | inl d =>
      cases d with
      | word t v hread =>
        obtain ⟨kind, span, text⟩ := t
        cases kind <;> cases hread
        rfl
    | inr d =>
      cases d with
      | inl d =>
        cases d with
        | word t v hread =>
          obtain ⟨kind, span, text⟩ := t
          cases kind <;> cases hread
          rfl
      | inr d =>
        cases d with
        | word t v hread =>
          obtain ⟨kind, span, text⟩ := t
          cases kind <;> cases hread
          rfl

/-! ## Loops -/

/-- There are at most `n` tokens. -/
def AtMost (n : Nat) (ts : List Token) : Prop := ts.length ≤ n

theorem AtMost.rest {n : Nat} {e : Phrase} (d : Derivation e) (rest : List Token)
    (h : AtMost n (d.yield ++ rest)) : AtMost n rest := by
  rw [AtMost, List.length_append] at h
  rw [AtMost]
  omega

/-- A phrase that is not empty leaves fewer tokens. -/
theorem AtMost.rest_of_succ {n : Nat} {e : Phrase} (he : e.nullable = false) (d : Derivation e)
    (rest : List Token) (h : AtMost (n + 1) (d.yield ++ rest)) : AtMost n rest := by
  have hpos := List.length_pos_iff.2 (d.yield_ne_nil he)
  rw [AtMost, List.length_append] at h
  rw [AtMost]
  omega

theorem AtMost.not_starts {e : Phrase} {ts : List Token} (h : AtMost 0 ts) : ¬e.Starts ts := by
  obtain rfl : ts = [] := List.length_eq_zero_iff.1 (Nat.le_zero.1 h)
  exact Phrase.not_starts nofun

/-- A token that is known to be next, and what follows it. -/
theorem Follows.next_seq {n : Nat} {kind : Token.Kind} {e : Phrase} {q : Token → Parser α}
    {result : (Phrase.seq (.word (.exactly kind)) e).Value → α}
    (hq : ∀ t, Follows source (AtMost n) (q t) e fun u => result (t, u)) :
    Follows source (fun ts => AtMost (n + 1) ts ∧ ahead ts = some kind) (next >>= q)
      (.seq (.word (.exactly kind)) e) result :=
  Follows.seq (next_follows fun _ h => h.2) (fun d rest h => AtMost.rest_of_succ rfl d rest h.1) hq

/-- A repetition up to a symbol that cannot start its part, and what follows it from that symbol
on. -/
theorem untilSymbol_follows {close : Symbol} {element : Parser α} {e c : Phrase} {f : e.Value → α}
    {n : Nat} (helement : Follows source (AtMost n) element e f) (he : e.nullable = false)
    (hclose : e.mayStart (.symbol close) = false) (hc : c.nullable = false)
    (hstart : ∀ kind, c.mayStart kind = (kind == .symbol close)) {bound : Nat} (hbound : bound ≤ n)
    {q : List α → Parser β} {result : (Phrase.seq (.many e) c).Value → β}
    (hq : ∀ vs, Follows source (AtMost n) (q (vs.map f)) c fun u => result (vs, u)) :
    Follows source (AtMost bound) (untilSymbol close element bound >>= q) (.seq (.many e) c)
      result := by
  induction bound generalizing q result with
  | zero =>
    have hnullable : (Phrase.seq (.many e) c).nullable = false := by
      rw [Phrase.nullable, hc, Bool.and_false]
    refine Follows.fails hnullable (fun _ => AtMost.not_starts) ?_
    intro ts _ x ls h
    cases h
  | succ bound ih =>
    rw [untilSymbol, bind_assoc]
    refine Follows.sees ?_ ?_
    · refine Follows.done_seq ?_ he fun _ h => Phrase.not_starts_of_ahead h.2 hclose
      exact (hq []).mono fun _ h => Nat.le_trans h.1 hbound
    · refine Follows.more_seq ?_ hc fun _ h => Phrase.not_starts_of_ne h.2 hstart
      rw [if_neg Bool.false_ne_true, bind_assoc]
      refine Follows.seq (helement.mono fun _ h => Nat.le_trans h.1 hbound)
        (fun d rest h => AtMost.rest_of_succ he d rest h.1) fun v => ?_
      rw [bind_assoc]
      exact ih (Nat.le_of_succ_le hbound) fun vs => hq (v :: vs)

/-- The operators of a level are written with two signs. -/
structure IsLevel (level : Token.Kind → Option Operator) (s s' : Symbol) (op op' : Operator) :
    Prop where
  ne : Token.Kind.symbol s ≠ .symbol s'
  first : level (.symbol s) = some op
  second : level (.symbol s') = some op'
  other : ∀ kind, kind ≠ .symbol s → kind ≠ .symbol s' → level kind = none

theorem additive_isLevel : IsLevel additive .plus .minus .add .sub where
  ne := by decide
  first := rfl
  second := rfl
  other kind h h' := by
    unfold additive
    split
    · exact absurd rfl h
    · exact absurd rfl h'
    · rfl

theorem multiplicative_isLevel : IsLevel multiplicative .star .slash .mul .div where
  ne := by decide
  first := rfl
  second := rfl
  other kind h h' := by
    unfold multiplicative
    split
    · exact absurd rfl h
    · exact absurd rfl h'
    · rfl

section Chain

variable {level : Token.Kind → Option Operator} {s s' : Symbol} {op op' : Operator}
  (hlevel : IsLevel level s s' op op')

theorem operator_cons {t : Token} {o : Operator} (h : level t.kind = some o) (ts : List Token) :
    operator level source (lexemes (t :: ts)) = (.ok (some o), lexemes ts) := by
  have hfound : (ahead (t :: ts)).bind level = some o := h
  rw [operator, bind_of_ok (peekKind_lexemes source (t :: ts)), hfound]
  rfl

theorem operator_of_none {ts : List Token} (h : (ahead ts).bind level = none) :
    operator level source (lexemes ts) = (.ok none, lexemes ts) := by
  rw [operator, bind_of_ok (peekKind_lexemes source ts), h]
  rfl

include hlevel

/-- A parser may decide by the next operator. -/
theorem Follows.operator {on : List Token → Prop} {f : Option Operator → Parser α} {e : Phrase}
    {result : e.Value → α}
    (hs : Follows source (fun ts => on ts ∧ ahead ts = some (.symbol s))
      (next >>= fun _ => f (some op)) e result)
    (hs' : Follows source (fun ts => on ts ∧ ahead ts = some (.symbol s'))
      (next >>= fun _ => f (some op')) e result)
    (hnone : Follows source
      (fun ts => on ts ∧ ahead ts ≠ some (.symbol s) ∧ ahead ts ≠ some (.symbol s')) (f none) e
      result) :
    Follows source on (Parser.operator level >>= f) e result := by
  intro ts hts x ls
  cases ts with
  | nil => exact hnone [] ⟨hts, nofun, nofun⟩ x ls
  | cons t ts =>
    by_cases h : t.kind = .symbol s
    · rw [bind_of_ok (operator_cons (h ▸ hlevel.first) ts)]
      exact hs (t :: ts) ⟨hts, congrArg some h⟩ x ls
    · by_cases h' : t.kind = .symbol s'
      · rw [bind_of_ok (operator_cons (h' ▸ hlevel.second) ts)]
        exact hs' (t :: ts) ⟨hts, congrArg some h'⟩ x ls
      · have hahead : (ahead (t :: ts)).bind level = none := hlevel.other t.kind h h'
        rw [bind_of_ok (operator_of_none hahead)]
        exact hnone (t :: ts)
          ⟨hts, fun heq => h (Option.some.inj heq), fun heq => h' (Option.some.inj heq)⟩ x ls

/-- What follows an operand goes on as long as the next token is an operator of the level. -/
theorem chain_follows {operand : Parser Expr} {e : Phrase} {f : e.Value → Expr} {n bound : Nat}
    (hoperand : Follows source (AtMost n) operand e f) (sample : Derivation e)
    (hbound : bound ≤ n) (left : Expr) :
    Follows source (AtMost bound) (chain level operand bound left)
      (.many (.seq (.alt (.sign s) (.sign s')) e)) fun others =>
        others.foldl (fun left part => .binary (.ofSide op op' part.1) left (f part.2)) left := by
  induction bound generalizing left with
  | zero => exact Follows.done rfl rfl fun _ => AtMost.not_starts
  | succ bound ih =>
    have hrest : ∀ o, Follows source (AtMost bound)
        (operand >>= fun right => chain level operand bound (.binary o left right))
        (.seq e (.many (.seq (.alt (.sign s) (.sign s')) e))) fun v =>
          v.2.foldl (fun left part => .binary (.ofSide op op' part.1) left (f part.2))
            (.binary o left (f v.1)) := by
      intro o
      refine Follows.seq (hoperand.mono fun _ h => Nat.le_trans h (Nat.le_of_succ_le hbound))
        AtMost.rest fun v => ?_
      exact ih (Nat.le_of_succ_le hbound) _
    rw [chain]
    refine Follows.operator hlevel ?_ ?_ ?_
    · refine Follows.more (Follows.assoc (Follows.seq_inl ?_ rfl ?_)) ?_
      · exact Follows.next_seq fun _ => hrest op
      · exact fun _ h => Phrase.not_starts_of_ahead h.2 (beq_eq_false_iff_ne.2 hlevel.ne)
      · exact fun _ h => (Phrase.Starts.inl (Phrase.starts_exactly h.2)).seq sample
    · refine Follows.more (Follows.assoc (Follows.seq_inr ?_ rfl ?_)) ?_
      · exact Follows.next_seq fun _ => hrest op'
      · exact fun _ h => Phrase.not_starts_of_ahead h.2 (beq_eq_false_iff_ne.2 hlevel.ne.symm)
      · exact fun _ h => (Phrase.Starts.inr (Phrase.starts_exactly h.2)).seq sample
    · refine Follows.done rfl rfl fun ts h => Phrase.not_starts fun kind hkind => ?_
      rw [hkind, ne_eq, ne_eq, Option.some.injEq, Option.some.injEq] at h
      simp [Phrase.mayStart, Phrase.nullable, Phrase.sign, Terminal.allows, h.2.1, h.2.2]

end Chain

end Parser

end ExprLang
