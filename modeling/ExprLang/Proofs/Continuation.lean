import ExprLang.Proofs.Grammar

/-!
# What may follow a phrase

Whether a derivation is proper in front of some tokens is decided by the first of them, and that
token matters only if the phrase could go on with it (`Phrase.mayContinue`). Which tokens those are
is a question of levels: an expression of a level goes on with the operators of its own level and of
the higher ones.

`Phrase.Derives` leaves the derivation out: a phrase derives these tokens in front of those.
-/

namespace ExprLang

open Token (ahead)

/-! ## Levels -/

/-- How tightly an expression holds together. What is closed by itself has the level four. -/
def Nonterminal.level : Nonterminal → Nat
  | item => 0
  | statement => 0
  | expression => 0
  | term => 0
  | factor => 1
  | coerce => 2
  | call => 3
  | _ => 4

/-- The level on which a token goes on with an expression. -/
def Token.Kind.level? : Token.Kind → Option Nat
  | symbol .plus => some 0
  | symbol .minus => some 0
  | symbol .star => some 1
  | symbol .slash => some 1
  | as => some 2
  | symbol .leftParen => some 3
  | _ => none

def Nonterminal.mayContinue (n : Nonterminal) (kind : Token.Kind) : Bool :=
  kind.level?.any fun level => n.level ≤ level

/-- A higher level goes on with fewer tokens. -/
theorem Nonterminal.not_mayContinue_of_le {m n : Nonterminal} {kind : Token.Kind}
    (hle : m.level ≤ n.level) (h : m.mayContinue kind = false) : n.mayContinue kind = false := by
  cases hlevel : kind.level? with
  | none => simp [mayContinue, hlevel]
  | some level =>
    simp only [mayContinue, hlevel, Option.any_some, decide_eq_false_iff_not] at h ⊢
    omega

theorem Nonterminal.not_mayContinue_of_closed {n : Nonterminal} (h : n.level = 4)
    (kind : Token.Kind) : n.mayContinue kind = false := by
  unfold mayContinue
  rw [h]
  cases kind with
  | symbol s => cases s <;> rfl
  | _ => rfl

/-- The kinds with which a phrase goes on behind some of the tokens that it derives. -/
def Phrase.mayContinue : Phrase → Token.Kind → Bool
  | word _, _ => false
  | ref n, kind => n.mayContinue kind
  | seq a b, kind => b.mayContinue kind || b.nullable && a.mayContinue kind
  | alt a b, kind => a.mayContinue kind || b.mayContinue kind
  | opt a, kind => a.mayStart kind || a.mayContinue kind
  | many a, kind => a.mayStart kind || a.mayContinue kind

theorem Nonterminal.mayContinue_of_rule (n : Nonterminal) (kind : Token.Kind)
    (h : n.rule.mayContinue kind = true) : n.mayContinue kind = true := by
  cases kind with
  | symbol s => cases n <;> cases s <;> first | rfl | cases h
  | _ => cases n <;> first | rfl | cases h

theorem Phrase.starts_congr {e : Phrase} {rest rest' : List Token} (h : ahead rest' = ahead rest) :
    e.Starts rest' ↔ e.Starts rest := by
  simp only [Starts, h]

namespace Token

theorem ahead_append_of_ne_nil {ts : List Token} (h : ts ≠ []) (rest : List Token) :
    ahead (ts ++ rest) = ahead ts := by
  cases ts with
  | nil => exact absurd rfl h
  | cons t ts => rfl

end Token

/-- A derivation stays proper in front of other tokens if the first is of the same kind, or of one
that the phrase does not go on with. -/
theorem Derivation.Proper.of_ahead {e : Phrase} {d : Derivation e} {rest rest' : List Token}
    (h : d.Proper rest)
    (hahead : ahead rest' = ahead rest ∨
      ∀ kind, ahead rest' = some kind → e.mayContinue kind = false) : d.Proper rest' := by
  induction d generalizing rest rest' with
  | word t v hread => trivial
  | @ref n d ih =>
    refine ⟨ih h.1 (hahead.imp_right fun hnot kind hkind => ?_), h.2⟩
    have hn := hnot kind hkind
    cases hrule : n.rule.mayContinue kind with
    | false => rfl
    | true => rw [Phrase.mayContinue, n.mayContinue_of_rule kind hrule] at hn; cases hn
  | @seq a b d d' ih ih' =>
    obtain ⟨hd, hd'⟩ := h
    have hnot' : ahead rest' = ahead rest ∨
        ∀ kind, ahead rest' = some kind → b.mayContinue kind = false :=
      hahead.imp_right fun hnot kind hkind => (Bool.or_eq_false_iff.1 (hnot kind hkind)).1
    refine ⟨ih hd ?_, ih' hd' hnot'⟩
    by_cases hyield : d'.yield = []
    · -- The second part is empty, so the next token is the one behind both.
      have hb : b.nullable = true := by
        cases hb : b.nullable with
        | true => rfl
        | false => exact absurd hyield (d'.yield_ne_nil hb)
      simp only [hyield, List.nil_append]
      refine hahead.imp_right fun hnot kind hkind => ?_
      have := (Bool.or_eq_false_iff.1 (hnot kind hkind)).2
      rwa [hb, Bool.true_and] at this
    · left
      rw [Token.ahead_append_of_ne_nil hyield, Token.ahead_append_of_ne_nil hyield]
  | inl d ih =>
    refine ih h (hahead.imp_right fun hnot kind hkind => ?_)
    exact (Bool.or_eq_false_iff.1 (hnot kind hkind)).1
  | inr d ih =>
    refine ih h (hahead.imp_right fun hnot kind hkind => ?_)
    exact (Bool.or_eq_false_iff.1 (hnot kind hkind)).2
  | @skip a =>
    rcases hahead with heq | hnot
    · rwa [Proper, Phrase.starts_congr heq]
    · exact Phrase.not_starts fun kind hkind => (Bool.or_eq_false_iff.1 (hnot kind hkind)).1
  | take d ih =>
    refine ih h (hahead.imp_right fun hnot kind hkind => ?_)
    exact (Bool.or_eq_false_iff.1 (hnot kind hkind)).2
  | @done a =>
    rcases hahead with heq | hnot
    · rwa [Proper, Phrase.starts_congr heq]
    · exact Phrase.not_starts fun kind hkind => (Bool.or_eq_false_iff.1 (hnot kind hkind)).1
  | @more a d ds ih ih' =>
    obtain ⟨hd, hds⟩ := h
    refine ⟨ih hd ?_, ih' hds hahead⟩
    by_cases hyield : ds.yield = []
    · simp only [hyield, List.nil_append]
      exact hahead.imp_right fun hnot kind hkind => (Bool.or_eq_false_iff.1 (hnot kind hkind)).2
    · left
      rw [Token.ahead_append_of_ne_nil hyield, Token.ahead_append_of_ne_nil hyield]

/-! ## Derived tokens -/

namespace Phrase

/-- A phrase derives tokens in front of others, properly. -/
def Derives (e : Phrase) (ts rest : List Token) : Prop :=
  ∃ d : Derivation e, d.yield = ts ∧ d.Proper rest

variable {a b c : Phrase} {ts rest rest' : List Token}

theorem Derives.of_ahead (h : a.Derives ts rest) (hahead : ahead rest' = ahead rest) :
    a.Derives ts rest' := by
  obtain ⟨d, hyield, hd⟩ := h
  exact ⟨d, hyield, hd.of_ahead (.inl hahead)⟩

theorem Derives.in_front_of (h : a.Derives ts rest)
    (hnot : ∀ kind, ahead rest' = some kind → a.mayContinue kind = false) : a.Derives ts rest' := by
  obtain ⟨d, hyield, hd⟩ := h
  exact ⟨d, hyield, hd.of_ahead (.inr hnot)⟩

theorem Derives.starts (h : a.Derives ts rest) (ha : a.nullable = false) (more : List Token) :
    a.Starts (ts ++ more) := by
  obtain ⟨d, rfl, -⟩ := h
  exact starts_append d ha more

theorem Derives.mayStart {t : Token} (h : a.Derives (t :: ts) rest) : a.mayStart t.kind = true := by
  obtain ⟨d, hyield, -⟩ := h
  exact d.mayStart hyield

/-- The tokens tell what a phrase takes of them. -/
theorem Derives.unique {ts' : List Token} (ha : a.Separate) (h : a.Derives ts rest)
    (h' : a.Derives ts' rest') (heq : ts ++ rest = ts' ++ rest') : ts = ts' ∧ rest = rest' := by
  obtain ⟨d, rfl, hd⟩ := h
  obtain ⟨d', rfl, hd'⟩ := h'
  obtain ⟨rfl, hrest⟩ := d.eq_of_proper d' ha hd hd' heq
  exact ⟨rfl, hrest⟩

theorem derives_exactly {kind : Token.Kind} :
    (word (.exactly kind)).Derives ts rest ↔ ∃ t, ts = [t] ∧ t.kind = kind := by
  constructor
  · rintro ⟨d, rfl, -⟩
    cases d with
    | word t v hread =>
      have hkind := Terminal.allows_of_read hread
      exact ⟨t, rfl, beq_iff_eq.1 hkind⟩
  · rintro ⟨t, rfl, hkind⟩
    exact ⟨.word t t (if_pos hkind), rfl, trivial⟩

/-- Where nothing is asked of the tree, a nonterminal derives what its rule does. -/
theorem derives_ref {n : Nonterminal} (hn : ∀ v, n.Admits (n.build v)) :
    (ref n).Derives ts rest ↔ n.rule.Derives ts rest := by
  constructor
  · rintro ⟨d, rfl, hd⟩
    cases d with
    | ref d => exact ⟨d, rfl, hd.1⟩
  · rintro ⟨d, rfl, hd⟩
    exact ⟨.ref d, rfl, hd, hn d.value⟩

theorem derives_seq :
    (seq a b).Derives ts rest ↔
      ∃ front back, ts = front ++ back ∧ a.Derives front (back ++ rest) ∧ b.Derives back rest := by
  constructor
  · rintro ⟨d, rfl, hd⟩
    cases d with
    | seq d d' => exact ⟨d.yield, d'.yield, rfl, ⟨d, rfl, hd.1⟩, d', rfl, hd.2⟩
  · rintro ⟨_, _, rfl, ⟨d, rfl, hd⟩, d', rfl, hd'⟩
    exact ⟨.seq d d', rfl, hd, hd'⟩

theorem derives_alt :
    (alt a b).Derives ts rest ↔ a.Derives ts rest ∨ b.Derives ts rest := by
  constructor
  · rintro ⟨d, rfl, hd⟩
    cases d with
    | inl d => exact .inl ⟨d, rfl, hd⟩
    | inr d => exact .inr ⟨d, rfl, hd⟩
  · rintro (⟨d, rfl, hd⟩ | ⟨d, rfl, hd⟩)
    · exact ⟨.inl d, rfl, hd⟩
    · exact ⟨.inr d, rfl, hd⟩

theorem derives_opt :
    (opt a).Derives ts rest ↔ (ts = [] ∧ ¬a.Starts rest) ∨ a.Derives ts rest := by
  constructor
  · rintro ⟨d, rfl, hd⟩
    cases d with
    | skip => exact .inl ⟨rfl, hd⟩
    | take d => exact .inr ⟨d, rfl, hd⟩
  · rintro (⟨rfl, hnot⟩ | ⟨d, rfl, hd⟩)
    · exact ⟨.skip, rfl, hnot⟩
    · exact ⟨.take d, rfl, hd⟩

theorem derives_many :
    (many a).Derives ts rest ↔ (ts = [] ∧ ¬a.Starts rest) ∨ (seq a (many a)).Derives ts rest := by
  constructor
  · rintro ⟨d, rfl, hd⟩
    cases d with
    | done => exact .inl ⟨rfl, hd⟩
    | more d ds => exact .inr ⟨.seq d ds, rfl, hd⟩
  · rintro (⟨rfl, hnot⟩ | ⟨d, rfl, hd⟩)
    · exact ⟨.done, rfl, hnot⟩
    · cases d with
      | seq d ds => exact ⟨.more d ds, rfl, hd⟩

theorem derives_assoc : (seq (seq a b) c).Derives ts rest ↔ (seq a (seq b c)).Derives ts rest := by
  simp only [derives_seq]
  constructor
  · rintro ⟨_, back, rfl, ⟨front, mid, rfl, ha, hb⟩, hc⟩
    rw [← List.append_assoc] at ha
    exact ⟨front, mid ++ back, List.append_assoc .., ha, mid, back, rfl, hb, hc⟩
  · rintro ⟨front, _, rfl, ha, mid, back, rfl, hb, hc⟩
    rw [List.append_assoc] at ha
    exact ⟨front ++ mid, back, (List.append_assoc ..).symm, ⟨front, mid, rfl, ha, hb⟩, hc⟩

theorem derives_many_seq :
    (seq (many a) c).Derives ts rest ↔
      (c.Derives ts rest ∧ ¬a.Starts (ts ++ rest)) ∨ (seq a (seq (many a) c)).Derives ts rest := by
  rw [← derives_assoc, derives_seq, derives_seq]
  constructor
  · rintro ⟨front, back, rfl, hfront, hback⟩
    rcases derives_many.1 hfront with ⟨rfl, hnot⟩ | hmore
    · exact .inl ⟨hback, hnot⟩
    · exact .inr ⟨front, back, rfl, hmore, hback⟩
  · rintro (⟨hts, hnot⟩ | ⟨front, back, rfl, hfront, hback⟩)
    · exact ⟨[], ts, rfl, derives_many.2 (.inl ⟨rfl, hnot⟩), hts⟩
    · exact ⟨front, back, rfl, derives_many.2 (.inr hfront), hback⟩

end Phrase

/-! ## Repetitions -/

namespace Derivation

/-- A repetition with one more part behind the others. -/
def snoc {a : Phrase} : Derivation (.many a) → Derivation a → Derivation (.many a)
  | done, d => more d done
  | more first others, d => more first (others.snoc d)

variable {a : Phrase}

theorem yield_snoc (ds : Derivation (.many a)) (d : Derivation a) :
    (ds.snoc d).yield = ds.yield ++ d.yield :=
  match ds with
  | done => by simp [snoc, yield]
  | more first others => by simp [snoc, yield, yield_snoc others d]

theorem value_snoc (ds : Derivation (.many a)) (d : Derivation a) :
    (ds.snoc d).value = ds.value ++ [d.value] :=
  match ds with
  | done => by simp [snoc, value]
  | more first others => by simp [snoc, value, value_snoc others d]

/-- The last of the other parts ends where the new one begins, as long as it could not go on with
it. -/
theorem Proper.snoc {ds : Derivation (.many a)} {d : Derivation a} {rest rest' : List Token}
    (hds : ds.Proper rest) (hd : d.Proper rest') (hend : ¬a.Starts rest')
    (hnot : ∀ kind, ahead (d.yield ++ rest') = some kind → a.mayContinue kind = false) :
    (ds.snoc d).Proper rest' :=
  match ds, hds with
  | done, _ => by
    rw [Derivation.snoc]
    exact ⟨hd, hend⟩
  | more first others, ⟨hfirst, hothers⟩ => by
    rw [Derivation.snoc]
    refine ⟨hfirst.of_ahead ?_, hothers.snoc hd hend hnot⟩
    rw [yield_snoc, List.append_assoc]
    by_cases hyield : others.yield = []
    · right
      simpa [hyield] using hnot
    · left
      rw [Token.ahead_append_of_ne_nil hyield, Token.ahead_append_of_ne_nil hyield]

/-- Operands with a part behind them that goes on with none of them. -/
theorem Proper.seq_snoc {b : Phrase} {first : Derivation b} {ds : Derivation (.many (.seq a b))}
    {d : Derivation (.seq a b)} {rest rest' : List Token}
    (hds : (Derivation.seq first ds).Proper rest) (hd : d.Proper rest')
    (hend : ¬(Phrase.seq a b).Starts rest') (hb : b.nullable = false)
    (hnot : ∀ kind, ahead (d.yield ++ rest') = some kind → b.mayContinue kind = false) :
    (Derivation.seq first (ds.snoc d)).Proper rest' := by
  obtain ⟨hfirst, hothers⟩ := hds
  refine ⟨hfirst.of_ahead ?_, hothers.snoc hd hend fun kind hkind => ?_⟩
  · rw [yield_snoc, List.append_assoc]
    by_cases hyield : ds.yield = []
    · right
      simpa [hyield] using hnot
    · left
      rw [Token.ahead_append_of_ne_nil hyield, Token.ahead_append_of_ne_nil hyield]
  · rw [Phrase.mayContinue, hnot kind hkind, hb]
    rfl

end Derivation

theorem Expr.grouped_snoc (op op' : Operator) (first : Expr)
    (others : List ((Token ⊕ Token) × Expr)) (part : (Token ⊕ Token) × Expr) :
    grouped op op' first (others ++ [part]) =
      .binary (.ofSide op op' part.1) (grouped op op' first others) part.2 := by
  simp [grouped]

end ExprLang
