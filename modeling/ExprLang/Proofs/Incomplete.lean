import ExprLang.Proofs.Spacing
import ExprLang.Proofs.Verdicts

/-!
# Incomplete programs

A text of tokens fails to parse because it has ended exactly if it is the beginning of a longer
program (`Item.ofText_eof_iff`). What completes it can be written behind it: the tokens are spelled
with a blank behind each (`Lexeme.scan_spelled`).
-/

namespace ExprLang

open Token (lexemes)

/-! ## Spelling -/

/-- A symbol as it is written, and a name for everything else. -/
def Token.Kind.spelling : Token.Kind → List Char
  | symbol s => [s.char]
  | _ => ['x']

/-- Tokens of some kinds, each with a blank behind it. -/
def Token.Kind.spelled (kinds : List Token.Kind) : List Char :=
  kinds.flatMap fun kind => kind.spelling ++ [' ']

namespace Lexeme

theorem scan_of_cut {c : Char} {cs : List Char} {kind : Token.Kind} (hc : Text.isBlank c = false)
    (hcut : cut c cs = ⟨c :: cs, [], .ok kind⟩) (start : Nat) :
    ∃ t : Token, t.kind = kind ∧ scan start (c :: cs) = lexemes [t] := by
  refine ⟨⟨kind, ⟨start, start + Text.byteSize (c :: cs)⟩, String.ofList (c :: cs)⟩, rfl, ?_⟩
  rw [scan_of_not_blank hc, hcut]
  simp only [scan]
  rfl

theorem scan_spelling {kind : Token.Kind} (h : kind.isPlain = true) (start : Nat) :
    ∃ t : Token, t.kind = kind ∧ scan start kind.spelling = lexemes [t] := by
  cases kind with
  | symbol s => cases s <;> exact scan_of_cut (by decide) rfl start
  | identifier => exact scan_of_cut (by decide) rfl start
  | _ => cases h

theorem closed_of_tokens {start : Nat} {cs : List Char} {ts : List Token}
    (h : scan start cs = lexemes ts) : Closed start cs := by
  intro l hl d hd
  rw [h] at hl
  obtain ⟨t, -, rfl⟩ := List.mem_map.1 hl
  cases hd

theorem scan_spelled {kinds : List Token.Kind} (h : ∀ kind ∈ kinds, kind.isPlain = true)
    (start : Nat) :
    ∃ ts : List Token, ts.map Token.kind = kinds ∧
      scan start (Token.Kind.spelled kinds) = lexemes ts := by
  induction kinds generalizing start with
  | nil => exact ⟨[], rfl, by simp [Token.Kind.spelled, scan, lexemes]⟩
  | cons kind kinds ih =>
    obtain ⟨t, rfl, hfirst⟩ := scan_spelling (h kind List.mem_cons_self) start
    obtain ⟨ts, rfl, hothers⟩ := ih (fun k hk => h k (List.mem_cons_of_mem _ hk))
      (start + Text.byteSize t.kind.spelling + ' '.utf8Size)
    refine ⟨t :: ts, rfl, ?_⟩
    have hclosed : Closed start t.kind.spelling := closed_of_tokens hfirst
    have hspelled : Token.Kind.spelled (t.kind :: ts.map Token.kind) =
        t.kind.spelling ++ ' ' :: Token.Kind.spelled (ts.map Token.kind) := by
      simp [Token.Kind.spelled]
    rw [hspelled, scan_append separates_space start _ _ hclosed, hfirst, hothers]
    rfl

end Lexeme

/-! ## Texts of tokens -/

namespace Item

variable {unit : Nat} {text : String} {ts : List Token}

/-- A text of tokens is a program if its tokens are derived. -/
theorem exists_ofText_iff (hts : Token.ofText text = .ok ts) :
    (∃ items, Item.ofText unit text = .ok items) ↔ Phrase.program.Derives ts [] := by
  have hprogram := Parse.program_ofLexemes_iff (Source.ofText unit text) (Nat.le_refl ts.length)
  simp only [ofText_eq_program hts, hprogram]
  constructor
  · rintro ⟨items, d, hyield, hd, -⟩
    exact ⟨d, hyield, hd⟩
  · rintro ⟨d, hyield, hd⟩
    exact ⟨_, d, hyield, hd, rfl⟩

/-- The diagnostic of a text of tokens tells whether something is missing behind it. -/
theorem ofText_error (hts : Token.ofText text = .ok ts) {d : Diagnostic}
    (h : Item.ofText unit text = .error d) :
    (d = ⟨.unexpectedEnd, Span.point text.utf8ByteSize⟩ ∧
      ∃ kinds, Phrase.program.Completes ts kinds) ∨
    (d.kind ≠ .eof ∧ ∀ more, ¬Phrase.program.Derives (ts ++ more) []) := by
  rw [ofText_eq_program hts] at h
  exact Parse.program_error (Source.ofText unit text) (Nat.le_refl ts.length) h

/-- What completes the tokens of a text can be written behind it. -/
theorem exists_text_of_completes {kinds : List Token.Kind} (hts : Token.ofText text = .ok ts)
    (h : Phrase.program.Completes ts kinds) :
    ∃ text' more, Token.ofText text' = .ok (ts ++ more) ∧
      Phrase.program.Derives (ts ++ more) [] := by
  have hlexemes := Token.ofText_iff_scan.1 hts
  obtain ⟨more, hkinds, hmore⟩ := Lexeme.scan_spelled h.plain
    (0 + Text.byteSize text.toList + ' '.utf8Size)
  refine ⟨String.ofList (text.toList ++ ' ' :: Token.Kind.spelled kinds), more, ?_,
    h.derives more hkinds⟩
  rw [Token.ofText_iff_scan, String.toList_ofList,
    Lexeme.scan_append Lexeme.separates_space _ _ _ (Lexeme.closed_of_tokens hlexemes), hlexemes,
    hmore]
  simp [lexemes]

/-- **The end of a text is blamed exactly where the text is incomplete.** A text of tokens fails
with a diagnostic of the kind `eof` if and only if it is no program, but its tokens begin those of
one. So a program that is cut between two of its tokens is a program or is blamed at its end. -/
theorem ofText_eof_iff (unit : Nat) {text : String} {ts : List Token}
    (hts : Token.ofText text = .ok ts) :
    ((∃ d, Item.ofText unit text = .error d ∧ d.kind = .eof) ↔
      (¬∃ items, Item.ofText unit text = .ok items) ∧
        ∃ text' ts', Token.ofText text' = .ok ts' ∧ ts <+: ts' ∧ ts ≠ ts' ∧
          ∃ items, Item.ofText unit text' = .ok items) ∧
    ((∃ items, Item.ofText unit text = .ok items) → ∀ k,
      (∃ front, front <+: text.toList ∧ Token.ofText (String.ofList front) = .ok (ts.take k)) ∧
      ∀ part, Token.ofText part = .ok (ts.take k) →
        (∃ items, Item.ofText unit part = .ok items) ∨
          Item.ofText unit part = .error ⟨.unexpectedEnd, Span.point part.utf8ByteSize⟩) := by
  refine ⟨⟨?_, ?_⟩, fun hprogram k => ⟨?_, fun part hpart => ?_⟩⟩
  · rintro ⟨d, herror, hkind⟩
    have hnot : ¬∃ items, Item.ofText unit text = .ok items := by
      rintro ⟨items, hitems⟩
      cases hitems.symm.trans herror
    rcases ofText_error hts herror with ⟨-, kinds, hcompletes⟩ | ⟨hwrong, -⟩
    · obtain ⟨text', more, htext', hmore⟩ := exists_text_of_completes hts hcompletes
      refine ⟨hnot, text', ts ++ more, htext', List.prefix_append ts more, fun heq => hnot ?_,
        (exists_ofText_iff htext').2 hmore⟩
      rw [exists_ofText_iff hts, heq]
      exact hmore
    · exact absurd hkind hwrong
  · rintro ⟨hnot, text', ts', htext', ⟨more, rfl⟩, -, hprogram⟩
    cases hresult : Item.ofText unit text with
    | ok items => exact absurd ⟨items, hresult⟩ hnot
    | error d =>
      rcases ofText_error hts hresult with ⟨rfl, -⟩ | ⟨-, hnone⟩
      · exact ⟨_, rfl, rfl⟩
      · exact absurd ((exists_ofText_iff htext').1 hprogram) (hnone more)
  · have hlexemes := Token.ofText_iff_scan.1 hts
    have htokens : ∀ l ∈ Lexeme.scan 0 text.toList, ∃ kind, l.reading = .ok kind := by
      intro l hl
      rw [hlexemes] at hl
      obtain ⟨t, -, rfl⟩ := List.mem_map.1 hl
      exact ⟨t.kind, rfl⟩
    obtain ⟨front, back, htext, hfront, -⟩ := Lexeme.exists_scan_eq_take 0 text.toList htokens k
    refine ⟨front, ⟨back, htext.symm⟩, ?_⟩
    rw [Token.ofText_iff_scan, String.toList_ofList, hfront, hlexemes, lexemes, ← List.map_take]
    rfl
  · cases hresult : Item.ofText unit part with
    | ok items => exact .inl ⟨items, rfl⟩
    | error d =>
      rcases ofText_error hpart hresult with ⟨rfl, -⟩ | ⟨-, hnone⟩
      · exact .inr rfl
      · have hwhole := (exists_ofText_iff hts).1 hprogram
        rw [← List.take_append_drop k ts] at hwhole
        exact absurd hwhole (hnone (ts.drop k))

/-- A text between parentheses is no type, but the sum of it and a name is. -/
theorem ofText_eof_iff_openType :
    ∃ ts, Token.ofText "(\"a\"" = .ok ts ∧
      ∃ text' ts', Token.ofText text' = .ok ts' ∧ ts <+: ts' ∧ ts ≠ ts' ∧
        ∃ items, Item.ofText 0 text' = .ok items := by
  have hts : Token.ofText "(\"a\"" =
      .ok [⟨.symbol .leftParen, ⟨0, 1⟩, "("⟩, ⟨.string "a", ⟨1, 4⟩, "\"a\""⟩] :=
    eq_ok_of_toOption (by decide +kernel)
  have herror : Item.ofText 0 "(\"a\"" = .error ⟨.unexpectedEnd, ⟨4, 4⟩⟩ :=
    (ofText_eq_program hts).trans rfl
  obtain ⟨hiff, -⟩ := ofText_eof_iff 0 hts
  obtain ⟨-, hlonger⟩ := hiff.1 ⟨_, herror, rfl⟩
  exact ⟨_, hts, hlonger⟩

end Item

end ExprLang
