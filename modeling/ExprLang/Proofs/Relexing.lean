import ExprLang.Proofs.Below
import ExprLang.Proofs.Tiling

/-!
# Tokens on their own

Where a token ends is decided by the characters it takes and the one behind them, and the end of the
text goes on with no token. So the text of a token, read on its own, is that token again
(`Lexeme.ofText_text`), and only the place of it changes: it stands at the start. There is one
exception. A reserved word that was blurred by what stood behind it was read as a name, and on its
own it is read as the word (`Token.Kind.alone`).

The leaves of a tree are tokens, so the text that a leaf covers reads as one token
(`Lexeme.ofText_relexes`).
-/

namespace ExprLang

open Token (lexemes)

/-- What a token of some text denotes on its own: a name that is spelled like a reserved word is
one. -/
def Token.Kind.alone (text : String) : Token.Kind → Token.Kind
  | identifier => (Token.keyword? text).getD identifier
  | kind => kind

/-- A literal or a name. -/
def Expr.IsLeaf : Expr → Prop
  | .literal _ _ => True
  | .name _ => True
  | _ => False

namespace Lexeme

/-- A lexeme is what a step takes, somewhere in the text. -/
theorem exists_cut_of_mem {start : Nat} {cs : List Char} {l : Lexeme} (h : l ∈ scan start cs) :
    ∃ at' c cs', Text.isBlank c = false ∧ l = ofCut at' (cut c cs') := by
  obtain ⟨before, after, hsplit⟩ := List.append_of_mem h
  obtain ⟨front, c, cs', -, hc, hl, -⟩ := scan_eq_append_cons hsplit
  exact ⟨_, c, cs', hc, hl⟩

/-- The text of a step, read on its own. -/
theorem scan_taken {c : Char} {cs : List Char} (hc : Text.isBlank c = false)
    (hclosed : (cut c cs).reading ≠ .error .unclosedString) :
    scan 0 (cut c cs).taken = [ofCut 0 ⟨(cut c cs).taken, [],
      if Text.isLetter c then .ok (wordKind (cut c cs).taken []) else (cut c cs).reading⟩] := by
  have hend : StopsAlike (cut c cs).rest [] := .inr quiet_nil
  obtain ⟨taken, htaken, hcut⟩ := cut_of_stopsAlike hclosed hend
  rw [List.append_nil] at hcut
  rw [htaken, scan_of_not_blank hc, hcut, scan]

/-- A word on its own is not blurred. -/
theorem wordKind_nil (word rest : List Char) :
    wordKind word [] = (wordKind word rest).alone (String.ofList word) := by
  have hclear : wordKind word [] =
      (Token.keyword? (String.ofList word)).getD .identifier := rfl
  rw [hclear, wordKind]
  split
  · rfl
  · cases hkeyword : Token.keyword? (String.ofList word) with
    | none => simp [Token.Kind.alone, hkeyword]
    | some kind => cases kind <;> simp [Token.Kind.alone, hkeyword]

/-- Only words are read as names. -/
theorem alone_of_not_letter {c : Char} (hletter : ¬Text.isLetter c = true) {cs : List Char}
    {kind : Token.Kind} (h : (cut c cs).reading = .ok kind) (text : String) :
    kind.alone text = kind := by
  have hname : kind ≠ .identifier := by
    rintro rfl
    simp only [cut, hletter, if_false, Bool.false_eq_true] at h
    split at h
    · simp only [cutNumber, numberReading] at h
      split at h <;> cases h
    split at h
    · simp only [cutString] at h
      split at h <;> cases h
    · split at h <;> cases h
  cases kind <;> first | rfl | exact absurd rfl hname

/-- **A token on its own is the token.** -/
theorem ofText_text {text : String} {l : Lexeme} (hl : l ∈ ofText text) {kind : Token.Kind}
    (hkind : l.reading = .ok kind) :
    ofText l.text = [⟨⟨0, l.text.utf8ByteSize⟩, l.text, .ok (kind.alone l.text)⟩] := by
  obtain ⟨start, c, cs, hc, rfl⟩ := exists_cut_of_mem hl
  have hreading := ofCut_ok hkind
  have hclosed : (cut c cs).reading ≠ .error .unclosedString := by
    rw [hreading]
    exact nofun
  have htext : (ofCut start (cut c cs)).text = String.ofList (cut c cs).taken := rfl
  rw [htext, ofText, String.toList_ofList, scan_taken hc hclosed]
  by_cases hletter : Text.isLetter c = true
  · have hword := cut_reading_of_letter hletter cs
    rw [hreading, Except.ok.injEq] at hword
    rw [if_pos hletter, wordKind_nil _ (cut c cs).rest, ← hword, ofCut_zero rfl]
  · rw [if_neg hletter, hreading, alone_of_not_letter hletter hreading, ofCut_zero rfl]

/-- The span of a lexeme denotes its text. -/
theorem apply_span {text : String} {l : Lexeme} (hl : l ∈ ofText text) :
    l.span.apply text = l.text := by
  rw [Span.apply, (ofText_tiles text).slice l hl, Option.getD_some, String.ofList_toList]

end Lexeme

/-- A leaf of a tree is one of the tokens of the text. -/
theorem Item.exists_token_of_isLeaf {unit : Nat} {text : String} {items : List Item}
    (h : Item.ofText unit text = .ok items) {i : Item} (hi : i ∈ items) {e : Expr}
    (he : (Node.expr e).Below (.item i)) (hleaf : e.IsLeaf) :
    ∃ t : Token, t.lexeme ∈ Lexeme.ofText text ∧ t.span = e.span := by
  obtain ⟨ts, hlexemes, hworded⟩ := worded_of_ofText h
  rcases (hworded i hi).below he with ⟨f, rfl⟩ | hbelow
  · exact hleaf.elim
  have hnode : (Node.expr e).Worded ts := hbelow.self
  obtain ⟨t, ht, hspan⟩ : ∃ t ∈ ts, t.span = e.span := by
    cases e with
    | literal l span => exact hnode.imp fun t ht => ⟨ht.1, ht.2.2⟩
    | name id => exact hnode.imp fun t ht => ⟨ht.1, congrArg Ident.span ht.2.2⟩
    | _ => exact hleaf.elim
  exact ⟨t, hlexemes ▸ List.mem_map_of_mem ht, hspan⟩

/-- **Tokens are read again as themselves.** The text of a token on its own is this one token, from
the start to the end, but that a name that is spelled like a reserved word is that word. And the
text that a leaf of the tree covers is one token. -/
theorem Lexeme.ofText_relexes (text : String) :
    (∀ l ∈ ofText text, ∀ kind, l.reading = .ok kind →
      ofText l.text = [⟨⟨0, l.text.utf8ByteSize⟩, l.text, .ok (kind.alone l.text)⟩]) ∧
    ∀ unit items, Item.ofText unit text = .ok items → ∀ i ∈ items, ∀ e : Expr,
      (Node.expr e).Below (.item i) → e.IsLeaf →
      ∃ kind, ofText (e.span.apply text) =
        [⟨⟨0, (e.span.apply text).utf8ByteSize⟩, e.span.apply text, .ok kind⟩] := by
  refine ⟨fun l hl kind hkind => ofText_text hl hkind,
    fun unit items h i hi e he hleaf => ?_⟩
  obtain ⟨t, ht, hspan⟩ := Item.exists_token_of_isLeaf h hi he hleaf
  have htext : e.span.apply text = t.text := by
    rw [← hspan]
    exact apply_span ht
  rw [htext]
  exact ⟨_, ofText_text ht rfl⟩

/-- The name that a blurred word for a type was read as, and a string of one escaped quote. -/
theorem Lexeme.ofText_relexes_blurredType :
    (∃ l ∈ ofText "u8\u00a0x", l.reading = .ok .identifier ∧
      ofText l.text = [⟨⟨0, 2⟩, "u8", .ok (.typeName (.int (.sized .unsigned .w8)))⟩]) ∧
    ∃ items, Item.ofText 0 "const q = \"\\\"\"" = .ok items ∧ ∃ i ∈ items, ∃ e : Expr,
      (Node.expr e).Below (.item i) ∧ e = .literal (.string "\"") ⟨10, 14⟩ ∧
        ∃ kind, ofText "\"\\\"\"" = [⟨⟨0, 4⟩, "\"\\\"\"", .ok kind⟩] := by
  constructor
  · have hletter : Text.isLetter 'u' = true := by decide
    have hdigit : isNameChar '8' = true := by decide
    have hblank : isNameChar '\u00a0' = false := (of_isBlank (by decide)).1
    have hblurred : isBlurred ['\u00a0', 'x'] = true := by decide
    have hcut : cut 'u' ['8', '\u00a0', 'x'] = ⟨['u', '8'], ['\u00a0', 'x'], .ok .identifier⟩ := by
      simp [cut, cutWord, wordKind, hletter, hdigit, hblank, hblurred]
    have htext : "u8\u00a0x".toList = ['u', '8', '\u00a0', 'x'] := by decide
    have hmem : ⟨⟨0, 2⟩, "u8", .ok .identifier⟩ ∈ ofText "u8\u00a0x" := by
      rw [ofText, htext, scan_of_not_blank (by decide), hcut]
      exact List.mem_cons_self
    exact ⟨_, hmem, rfl, (ofText_relexes _).1 _ hmem _ rfl⟩
  · have hts : Token.ofText "const q = \"\\\"\"" =
        .ok [⟨.const, ⟨0, 5⟩, "const"⟩, ⟨.identifier, ⟨6, 7⟩, "q"⟩,
          ⟨.symbol .equals, ⟨8, 9⟩, "="⟩, ⟨.string "\"", ⟨10, 14⟩, "\"\\\"\""⟩] :=
      eq_ok_of_toOption (by decide +kernel)
    have hitems : Item.ofText 0 "const q = \"\\\"\"" =
        .ok [⟨⟨"q", ⟨6, 7⟩⟩, .literal (.string "\"") ⟨10, 14⟩⟩] :=
      (Item.ofText_eq_program hts).trans rfl
    have hbelow : (Node.expr (.literal (.string "\"") ⟨10, 14⟩)).Below
        (.item ⟨⟨"q", ⟨6, 7⟩⟩, .literal (.string "\"") ⟨10, 14⟩⟩) :=
      .single List.mem_cons_self
    have hword : Span.apply ⟨10, 14⟩ "const q = \"\\\"\"" = "\"\\\"\"" := by decide
    obtain ⟨kind, hkind⟩ :=
      (ofText_relexes _).2 0 _ hitems _ List.mem_cons_self _ hbelow trivial
    rw [Expr.span, hword] at hkind
    exact ⟨_, hitems, _, List.mem_cons_self, _, hbelow, rfl, kind, hkind⟩

end ExprLang
