import ExprLang.Proofs.Tiling

/-!
# White space in place of other white space

Some of the white space outside the strings of a text has become spaces (`Lexeme.Respaced`). The
lexemes stay the same up to their places, with one exception: white space outside ASCII blurs a
reserved word right in front of it, which then reads as a name, and a space in its place reveals the
word (`Lexeme.Reveals`). So the text reads as before exactly if no reserved word is revealed
(`Lexeme.ofText_respaced_iff`).
-/

namespace ExprLang

/-! ## Reserved words -/

/-- A reserved word starts with a letter and is not read as a name. -/
theorem Token.of_keyword? {c : Char} {cs : List Char} {kind : Token.Kind}
    (h : Token.keyword? (String.ofList (c :: cs)) = some kind) :
    Text.isLetter c = true ∧ kind ≠ .identifier := by
  have hall : (Token.keywords.all fun entry =>
      entry.1.toList.head?.all Text.isLetter && entry.2 != .identifier) = true := by
    decide +kernel
  obtain ⟨before, after, hkeywords, -⟩ := List.lookup_eq_some_iff.1 h
  have hentry : (String.ofList (c :: cs), kind) ∈ Token.keywords := by
    rw [hkeywords]
    exact List.mem_append_right _ List.mem_cons_self
  have hchecked := List.all_eq_true.1 hall _ hentry
  simpa [String.toList_ofList] using hchecked

namespace Lexeme

theorem wordKind_eq_iff {c : Char} {cs rest rest' : List Char} (hblurred : isBlurred rest = true)
    (hclear : isBlurred rest' = false) :
    wordKind (c :: cs) rest' = wordKind (c :: cs) rest ↔
      Token.keyword? (String.ofList (c :: cs)) = none := by
  rw [wordKind, wordKind, if_pos hblurred, if_neg (by rw [hclear]; exact Bool.false_ne_true)]
  cases hkeyword : Token.keyword? (String.ofList (c :: cs)) with
  | none => simp
  | some kind => simpa using (Token.of_keyword? hkeyword).2

/-! ## Respaced texts -/

/-- A string, closed or left open. -/
def IsString (l : Lexeme) : Prop :=
  (∃ value, l.reading = .ok (.string value)) ∨
    ∃ d, l.reading = .error d ∧ d.problem = .unclosedString

/-- The byte `n` belongs to a string. -/
def InString (ls : List Lexeme) (n : Nat) : Prop :=
  ∃ l ∈ ls, l.IsString ∧ l.span.start ≤ n ∧ n < l.span.stop

/-- Some characters of white space that lie in no string of the text have become spaces, and all
other characters are the same. -/
def Respaced (start : Nat) (cs cs' : List Char) : Prop :=
  ∀ i : Nat, cs'[i]? = cs[i]? ∨ ∃ b, cs[i]? = some b ∧ Text.isBlank b = true ∧ cs'[i]? = some ' ' ∧
    ¬InString (scan start cs) (start + Text.byteSize (cs.take i))

/-- A space has come in the place of a character outside ASCII that stands right behind a reserved
word. -/
def Reveals (start : Nat) (cs cs' : List Char) : Prop :=
  ∃ (i : Nat) (b : Char), cs[i]? = some b ∧ cs'[i]? ≠ some b ∧ 0x80 ≤ b.toNat ∧
    ∃ l ∈ scan start cs, l.span.stop = start + Text.byteSize (cs.take i) ∧
      Token.keyword? l.text ≠ none

/-- What a lexeme reads as, wherever it stands. -/
def bare (l : Lexeme) : String × Except Problem Token.Kind :=
  (l.text, l.reading.mapError Diagnostic.problem)

@[simp] theorem bare_ofCut (start : Nat) (step : Cut) :
    (ofCut start step).bare = (String.ofList step.taken, step.reading) := by
  cases hreading : step.reading <;> rw [bare, ofCut, hreading] <;> rfl

theorem cutNumber_taken {c x : Char} {cs : List Char} (hx : x ∈ (cutNumber c cs).taken) :
    x = c ∨ isNumberChar x = true ∨ Suffix.ofChar? x ≠ none := by
  simp only [cutNumber, List.cons_append, List.mem_cons, List.mem_append] at hx
  rcases hx with rfl | hx | hx
  · exact .inl rfl
  · exact .inr (.inl (List.mem_takeWhile_imp hx))
  · right; right
    cases hback : cs.dropWhile isNumberChar with
    | nil => simp [hback, cutSuffix] at hx
    | cons d back =>
      cases hsuffix : Suffix.ofChar? d with
      | none => simp [hback, cutSuffix, hsuffix] at hx
      | some s =>
        simp only [hback, cutSuffix, hsuffix, List.mem_singleton] at hx
        simp [hx, hsuffix]

/-- Of all lexemes only a string holds white space. -/
theorem isString_of_isBlank {c x : Char} {cs : List Char} (hc : Text.isBlank c = false)
    (hx : x ∈ (cut c cs).taken) (hblank : Text.isBlank x = true) (start : Nat) :
    (ofCut start (cut c cs)).IsString := by
  obtain ⟨hname, hnumber, hsuffix, -⟩ := of_isBlank hblank
  have hne : x ≠ c := by
    rintro rfl
    rw [hc] at hblank
    cases hblank
  by_cases hletter : Text.isLetter c = true
  · simp only [cut, hletter, if_true, cutWord, List.mem_cons, hne, false_or] at hx
    rw [List.mem_takeWhile_imp hx] at hname
    cases hname
  by_cases hdigit : c.isDigit = true
  · simp only [cut, hletter, hdigit, if_true, if_false, Bool.false_eq_true] at hx
    rcases cutNumber_taken hx with h | h | h
    · exact absurd h hne
    · rw [hnumber] at h
      cases h
    · exact absurd hsuffix h
  by_cases hquote : c = '"'
  · have hstring : cut c cs = cutString cs := by
      rw [cut, if_neg hletter, if_neg hdigit, if_pos hquote]
    rw [hstring, cutString]
    split
    · exact .inl ⟨_, rfl⟩
    · exact .inr ⟨_, rfl, rfl⟩
  · simp only [cut, hletter, hdigit, hquote, if_false, Bool.false_eq_true] at hx
    split at hx <;> exact absurd (List.mem_singleton.1 hx) hne

namespace Respaced

variable {start : Nat} {c : Char} {cs cs' : List Char}

theorem eq_nil (h : Respaced start [] cs') : cs' = [] := by
  rcases h 0 with heq | ⟨b, hb, -⟩
  · simpa using heq
  · simp at hb

/-- One character of white space has become a space. -/
theorem single {before after : List Char} {b : Char} (hb : Text.isBlank b = true)
    (hout : ¬InString (scan start (before ++ b :: after)) (start + Text.byteSize before)) :
    Respaced start (before ++ b :: after) (before ++ ' ' :: after) := by
  intro i
  rcases Nat.lt_trichotomy i before.length with hi | rfl | hi
  · left
    rw [List.getElem?_append_left hi, List.getElem?_append_left hi]
  · right
    refine ⟨b, by simp, hb, by simp, ?_⟩
    rwa [List.take_left]
  · left
    obtain ⟨j, rfl⟩ := Nat.exists_eq_add_of_lt hi
    rw [List.getElem?_append_right (by omega), List.getElem?_append_right (by omega),
      show before.length + j + 1 - before.length = j + 1 by omega, List.getElem?_cons_succ,
      List.getElem?_cons_succ]

/-- What stands in front of a respaced text takes the same characters there. -/
theorem stopsAlike (h : Respaced start cs cs') : StopsAlike cs cs' := by
  rw [StopsAlike, List.head?_eq_getElem?, List.head?_eq_getElem?]
  refine (h 0).imp_right ?_
  rintro ⟨b, -, -, hspace, -⟩
  cases cs' with
  | nil => simp at hspace
  | cons d cs' =>
    obtain rfl : d = ' ' := by simpa using hspace
    exact separates_space.quiet cs'

/-- White space stays white space. -/
theorem of_blank (hc : Text.isBlank c = true) (h : Respaced start (c :: cs) cs') :
    ∃ d ds, cs' = d :: ds ∧ Text.isBlank d = true ∧ Respaced (start + c.utf8Size) cs ds := by
  obtain ⟨d, ds, rfl, hd⟩ : ∃ d ds, cs' = d :: ds ∧ Text.isBlank d = true := by
    cases cs' with
    | nil => rcases h 0 with h0 | ⟨b, -, -, h0, -⟩ <;> simp at h0
    | cons d ds =>
      refine ⟨d, ds, rfl, ?_⟩
      rcases h 0 with h0 | ⟨b, -, -, h0, -⟩
      · obtain rfl : d = c := by simpa using h0
        exact hc
      · obtain rfl : d = ' ' := by simpa using h0
        decide
  refine ⟨d, ds, rfl, hd, fun i => ?_⟩
  have hi := h (i + 1)
  rw [scan_of_blank hc] at hi
  simpa [Nat.add_assoc] using hi

/-- A lexeme is the same in the respaced text, and what follows it is respaced. -/
theorem of_not_blank (hc : Text.isBlank c = false) (h : Respaced start (c :: cs) cs') :
    ∃ rest', cs' = (cut c cs).taken ++ rest' ∧
      Respaced (start + Text.byteSize (cut c cs).taken) (cut c cs).rest rest' := by
  have hwhole := cut_taken_append_rest c cs
  unfold Respaced at h
  rw [scan_of_not_blank hc, ← hwhole] at h
  generalize htaken : (cut c cs).taken = taken at hwhole h ⊢
  have hsame : ∀ i < taken.length, cs'[i]? = taken[i]? := by
    intro i hi
    rcases h i with heq | ⟨b, hb, hblank, -, hnot⟩
    · rw [heq, List.getElem?_append_left hi]
    · -- White space inside of a lexeme belongs to a string, and is not touched.
      rw [List.getElem?_append_left hi] at hb
      have hmem : b ∈ (cut c cs).taken := htaken ▸ List.mem_of_getElem? hb
      refine absurd ⟨_, List.mem_cons_self, isString_of_isBlank hc hmem hblank start, ?_, ?_⟩ hnot
      · exact Nat.le_add_right _ _
      · rw [List.take_append_of_le_length (Nat.le_of_lt hi)]
        have hlt := Text.byteSize_take_lt hi
        simp only [ofCut, htaken]
        omega
  refine ⟨cs'.drop taken.length, ?_, fun j => ?_⟩
  · have htake : cs'.take taken.length = taken := by
      refine List.ext_getElem? fun i => ?_
      rw [List.getElem?_take]
      split
      · exact hsame i ‹_›
      · exact (List.getElem?_eq_none (by omega)).symm
    have hsplit := List.take_append_drop taken.length cs'
    rw [htake] at hsplit
    exact hsplit.symm
  · rw [List.getElem?_drop]
    have hj := h (taken.length + j)
    rw [List.getElem?_append_right (by omega), Nat.add_sub_cancel_left,
      List.take_length_add_append, Text.byteSize_append, ← Nat.add_assoc] at hj
    refine hj.imp_right ?_
    rintro ⟨b, hb, hblank, hspace, hnot⟩
    refine ⟨b, hb, hblank, hspace, mt ?_ hnot⟩
    rintro ⟨l, hl, hl'⟩
    exact ⟨l, List.mem_cons_of_mem _ hl, hl'⟩

end Respaced

/-! ## Revealed words -/

/-- A space in place of the first character of `rest` reveals the word in front of it. -/
def RevealsWord (word rest rest' : List Char) : Prop :=
  ∃ b, rest[0]? = some b ∧ rest'[0]? ≠ some b ∧ 0x80 ≤ b.toNat ∧
    Token.keyword? (String.ofList word) ≠ none

section Step

variable {start : Nat} {c : Char} {cs rest rest' : List Char}

/-- A word is read the same in front of a respaced text, unless it is revealed. -/
theorem Respaced.wordKind_eq_iff (h : Respaced start rest rest') :
    wordKind (c :: cs) rest' = wordKind (c :: cs) rest ↔ ¬RevealsWord (c :: cs) rest rest' := by
  rcases h 0 with heq | ⟨b, hb, hblank, hspace, -⟩
  · have hblurred : isBlurred rest' = isBlurred rest :=
      isBlurred_congr (by rwa [List.head?_eq_getElem?, List.head?_eq_getElem?])
    refine iff_of_true (by rw [wordKind, wordKind, hblurred]) ?_
    rintro ⟨b, hb, hne, -⟩
    exact hne (heq.trans hb)
  · rw [← List.head?_eq_getElem?, List.head?_eq_some_iff] at hb hspace
    obtain ⟨rest, rfl⟩ := hb
    obtain ⟨rest', rfl⟩ := hspace
    have hclear : isBlurred (' ' :: rest') = false := (separates_space.quiet rest').clear
    have hblurred := isBlurred_of_isBlank hblank rest
    by_cases hascii : 0x80 ≤ b.toNat
    · rw [decide_eq_true hascii] at hblurred
      have hne : ' ' ≠ b := by
        rintro rfl
        exact absurd hascii (by decide)
      rw [Lexeme.wordKind_eq_iff hblurred hclear]
      simp [RevealsWord, hne, hascii]
    · rw [decide_eq_false hascii] at hblurred
      refine iff_of_true (by rw [wordKind, wordKind, hblurred, hclear]) ?_
      rintro ⟨_, ⟨⟩, -, hhigh, -⟩
      exact hascii hhigh

/-- A step reads the same in the respaced text, unless it takes a word that is revealed. -/
theorem Respaced.cut_eq (h : Respaced start (cut c cs).rest rest') :
    ∃ taken reading, (cut c cs).taken = c :: taken ∧
      cut c (taken ++ rest') = ⟨c :: taken, rest', reading⟩ ∧
      (reading = (cut c cs).reading ↔ ¬RevealsWord (c :: taken) (cut c cs).rest rest') := by
  by_cases hopen : (cut c cs).reading = .error .unclosedString
  · -- An open string takes all of the text, and nothing of it is respaced.
    have hrest : (cut c cs).rest = [] := by
      rcases cut_error hopen with hp | ⟨hp, -⟩ | ⟨-, -, hrest⟩
      · cases hp
      · cases hp
      · exact hrest
    obtain ⟨taken, htaken⟩ := cut_taken_head c cs
    have hwhole := cut_taken_append_rest c cs
    rw [hrest] at h
    rw [htaken, hrest, List.append_nil] at hwhole
    obtain ⟨-, rfl⟩ := List.cons.inj hwhole
    obtain rfl := h.eq_nil
    refine ⟨taken, (cut c taken).reading, htaken, ?_, iff_of_true rfl ?_⟩
    · rw [List.append_nil, ← htaken, ← hrest]
    · rintro ⟨b, hb, hne, -⟩
      rw [hrest] at hb
      exact hne hb
  · obtain ⟨taken, htaken, hcut⟩ := cut_of_stopsAlike hopen h.stopsAlike
    refine ⟨taken, _, htaken, hcut, ?_⟩
    by_cases hletter : Text.isLetter c = true
    · rw [if_pos hletter, cut_reading_of_letter hletter, htaken, Except.ok.injEq]
      exact h.wordKind_eq_iff
    · rw [if_neg hletter]
      refine iff_of_true rfl ?_
      rintro ⟨b, -, -, -, hkeyword⟩
      obtain ⟨kind, hkind⟩ := Option.ne_none_iff_exists'.1 hkeyword
      exact hletter (Token.of_keyword? hkind).1

theorem reveals_of_blank (hc : Text.isBlank c = true) (d : Char) (ds : List Char) :
    Reveals start (c :: cs) (d :: ds) ↔ Reveals (start + c.utf8Size) cs ds := by
  unfold Reveals
  rw [scan_of_blank hc]
  constructor
  · rintro ⟨i, b, hb, hne, hhigh, l, hl, hstop, hkeyword⟩
    cases i with
    | zero =>
      -- No lexeme ends in front of white space that stands at the start.
      have hlaid := scan_laid (start + c.utf8Size) cs
      have hle := hlaid.start_le l hl
      have hlt := hlaid.nonempty l hl
      rw [List.take_zero, Text.byteSize_nil] at hstop
      omega
    | succ i =>
      rw [List.take_succ_cons, Text.byteSize_cons, ← Nat.add_assoc] at hstop
      exact ⟨i, b, hb, hne, hhigh, l, hl, hstop, hkeyword⟩
  · rintro ⟨i, b, hb, hne, hhigh, l, hl, hstop, hkeyword⟩
    rw [Nat.add_assoc, ← Text.byteSize_cons, ← List.take_succ_cons] at hstop
    exact ⟨i + 1, b, hb, hne, hhigh, l, hl, hstop, hkeyword⟩

theorem reveals_of_not_blank (hc : Text.isBlank c = false) :
    Reveals start (c :: cs) ((cut c cs).taken ++ rest') ↔
      RevealsWord (cut c cs).taken (cut c cs).rest rest' ∨
        Reveals (start + Text.byteSize (cut c cs).taken) (cut c cs).rest rest' := by
  have hwhole := cut_taken_append_rest c cs
  have hfirst : (ofCut start (cut c cs)).span.stop = start + Text.byteSize (cut c cs).taken := rfl
  have htext : (ofCut start (cut c cs)).text = String.ofList (cut c cs).taken := rfl
  unfold Reveals
  rw [scan_of_not_blank hc, ← hwhole]
  generalize ofCut start (cut c cs) = first at hfirst htext ⊢
  generalize (cut c cs).taken = taken at hfirst htext ⊢
  generalize (cut c cs).rest = rest
  constructor
  · rintro ⟨i, b, hb, hne, hhigh, l, hl, hstop, hkeyword⟩
    by_cases hi : i < taken.length
    · rw [List.getElem?_append_left hi] at hb hne
      exact absurd hb hne
    obtain ⟨j, rfl⟩ := Nat.exists_eq_add_of_le (Nat.le_of_not_lt hi)
    rw [List.getElem?_append_right (by omega), Nat.add_sub_cancel_left] at hb hne
    rw [List.take_length_add_append, Text.byteSize_append, ← Nat.add_assoc] at hstop
    rcases List.mem_cons.1 hl with rfl | hl
    · left
      cases j with
      | zero => exact ⟨b, hb, hne, hhigh, htext ▸ hkeyword⟩
      | succ j =>
        cases rest with
        | nil => simp at hb
        | cons x rest =>
          have hpos := x.utf8Size_pos
          rw [List.take_succ_cons, Text.byteSize_cons] at hstop
          omega
    · exact .inr ⟨j, b, hb, hne, hhigh, l, hl, hstop, hkeyword⟩
  · -- The characters behind the lexeme are counted from its end.
    have hbehind : ∀ {j b}, rest[j]? = some b → rest'[j]? ≠ some b →
        (taken ++ rest)[taken.length + j]? = some b ∧
          (taken ++ rest')[taken.length + j]? ≠ some b := by
      intro j b hb hne
      rw [List.getElem?_append_right (by omega), List.getElem?_append_right (by omega),
        Nat.add_sub_cancel_left]
      exact ⟨hb, hne⟩
    rintro (⟨b, hb, hne, hhigh, hkeyword⟩ | ⟨j, b, hb, hne, hhigh, l, hl, hstop, hkeyword⟩)
    · obtain ⟨hb', hne'⟩ := hbehind hb hne
      refine ⟨_, b, hb', hne', hhigh, first, List.mem_cons_self, ?_, htext ▸ hkeyword⟩
      rw [List.take_length_add_append, List.take_zero, List.append_nil, hfirst]
    · obtain ⟨hb', hne'⟩ := hbehind hb hne
      refine ⟨_, b, hb', hne', hhigh, l, List.mem_cons_of_mem _ hl, ?_, hkeyword⟩
      rw [List.take_length_add_append, Text.byteSize_append, ← Nat.add_assoc, hstop]

end Step

/-- The lexemes of a respaced text are the same, exactly if no word is revealed. -/
theorem scan_respaced_iff (start start' : Nat) {cs cs' : List Char} (h : Respaced start cs cs') :
    (scan start' cs').map bare = (scan start cs).map bare ↔ ¬Reveals start cs cs' := by
  induction start, cs using scan.induct generalizing start' cs' with
  | case1 start =>
    obtain rfl := h.eq_nil
    simp [scan, Reveals]
  | case2 start c cs hc ih =>
    obtain ⟨d, ds, rfl, hd, hrest⟩ := h.of_blank hc
    rw [scan_of_blank hc, scan_of_blank hd, reveals_of_blank hc]
    exact ih _ hrest
  | case3 start c cs hc ih =>
    have hc' : Text.isBlank c = false := by simpa using hc
    obtain ⟨rest', rfl, hrest⟩ := h.of_not_blank hc'
    obtain ⟨taken, reading, htaken, hcut, hreading⟩ := hrest.cut_eq
    rw [reveals_of_not_blank hc', scan_of_not_blank hc', htaken, List.cons_append,
      scan_of_not_blank hc', hcut, List.map_cons, List.map_cons, bare_ofCut, bare_ofCut, htaken,
      List.cons.injEq, Prod.mk.injEq, not_or, ← hreading]
    rw [htaken] at hrest ih
    rw [ih _ hrest]
    simp

/-- **Any white space separates lexemes as a space does, but for the words that it blurs.** If some
white space outside the strings of a text becomes spaces, the text has the same lexemes up to their
places exactly if no reserved word had white space outside ASCII right behind it that became a
space. -/
theorem ofText_respaced_iff {text text' : String} (h : Respaced 0 text.toList text'.toList) :
    (ofText text').map bare = (ofText text).map bare ↔ ¬Reveals 0 text.toList text'.toList :=
  scan_respaced_iff 0 0 h

/-- Behind a no-break space the type `u8` is read as a name, behind a space as the type. -/
theorem ofText_respaced_iff_blurredType :
    Respaced 0 "u8\u00a0x".toList "u8 x".toList ∧ Reveals 0 "u8\u00a0x".toList "u8 x".toList ∧
      (ofText "u8 x").map bare ≠ (ofText "u8\u00a0x").map bare := by
  have hletter : Text.isLetter 'u' = true := by decide
  have hdigit : isNameChar '8' = true := by decide
  have hblank : isNameChar '\u00a0' = false := (of_isBlank (by decide)).1
  have hblurred : isBlurred ('\u00a0' :: ['x']) = true := by decide
  have hcut : cut 'u' ('8' :: '\u00a0' :: ['x']) =
      ⟨['u', '8'], '\u00a0' :: ['x'], .ok .identifier⟩ := by
    simp [cut, cutWord, wordKind, hletter, hdigit, hblank, hblurred]
  have hlast : cut 'x' [] = ⟨['x'], [], .ok .identifier⟩ := rfl
  have hscan : scan 0 (['u', '8'] ++ '\u00a0' :: ['x']) =
      [⟨⟨0, 2⟩, "u8", .ok .identifier⟩, ⟨⟨4, 5⟩, "x", .ok .identifier⟩] := by
    rw [List.cons_append, List.cons_append, List.nil_append, scan_of_not_blank (by decide), hcut,
      scan_of_blank (by decide), scan_of_not_blank (by decide), hlast, scan]
    rfl
  have hkeyword : Token.keyword? "u8" = some (.typeName (.int (.sized .unsigned .w8))) := by decide
  have htext : "u8\u00a0x".toList = ['u', '8'] ++ '\u00a0' :: ['x'] := by decide
  have htext' : "u8 x".toList = ['u', '8'] ++ ' ' :: ['x'] := by decide
  have hrespaced : Respaced 0 "u8\u00a0x".toList "u8 x".toList := by
    rw [htext, htext']
    refine Respaced.single (by decide) ?_
    rw [hscan]
    rintro ⟨l, hl, hstring, -⟩
    simp only [List.mem_cons, List.not_mem_nil, or_false] at hl
    rcases hl with rfl | rfl <;> rcases hstring with ⟨_, h⟩ | ⟨_, h, -⟩ <;> cases h
  have hreveals : Reveals 0 "u8\u00a0x".toList "u8 x".toList := by
    rw [htext, htext']
    refine ⟨2, '\u00a0', rfl, by decide, by decide, ?_⟩
    rw [hscan]
    exact ⟨_, List.mem_cons_self, by decide, by simp [hkeyword]⟩
  exact ⟨hrespaced, hreveals, fun h => (ofText_respaced_iff hrespaced).1 h hreveals⟩

end Lexeme

end ExprLang
