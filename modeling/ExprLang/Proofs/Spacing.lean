import Mathlib.Data.List.TakeWhile
import ExprLang.Token.Lexer

/-!
# Lexing in pieces

What a step of the lexer takes is decided by the characters it takes and by the one that follows
(`Lexeme.cut_of_stopsAlike`), and so is what it reads them as (`Lexeme.cut_of_endsAlike`). So a text
can be lexed in pieces: behind a blank the lexer starts afresh (`Lexeme.scan_append`), unless a
string is still open, and the first lexemes of a text are those of a beginning of it
(`Lexeme.exists_scan_eq_take`).
-/

namespace ExprLang

/-! ## White space -/

namespace Text

/-- The characters of a class, one by one. -/
def Ranges.chars (ranges : Ranges) : List Char :=
  ranges.flatMap fun r => (List.range' r.1 (r.2 + 1 - r.1)).map Char.ofNat

theorem Ranges.mem_chars {ranges : Ranges} {c : Char} (h : ranges.has c = true) :
    c ∈ ranges.chars := by
  obtain ⟨r, hr, hfirst, hlast⟩ := Ranges.has_iff.1 h
  refine List.mem_flatMap.2 ⟨r, hr, List.mem_map.2 ⟨c.toNat, ?_, c.ofNat_toNat⟩⟩
  rw [List.mem_range'_1]
  omega

end Text

namespace Lexeme

theorem not_isBlurred_of_ascii {c : Char} (hc : c.toNat < 0x80) (cs : List Char) :
    isBlurred (c :: cs) = false := by
  have hlow : decide (0x80 ≤ c.toNat) = false := by
    simp
    omega
  rw [isBlurred, hlow, Bool.false_and]

/-- White space goes on with no word and no number; outside ASCII it blurs a word. -/
theorem of_isBlank {b : Char} (hb : Text.isBlank b = true) :
    isNameChar b = false ∧ isNumberChar b = false ∧ Suffix.ofChar? b = none ∧
      (0x80 ≤ b.toNat → startsNameChar (Text.leadByte b) = true) := by
  -- The white space is few, so that each of it is looked up in the tables.
  have hall : (Text.blanks.chars.all fun b =>
      !isNameChar b && !isNumberChar b && (Suffix.ofChar? b).isNone &&
        (decide (b.toNat < 0x80) || startsNameChar (Text.leadByte b))) = true := by
    decide +kernel
  have hb' := List.all_eq_true.1 hall b (Text.Ranges.mem_chars hb)
  simp only [Bool.and_eq_true, Bool.or_eq_true, Bool.not_eq_true', Option.isNone_iff_eq_none,
    decide_eq_true_eq] at hb'
  obtain ⟨⟨⟨hname, hnumber⟩, hsuffix⟩, hlead⟩ := hb'
  exact ⟨hname, hnumber, hsuffix, fun hascii => hlead.resolve_left (Nat.not_lt.2 hascii)⟩

theorem isBlurred_of_isBlank {b : Char} (hb : Text.isBlank b = true) (cs : List Char) :
    isBlurred (b :: cs) = decide (0x80 ≤ b.toNat) := by
  by_cases hascii : 0x80 ≤ b.toNat
  · simp [isBlurred, hascii, (of_isBlank hb).2.2.2 hascii]
  · simp [isBlurred, hascii]

/-! ## One step -/

/-- A text that goes on with no word and no number, and does not blur a word. -/
structure Quiet (rest : List Char) : Prop where
  name : ∀ c, rest.head? = some c → isNameChar c = false
  number : ∀ c, rest.head? = some c → isNumberChar c = false
  letter : ∀ c, rest.head? = some c → Suffix.ofChar? c = none
  clear : isBlurred rest = false

theorem quiet_nil : Quiet [] := ⟨nofun, nofun, nofun, rfl⟩

/-- A text that blurs no word in front of it: one that could, goes on with the word. -/
def Clear (rest : List Char) : Prop :=
  ∀ c, rest.head? = some c → isBlurred rest = true → isNameChar c = true

theorem clear_nil : Clear [] := nofun

/-- A lexeme that ends in front of `rest` ends in front of `rest'` too. -/
def EndsAlike (rest rest' : List Char) : Prop :=
  rest'.head? = rest.head? ∨ (Quiet rest' ∧ Clear rest)

/-- A lexeme that ends in front of `rest` takes the same characters in front of `rest'`, though a
word may be blurred in front of one of them only. -/
def StopsAlike (rest rest' : List Char) : Prop := rest'.head? = rest.head? ∨ Quiet rest'

theorem EndsAlike.stopsAlike {rest rest' : List Char} (h : EndsAlike rest rest') :
    StopsAlike rest rest' :=
  h.imp_right And.left

theorem isBlurred_congr {rest rest' : List Char} (h : rest'.head? = rest.head?) :
    isBlurred rest' = isBlurred rest := by
  cases rest <;> cases rest' <;> simp_all [isBlurred]

theorem head?_dropWhile_not {p : Char → Bool} {cs : List Char} {c : Char}
    (h : (cs.dropWhile p).head? = some c) : p c = false := by
  have hnot := List.head?_dropWhile_not p cs
  rw [h] at hnot
  simpa using hnot

/-- Characters with a property are taken up to where the property ends. -/
theorem takeWhile_append_of_stops {p : Char → Bool} (cs : List Char) {rest : List Char}
    (h : ∀ c, rest.head? = some c → p c = false) :
    (cs.takeWhile p ++ rest).takeWhile p = cs.takeWhile p ∧
      (cs.takeWhile p ++ rest).dropWhile p = rest := by
  have hall : ∀ c ∈ cs.takeWhile p, p c = true := fun c hc => List.mem_takeWhile_imp hc
  rw [List.takeWhile_append_of_pos hall, List.dropWhile_append_of_pos hall]
  cases rest with
  | nil => simp
  | cons c rest => simp [h c rfl]

theorem closeString_of_append {cs value taken rest : List Char}
    (h : closeString cs = some (value, taken, rest)) (rest' : List Char) :
    closeString (taken ++ rest') = some (value, taken, rest') := by
  induction cs using closeString.induct generalizing value taken rest with
  | case1 => simp [closeString] at h
  | case2 cs =>
    simp only [closeString, Option.some.injEq, Prod.mk.injEq] at h
    obtain ⟨rfl, rfl, rfl⟩ := h
    rfl
  | case3 c cs ih =>
    simp only [closeString, Option.map_eq_some_iff, Prod.mk.injEq] at h
    obtain ⟨⟨v, t, r⟩, hclose, rfl, rfl, rfl⟩ := h
    simp [closeString, ih hclose]
  | case4 c cs hquote hescape ih =>
    rw [closeString] at h
    · simp only [Option.map_eq_some_iff, Prod.mk.injEq] at h
      obtain ⟨⟨v, t, r⟩, hclose, rfl, rfl, rfl⟩ := h
      rw [List.cons_append, closeString, ih hclose]
      · rfl
      · exact hquote
      · rintro d ds rfl hds
        -- A backslash at the very end would leave the string open.
        cases cs with
        | nil => simp [closeString] at hclose
        | cons d' ds' => exact hescape d' ds' rfl rfl
    · exact hquote
    · exact hescape

theorem cutWord_of_stopsAlike {c : Char} {cs rest' : List Char}
    (hend : StopsAlike (cutWord c cs).rest rest') :
    cutWord c (cs.takeWhile isNameChar ++ rest') =
      ⟨(cutWord c cs).taken, rest', .ok (wordKind (cutWord c cs).taken rest')⟩ := by
  have hstops : ∀ x, rest'.head? = some x → isNameChar x = false := by
    intro x hx
    rcases hend with heq | hquiet
    · exact head?_dropWhile_not (heq ▸ hx)
    · exact hquiet.name x hx
  obtain ⟨htake, hdrop⟩ := takeWhile_append_of_stops cs hstops
  simp only [cutWord, htake, hdrop]

/-- A word that ends alike is blurred in front of both rests or of none. -/
theorem isBlurred_of_endsAlike {c : Char} {cs rest' : List Char}
    (hend : EndsAlike (cutWord c cs).rest rest') :
    isBlurred rest' = isBlurred (cutWord c cs).rest := by
  rcases hend with heq | ⟨hquiet, hclear⟩
  · exact isBlurred_congr heq
  change _ = isBlurred (cs.dropWhile isNameChar)
  rw [hquiet.clear]
  cases hback : cs.dropWhile isNameChar with
  | nil => rfl
  | cons x back =>
    have hx := head?_dropWhile_not (p := isNameChar) (by rw [hback]; rfl : _ = some x)
    cases hblur : isBlurred (x :: back) with
    | false => rfl
    | true =>
      change Clear (cs.dropWhile isNameChar) at hclear
      rw [hback] at hclear
      rw [hclear x rfl hblur] at hx
      cases hx

/-- Where no suffix is taken, none is taken in front of another rest. -/
theorem cutSuffix_of_none {rest : List Char}
    (h : ∀ c, rest.head? = some c → Suffix.ofChar? c = none) :
    cutSuffix rest = ([], none, rest) := by
  cases rest with
  | nil => rfl
  | cons c rest => simp [cutSuffix, h c rfl]

theorem cutSuffix_of_stopsAlike {back rest' : List Char}
    (hback : ∀ c, back.head? = some c → isNumberChar c = false)
    (hend : StopsAlike (cutSuffix back).2.2 rest') :
    (∀ c, ((cutSuffix back).1 ++ rest').head? = some c → isNumberChar c = false) ∧
      cutSuffix ((cutSuffix back).1 ++ rest') =
        ((cutSuffix back).1, (cutSuffix back).2.1, rest') := by
  cases hsuffix : back.head?.bind Suffix.ofChar? with
  | some s =>
    cases back with
    | nil => cases hsuffix
    | cons c back =>
      have hc : Suffix.ofChar? c = some s := hsuffix
      simp only [cutSuffix, hc, List.singleton_append]
      refine ⟨fun x hx => ?_, trivial⟩
      cases hx
      exact hback c rfl
  | none =>
    have hnone : ∀ c, back.head? = some c → Suffix.ofChar? c = none := by
      intro c hc
      rwa [hc] at hsuffix
    rw [cutSuffix_of_none hnone] at hend ⊢
    simp only [List.nil_append]
    rcases hend with heq | hquiet
    · change rest'.head? = back.head? at heq
      rw [heq]
      exact ⟨hback, cutSuffix_of_none (heq ▸ hnone)⟩
    · exact ⟨hquiet.number, cutSuffix_of_none hquiet.letter⟩

theorem cutNumber_of_stopsAlike {c : Char} {cs rest' : List Char}
    (hend : StopsAlike (cutNumber c cs).rest rest') :
    cutNumber c (cs.takeWhile isNumberChar ++ (cutSuffix (cs.dropWhile isNumberChar)).1 ++ rest') =
      ⟨(cutNumber c cs).taken, rest', (cutNumber c cs).reading⟩ := by
  obtain ⟨hstops, hsuffix⟩ := cutSuffix_of_stopsAlike (fun _ hx => head?_dropWhile_not hx) hend
  obtain ⟨htake, hdrop⟩ := takeWhile_append_of_stops cs hstops
  simp only [cutNumber, List.append_assoc, htake, hdrop, hsuffix]

/-- The reading of a step that starts with a letter. -/
theorem cut_reading_of_letter {c : Char} (hc : Text.isLetter c = true) (cs : List Char) :
    (cut c cs).reading = .ok (wordKind (cut c cs).taken (cut c cs).rest) := by
  rw [cut, if_pos hc]
  rfl

/-- A step takes the same characters in front of another rest. Only a word may read differently. -/
theorem cut_of_stopsAlike {c : Char} {cs rest' : List Char}
    (hclosed : (cut c cs).reading ≠ .error .unclosedString)
    (hend : StopsAlike (cut c cs).rest rest') :
    ∃ taken, (cut c cs).taken = c :: taken ∧
      cut c (taken ++ rest') = ⟨c :: taken, rest',
        if Text.isLetter c then .ok (wordKind (c :: taken) rest') else (cut c cs).reading⟩ := by
  unfold cut at hclosed hend ⊢
  by_cases hletter : Text.isLetter c = true
  · simp only [hletter, if_true] at hend ⊢
    exact ⟨_, rfl, cutWord_of_stopsAlike hend⟩
  simp only [hletter, if_false, Bool.false_eq_true] at hclosed hend ⊢
  by_cases hdigit : c.isDigit = true
  · simp only [hdigit, if_true] at hend ⊢
    exact ⟨_, rfl, cutNumber_of_stopsAlike hend⟩
  simp only [hdigit, if_false, Bool.false_eq_true] at hclosed hend ⊢
  by_cases hquote : c = '"'
  · simp only [hquote, if_true] at hclosed hend ⊢
    unfold cutString at hclosed ⊢
    cases hclose : closeString cs with
    | none => simp [hclose] at hclosed
    | some parts =>
      obtain ⟨value, taken, rest⟩ := parts
      refine ⟨taken, rfl, ?_⟩
      simp only [closeString_of_append hclose]
  simp only [hquote, if_false] at hclosed hend ⊢
  cases Symbol.ofChar? c with
  | some s => exact ⟨[], rfl, rfl⟩
  | none => exact ⟨[], rfl, rfl⟩

/-- **A step is decided by what it takes and by the next character.** -/
theorem cut_of_endsAlike {c : Char} {cs rest' : List Char}
    (hclosed : (cut c cs).reading ≠ .error .unclosedString)
    (hend : EndsAlike (cut c cs).rest rest') :
    ∃ taken, (cut c cs).taken = c :: taken ∧
      cut c (taken ++ rest') = ⟨c :: taken, rest', (cut c cs).reading⟩ := by
  obtain ⟨taken, htaken, hcut⟩ := cut_of_stopsAlike hclosed hend.stopsAlike
  refine ⟨taken, htaken, ?_⟩
  rw [hcut]
  by_cases hletter : Text.isLetter c = true
  · have hword : (cut c cs).rest = (cutWord c cs).rest := by rw [cut, if_pos hletter]
    rw [hword] at hend
    rw [if_pos hletter, cut_reading_of_letter hletter, htaken, hword, wordKind, wordKind,
      isBlurred_of_endsAlike hend]
  · rw [if_neg hletter]

/-! ## All steps -/

/-- No string of a text is left open. -/
def Closed (start : Nat) (cs : List Char) : Prop :=
  ∀ l ∈ scan start cs, ∀ d, l.reading = .error d → d.problem ≠ .unclosedString

theorem scan_of_blank {c : Char} (hc : Text.isBlank c = true) (start : Nat) (cs : List Char) :
    scan start (c :: cs) = scan (start + c.utf8Size) cs := by
  rw [scan, if_pos hc]

theorem scan_of_not_blank {c : Char} (hc : Text.isBlank c = false) (start : Nat) (cs : List Char) :
    scan start (c :: cs) =
      ofCut start (cut c cs) :: scan (start + Text.byteSize (cut c cs).taken) (cut c cs).rest := by
  rw [scan, if_neg (by rw [hc]; exact Bool.false_ne_true)]

theorem reading_ne_unclosed {start : Nat} {step : Cut}
    (h : ∀ d, (ofCut start step).reading = .error d → d.problem ≠ .unclosedString) :
    step.reading ≠ .error .unclosedString := by
  intro hreading
  obtain ⟨span, hopen⟩ : ∃ span, (ofCut start step).reading = .error ⟨.unclosedString, span⟩ :=
    ⟨_, by rw [ofCut, hreading]; rfl⟩
  exact h _ hopen rfl

/-- A step in front of another rest is followed by the lexemes of that rest. -/
theorem scan_of_endsAlike {c : Char} {cs rest' : List Char} (hc : Text.isBlank c = false)
    (hclosed : (cut c cs).reading ≠ .error .unclosedString)
    (hend : EndsAlike (cut c cs).rest rest') (start : Nat) :
    scan start ((cut c cs).taken ++ rest') =
      ofCut start (cut c cs) :: scan (start + Text.byteSize (cut c cs).taken) rest' := by
  obtain ⟨taken, htaken, hcut⟩ := cut_of_endsAlike hclosed hend
  rw [htaken, List.cons_append, scan_of_not_blank hc, hcut]
  simp only [ofCut, htaken]

/-- A blank that goes on with nothing. -/
structure Separates (b : Char) : Prop where
  blank : Text.isBlank b = true
  quiet : ∀ cs, Quiet (b :: cs)

theorem separates_of_ascii {b : Char} (hb : Text.isBlank b = true) (hascii : b.toNat < 0x80) :
    Separates b := by
  obtain ⟨hname, hnumber, hsuffix, -⟩ := of_isBlank hb
  refine ⟨hb, fun cs => ⟨?_, ?_, ?_, not_isBlurred_of_ascii hascii cs⟩⟩
  · rintro _ ⟨⟩
    exact hname
  · rintro _ ⟨⟩
    exact hnumber
  · rintro _ ⟨⟩
    exact hsuffix

theorem separates_space : Separates ' ' := separates_of_ascii (by decide) (by decide)

/-- **The lexer starts afresh behind a blank**, as long as no string is open. -/
theorem scan_append {b : Char} (hb : Separates b) (start : Nat) (cs ds : List Char)
    (hclosed : Closed start cs) :
    scan start (cs ++ b :: ds) =
      scan start cs ++ scan (start + Text.byteSize cs + b.utf8Size) ds := by
  induction start, cs using scan.induct with
  | case1 start => simp [scan_of_blank hb.blank, scan]
  | case2 start c cs hc ih =>
    unfold Closed at hclosed
    rw [scan_of_blank hc] at hclosed
    rw [List.cons_append, scan_of_blank hc, scan_of_blank hc, ih hclosed, Text.byteSize_cons]
    congr 2
    omega
  | case3 start c cs hc ih =>
    have hc' : Text.isBlank c = false := by simpa using hc
    unfold Closed at hclosed
    rw [scan_of_not_blank hc'] at hclosed
    have hstep := reading_ne_unclosed (hclosed _ List.mem_cons_self)
    have hend : EndsAlike (cut c cs).rest ((cut c cs).rest ++ b :: ds) := by
      cases (cut c cs).rest with
      | nil => exact .inr ⟨hb.quiet ds, nofun⟩
      | cons d rest => exact .inl rfl
    have hwhole := cut_taken_append_rest c cs
    have hbytes := congrArg Text.byteSize hwhole
    rw [Text.byteSize_append] at hbytes
    rw [scan_of_not_blank hc', ← hwhole, List.append_assoc, scan_of_endsAlike hc' hstep hend,
      ih fun l hl => hclosed l (List.mem_cons_of_mem _ hl), hwhole, ← hbytes, List.cons_append]
    congr 3
    omega

/-- A token starts with a letter or in ASCII. -/
theorem clear_of_token {c : Char} {cs : List Char} {kind : Token.Kind}
    (h : (cut c cs).reading = .ok kind) : Clear (c :: cs) := by
  rintro _ ⟨⟩ hblur
  have hascii : ∀ {d : Char}, d.toNat < 0x80 → c = d → False := by
    rintro d hd rfl
    rw [not_isBlurred_of_ascii hd] at hblur
    cases hblur
  unfold cut at h
  split at h
  · rename_i hletter
    rw [isNameChar, hletter, Bool.true_or]
  split at h
  · rename_i hdigit
    simp only [Char.isDigit, Bool.and_eq_true, decide_eq_true_eq] at hdigit
    have hle : c.toNat ≤ 57 := UInt32.le_iff_toNat_le.1 hdigit.2
    exact (hascii (by omega) rfl).elim
  split at h
  · exact absurd (by assumption) (hascii (by decide))
  · split at h
    · rename_i s hs
      have hchar := Symbol.ofChar?_eq_some_iff.1 hs
      exact absurd hchar.symm (hascii (by cases s <;> decide))
    · cases h

/-- **The first lexemes of a text are those of a beginning of it**, if they are tokens. -/
theorem exists_scan_eq_take (start : Nat) (cs : List Char)
    (htokens : ∀ l ∈ scan start cs, ∃ kind, l.reading = .ok kind) (k : Nat) :
    ∃ front back, cs = front ++ back ∧ scan start front = (scan start cs).take k ∧ Clear back := by
  induction start, cs using scan.induct generalizing k with
  | case1 start => exact ⟨[], [], rfl, by simp [scan], clear_nil⟩
  | case2 start c cs hc ih =>
    rw [scan_of_blank hc] at htokens ⊢
    obtain ⟨front, back, rfl, hfront, hclear⟩ := ih htokens k
    exact ⟨c :: front, back, rfl, by rw [scan_of_blank hc, hfront], hclear⟩
  | case3 start c cs hc ih =>
    have hc' : Text.isBlank c = false := by simpa using hc
    rw [scan_of_not_blank hc'] at htokens ⊢
    obtain ⟨kind, hkind⟩ := htokens _ List.mem_cons_self
    have hreading := ofCut_ok hkind
    cases k with
    | zero => exact ⟨[], c :: cs, rfl, by simp [scan], clear_of_token hreading⟩
    | succ k =>
      obtain ⟨front, back, hrest, hfront, hclear⟩ :=
        ih (fun l hl => htokens l (List.mem_cons_of_mem _ hl)) k
      have hend : EndsAlike (cut c cs).rest front := by
        rw [hrest]
        cases front with
        | nil => exact .inr ⟨quiet_nil, hclear⟩
        | cons d front => exact .inl rfl
      refine ⟨(cut c cs).taken ++ front, back, ?_, ?_, hclear⟩
      · rw [List.append_assoc, ← hrest, cut_taken_append_rest]
      · have hclosed : (cut c cs).reading ≠ .error .unclosedString := by simp [hreading]
        rw [scan_of_endsAlike hc' hclosed hend, hfront, List.take_succ_cons]

end Lexeme

end ExprLang
