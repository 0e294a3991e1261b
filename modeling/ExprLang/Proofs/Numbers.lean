import ExprLang.Proofs.Tiling
import Mathlib.Computability.Language

/-!
# Numbers and their grammar

A number passes two patterns. The lexer takes the longest beginning of the text of the form
`[0-9][0-9.e]*[uifd]?` (`Lexeme.numberRun`), which is loose. Without its suffix this run is read as

    digits ('.' digits?)? ('e' digits)?

(`Decimal.grammar`), and reading succeeds exactly on the texts of this form
(`Decimal.exists_parse?_iff`). So a digit where a token starts is a number with the suffix that the
run ends in, or else all of the run is one problem (`Lexeme.ofText_number`).
-/

namespace ExprLang

open scoped Computability

/-! ## Patterns -/

namespace Text

/-- One character of a class. -/
def oneOf (p : Char → Bool) : Language Char := {w | ∃ c, p c = true ∧ w = [c]}

/-- One digit or more. -/
def digitString : Language Char := oneOf Char.isDigit * (oneOf Char.isDigit)∗

/-- The longest beginning of a text that fits a pattern. -/
structure IsLongest (pattern : Language Char) (text run : List Char) : Prop where
  fits : run ∈ pattern
  begins : run <+: text
  longest : ∀ other ∈ pattern, other <+: text → other.length ≤ run.length

variable {p : Char → Bool} {L : Language Char} {w : List Char}

theorem mem_optional : w ∈ 1 + L ↔ w = [] ∨ w ∈ L := by
  rw [Language.mem_add, Language.mem_one]

theorem mem_oneOf_mul : w ∈ oneOf p * L ↔ ∃ c cs, w = c :: cs ∧ p c = true ∧ cs ∈ L := by
  rw [Language.mem_mul]
  constructor
  · rintro ⟨_, ⟨c, hc, rfl⟩, cs, hcs, rfl⟩
    exact ⟨c, cs, rfl, hc, hcs⟩
  · rintro ⟨c, cs, rfl, hc, hcs⟩
    exact ⟨[c], ⟨c, hc, rfl⟩, cs, hcs, rfl⟩

theorem cons_mem_oneOf_mul {c : Char} : c :: w ∈ oneOf p * L ↔ p c = true ∧ w ∈ L := by
  rw [mem_oneOf_mul]
  constructor
  · rintro ⟨_, _, ⟨⟩, h⟩
    exact h
  · exact fun h => ⟨c, w, rfl, h⟩

theorem mem_oneOf_kstar : w ∈ (oneOf p)∗ ↔ ∀ c ∈ w, p c = true := by
  constructor
  · intro h
    obtain ⟨pieces, rfl, hpieces⟩ := Language.mem_kstar.1 h
    intro c hc
    obtain ⟨piece, hpiece, hc⟩ := List.mem_flatten.1 hc
    obtain ⟨d, hd, rfl⟩ := hpieces piece hpiece
    rwa [List.mem_singleton.1 hc]
  · intro h
    refine Language.mem_kstar.2 ⟨w.map fun c => [c], ?_, ?_⟩
    · rw [← List.flatMap_def, List.flatMap_singleton']
    · intro piece hpiece
      obtain ⟨c, hc, rfl⟩ := List.mem_map.1 hpiece
      exact ⟨c, h c hc, rfl⟩

theorem mem_digitString : w ∈ digitString ↔ w ≠ [] ∧ ∀ c ∈ w, c.isDigit = true := by
  rw [digitString]
  cases w with
  | nil => simp [mem_oneOf_mul]
  | cons c cs => simp [cons_mem_oneOf_mul, mem_oneOf_kstar]

/-- What has the property throughout is taken up to where the property ends. -/
theorem takeWhile_append_of_all {w rest : List Char} (hall : ∀ c ∈ w, p c = true)
    (hstop : ∀ c, rest.head? = some c → p c = false) :
    (w ++ rest).takeWhile p = w ∧ (w ++ rest).dropWhile p = rest := by
  have h := Lexeme.takeWhile_append_of_stops (p := p) w hstop
  rwa [List.takeWhile_eq_self_iff.2 hall] at h

end Text

open Text (oneOf digitString IsLongest)

/-! ## The grammar of a number without its suffix -/

namespace Decimal

/-- `('.' digits?)?` -/
def fractionPart : Language Char := 1 + oneOf (· == '.') * (1 + digitString)

/-- `('e' digits)?` -/
def exponentPart : Language Char := 1 + oneOf (· == 'e') * digitString

/-- `digits ('.' digits?)? ('e' digits)?` -/
def grammar : Language Char := digitString * fractionPart * exponentPart

theorem exists_parseExponent?_iff (cs : List Char) :
    (∃ e, parseExponent? cs = some e) ↔ cs ∈ exponentPart := by
  rw [exponentPart, Text.mem_optional]
  unfold parseExponent?
  split
  · simp
  · simp [Text.cons_mem_oneOf_mul, Text.mem_digitString]
  · rename_i hnil he
    simp only [reduceCtorEq, exists_false, false_iff, not_or]
    refine ⟨hnil, fun h => ?_⟩
    obtain ⟨c, ds, rfl, hc, -⟩ := Text.mem_oneOf_mul.1 h
    exact he ds (by rw [eq_of_beq hc])

theorem mem_optional_digitString {cs : List Char} :
    cs ∈ 1 + digitString ↔ ∀ c ∈ cs, c.isDigit = true := by
  rw [Text.mem_optional, Text.mem_digitString]
  cases cs <;> simp

/-- Splitting takes a fraction part. -/
theorem exists_fractionPart (cs : List Char) :
    ∃ text ∈ fractionPart, cs = text ++ (splitFraction cs).2 := by
  unfold splitFraction
  split
  · rename_i cs
    refine ⟨'.' :: cs.takeWhile Char.isDigit, Text.mem_optional.2 (.inr ?_), ?_⟩
    · refine Text.cons_mem_oneOf_mul.2 ⟨rfl, mem_optional_digitString.2 ?_⟩
      exact fun _ h => List.mem_takeWhile_imp h
    · rw [List.cons_append, List.takeWhile_append_dropWhile]
  · exact ⟨[], Text.mem_optional.2 (.inl rfl), rfl⟩

theorem head_of_optional {p : Char → Bool} {L : Language Char} {cs : List Char}
    (h : cs ∈ 1 + oneOf p * L) {c : Char} (hc : cs.head? = some c) : p c = true := by
  rcases Text.mem_optional.1 h with rfl | h
  · cases hc
  · obtain ⟨d, ds, rfl, hd, -⟩ := Text.mem_oneOf_mul.1 h
    cases hc
    exact hd

theorem head_of_fractionPart {cs : List Char} (h : cs ∈ fractionPart) {c : Char}
    (hc : cs.head? = some c) : c = '.' :=
  eq_of_beq (head_of_optional h hc)

theorem head_of_exponentPart {cs : List Char} (h : cs ∈ exponentPart) {c : Char}
    (hc : cs.head? = some c) : c = 'e' :=
  eq_of_beq (head_of_optional h hc)

/-- In front of an exponent, splitting takes all of a fraction part. -/
theorem splitFraction_append {text rest : List Char} (htext : text ∈ fractionPart)
    (hrest : rest ∈ exponentPart) : (splitFraction (text ++ rest)).2 = rest := by
  rcases Text.mem_optional.1 htext with rfl | htext
  · unfold splitFraction
    split
    · rename_i cs hcs
      have hhead := head_of_exponentPart hrest (c := '.') (by rw [← List.nil_append rest, hcs]; rfl)
      cases hhead
    · rfl
  · obtain ⟨c, ds, rfl, hc, hds⟩ := Text.mem_oneOf_mul.1 htext
    obtain rfl : c = '.' := eq_of_beq hc
    have hstop : ∀ c, rest.head? = some c → c.isDigit = false := by
      intro c hc
      rw [head_of_exponentPart hrest hc]
      rfl
    exact (Text.takeWhile_append_of_all (mem_optional_digitString.1 hds) hstop).2

theorem parse?_eq (cs : List Char) : parse? cs =
    if cs.takeWhile Char.isDigit = [] then none
    else (parseExponent? (splitFraction (cs.dropWhile Char.isDigit)).2).map fun e : ℕ =>
      ⟨ofDigits (cs.takeWhile Char.isDigit ++ (splitFraction (cs.dropWhile Char.isDigit)).1),
        (e : ℤ) - (splitFraction (cs.dropWhile Char.isDigit)).1.length⟩ := by
  simp only [parse?, List.isEmpty_iff]
  cases parseExponent? (splitFraction (cs.dropWhile Char.isDigit)).2 <;> rfl

theorem exists_parse?_eq_some (cs : List Char) : (∃ d, parse? cs = some d) ↔
    cs.takeWhile Char.isDigit ≠ [] ∧
      (splitFraction (cs.dropWhile Char.isDigit)).2 ∈ exponentPart := by
  rw [← exists_parseExponent?_iff, parse?_eq]
  by_cases hwhole : cs.takeWhile Char.isDigit = []
  · simp [hwhole]
  · rw [if_neg hwhole, and_iff_right hwhole]
    simp only [Option.map_eq_some_iff]
    constructor
    · rintro ⟨_, e, he, -⟩
      exact ⟨e, he⟩
    · rintro ⟨e, he⟩
      exact ⟨_, e, he, rfl⟩

/-- **Reading accepts exactly the grammar.** -/
theorem exists_parse?_iff (cs : List Char) : (∃ d, parse? cs = some d) ↔ cs ∈ grammar := by
  rw [exists_parse?_eq_some]
  constructor
  · rintro ⟨hwhole, hexponent⟩
    obtain ⟨text, htext, hsplit⟩ := exists_fractionPart (cs.dropWhile Char.isDigit)
    have hdigits : cs.takeWhile Char.isDigit ∈ digitString :=
      Text.mem_digitString.2 ⟨hwhole, fun _ h => List.mem_takeWhile_imp h⟩
    have hparts : cs = cs.takeWhile Char.isDigit ++ text ++
        (splitFraction (cs.dropWhile Char.isDigit)).2 := by
      rw [List.append_assoc, ← hsplit, List.takeWhile_append_dropWhile]
    rw [hparts]
    exact Language.append_mem_mul (Language.append_mem_mul hdigits htext) hexponent
  · intro h
    obtain ⟨front, hfront, rest, hrest, rfl⟩ := Language.mem_mul.1 h
    obtain ⟨whole, hwhole, text, htext, rfl⟩ := Language.mem_mul.1 hfront
    obtain ⟨hne, hdigits⟩ := Text.mem_digitString.1 hwhole
    have hstop : ∀ c, (text ++ rest).head? = some c → c.isDigit = false := by
      intro c hc
      rw [List.head?_append, Option.or_eq_some_iff] at hc
      rcases hc with hc | ⟨-, hc⟩
      · rw [head_of_fractionPart htext hc]
        rfl
      · rw [head_of_exponentPart hrest hc]
        rfl
    obtain ⟨htake, hdrop⟩ := Text.takeWhile_append_of_all hdigits hstop
    rw [List.append_assoc, htake, hdrop, splitFraction_append htext hrest]
    exact ⟨hne, hrest⟩

end Decimal

/-! ## The run of a number -/

namespace Lexeme

/-- `[0-9][0-9.e]*[uifd]?` -/
def numberRun : Language Char :=
  oneOf Char.isDigit * ((oneOf fun c => c.isDigit || c == '.' || c == 'e')∗ *
    (1 + oneOf fun c => ['u', 'i', 'f', 'd'].contains c))

/-- The suffix that the last letter of a run stands for. -/
def suffix? (run : List Char) : Option Suffix := run.getLast?.bind Suffix.ofChar?

/-- A run without the letter of its suffix. -/
def withoutSuffix (run : List Char) : List Char :=
  if (suffix? run).isSome then run.dropLast else run

theorem isSome_ofChar? (c : Char) :
    (Suffix.ofChar? c).isSome = ['u', 'i', 'f', 'd'].contains c := by
  unfold Suffix.ofChar?
  split <;> simp_all

/-- A number goes on with no letter of a suffix. -/
theorem ofChar?_of_isNumberChar {c : Char} (h : isNumberChar c = true) :
    Suffix.ofChar? c = none := by
  unfold Suffix.ofChar?
  split <;> first | rfl | exact absurd h (by decide)

theorem isNumberChar_of_isDigit {c : Char} (h : c.isDigit = true) : isNumberChar c = true := by
  simp [isNumberChar, h]

theorem cons_mem_numberRun {c : Char} {cs : List Char} : c :: cs ∈ numberRun ↔
    c.isDigit = true ∧ ∃ body letter, cs = body ++ letter ∧
      (∀ x ∈ body, isNumberChar x = true) ∧
      (letter = [] ∨ ∃ x s, letter = [x] ∧ Suffix.ofChar? x = some s) := by
  rw [numberRun, Text.cons_mem_oneOf_mul, Language.mem_mul]
  refine and_congr_right fun _ => ⟨?_, ?_⟩
  · rintro ⟨body, hbody, letter, hletter, rfl⟩
    refine ⟨body, letter, rfl, Text.mem_oneOf_kstar.1 hbody, ?_⟩
    refine (Text.mem_optional.1 hletter).imp_right ?_
    rintro ⟨x, hx, rfl⟩
    obtain ⟨s, hs⟩ := Option.isSome_iff_exists.1 ((isSome_ofChar? x).trans hx)
    exact ⟨x, s, rfl, hs⟩
  · rintro ⟨body, letter, rfl, hbody, hletter⟩
    refine ⟨body, Text.mem_oneOf_kstar.2 hbody, letter, Text.mem_optional.2 ?_, rfl⟩
    refine hletter.imp_right ?_
    rintro ⟨x, s, rfl, hs⟩
    exact ⟨x, (isSome_ofChar? x).symm.trans (Option.isSome_of_eq_some hs), rfl⟩

/-- A text that a number does not go on with, neither with a character of its own nor with a
suffix. -/
def EndsNumber (rest : List Char) : Prop :=
  ∀ x, rest.head? = some x → isNumberChar x = false ∧ Suffix.ofChar? x = none

section Cut

variable {c x : Char} {body rest : List Char} {s : Suffix}

/-- A digit is no letter. -/
theorem isLetter_of_isDigit (hc : c.isDigit = true) : Text.isLetter c = false := by
  have hle : c.toNat ≤ 57 := (Char.isDigit_iff_toNat.1 hc).2
  have hless {n : UInt32} (hn : 57 < n.toNat) : ¬n ≤ c.val := by
    rw [UInt32.le_iff_toNat_le]
    exact Nat.not_le.2 (hle.trans_lt hn)
  have hupper : c.isUpper = false := decide_eq_false fun h => hless (by decide) h.1
  have hlower : c.isLower = false :=
    Bool.and_eq_false_imp.2 fun h => absurd (of_decide_eq_true h) (hless (by decide))
  have halpha : c.isAlpha = (c.isUpper || c.isLower) := rfl
  rw [Text.isLetter, if_pos (by omega), halpha, hupper, hlower, Bool.or_false]

theorem cut_digit (hc : c.isDigit = true) (cs : List Char) : cut c cs = cutNumber c cs := by
  rw [cut, if_neg (by simp [isLetter_of_isDigit hc]), if_pos hc]

/-- A number without a suffix. -/
theorem cutNumber_of_ends (hbody : ∀ x ∈ body, isNumberChar x = true) (hrest : EndsNumber rest) :
    cutNumber c (body ++ rest) = ⟨c :: body, rest, numberReading (c :: body) none⟩ := by
  obtain ⟨htake, hdrop⟩ := Text.takeWhile_append_of_all hbody fun x hx => (hrest x hx).1
  simp [cutNumber, htake, hdrop, cutSuffix_of_none fun x hx => (hrest x hx).2]

/-- A number with a suffix. -/
theorem cutNumber_of_suffix (hbody : ∀ x ∈ body, isNumberChar x = true)
    (hx : Suffix.ofChar? x = some s) :
    cutNumber c (body ++ x :: rest) =
      ⟨c :: (body ++ [x]), rest, numberReading (c :: body) (some s)⟩ := by
  have hstop : ∀ y, (x :: rest).head? = some y → isNumberChar y = false := by
    rintro _ ⟨⟩
    by_contra hnumber
    rw [ofChar?_of_isNumberChar (by simpa using hnumber)] at hx
    cases hx
  obtain ⟨htake, hdrop⟩ := Text.takeWhile_append_of_all hbody hstop
  simp [cutNumber, htake, hdrop, cutSuffix, hx]

/-- Behind its first digit a number has a body, and then a suffix or the end of the number. -/
theorem exists_body (cs : List Char) : ∃ body rest, cs = body ++ rest ∧
    (∀ x ∈ body, isNumberChar x = true) ∧ (∀ x, rest.head? = some x → isNumberChar x = false) ∧
    (EndsNumber rest ∨ ∃ x s back, rest = x :: back ∧ Suffix.ofChar? x = some s) := by
  have hstop : ∀ x, (cs.dropWhile isNumberChar).head? = some x → isNumberChar x = false :=
    fun _ hx => head?_dropWhile_not hx
  refine ⟨cs.takeWhile isNumberChar, cs.dropWhile isNumberChar,
    List.takeWhile_append_dropWhile.symm, fun _ hx => List.mem_takeWhile_imp hx, hstop, ?_⟩
  cases hback : cs.dropWhile isNumberChar with
  | nil => exact .inl nofun
  | cons x back =>
    rw [hback] at hstop
    cases hx : Suffix.ofChar? x with
    | none =>
      left
      rintro _ ⟨⟩
      exact ⟨hstop x rfl, hx⟩
    | some s => exact .inr ⟨x, s, back, rfl, hx⟩

/-- Characters of a number at the start of a text belong to the body. -/
theorem prefix_body {other : List Char} (hother : ∀ x ∈ other, isNumberChar x = true)
    (hstop : ∀ x, rest.head? = some x → isNumberChar x = false) (h : other <+: body ++ rest) :
    other <+: body := by
  rcases List.prefix_or_prefix_of_prefix h (List.prefix_append body rest) with hshort | hlong
  · exact hshort
  · obtain ⟨more, rfl⟩ := hlong
    rw [List.prefix_append_right_inj] at h
    cases more with
    | nil => simp
    | cons x more =>
      obtain ⟨back, rfl⟩ := h
      have hx := hstop x rfl
      rw [hother x (by simp)] at hx
      cases hx

/-- **A number is the longest beginning of its form.** -/
theorem cutNumber_isLongest (hc : c.isDigit = true) (cs : List Char) :
    IsLongest numberRun (c :: cs) (cutNumber c cs).taken := by
  obtain ⟨body, rest, rfl, hbody, hstop, hend⟩ := exists_body cs
  have hlonger : ∀ other ∈ numberRun, other <+: c :: (body ++ rest) →
      ∃ front letter, other = c :: (front ++ letter) ∧ front <+: body ∧
        front ++ letter <+: body ++ rest ∧
        (letter = [] ∨ ∃ x s, letter = [x] ∧ Suffix.ofChar? x = some s) := by
    intro other hother hprefix
    cases other with
    | nil => simp [numberRun, Text.mem_oneOf_mul] at hother
    | cons d other =>
      obtain ⟨rfl, hbehind⟩ := List.cons_prefix_cons.1 hprefix
      obtain ⟨-, front, letter, rfl, hfront, hletter⟩ := cons_mem_numberRun.1 hother
      have hbefore := (List.prefix_append front letter).trans hbehind
      exact ⟨front, letter, rfl, prefix_body hfront hstop hbefore, hbehind, hletter⟩
  rcases hend with hend | ⟨x, s, back, rfl, hx⟩
  · rw [cutNumber_of_ends hbody hend]
    refine ⟨cons_mem_numberRun.2 ⟨hc, body, [], by simp, hbody, .inl rfl⟩,
      ⟨rest, by simp⟩, fun other hother hprefix => ?_⟩
    obtain ⟨front, letter, rfl, hfront, hwhole, rfl | ⟨x, s, rfl, hx⟩⟩ :=
      hlonger other hother hprefix
    · simpa using hfront.length_le
    · -- a suffix behind all of the body would be the first character of the rest
      have hne : front.length ≠ body.length := by
        intro hlength
        obtain rfl := hfront.eq_of_length hlength
        obtain ⟨back, rfl⟩ := (List.prefix_append_right_inj front).1 hwhole
        rw [(hend x rfl).2] at hx
        cases hx
      have hle := hfront.length_le
      simp only [List.length_cons, List.length_append, List.length_nil]
      omega
  · rw [cutNumber_of_suffix hbody hx]
    refine ⟨cons_mem_numberRun.2 ⟨hc, body, [x], rfl, hbody, .inr ⟨x, s, rfl, hx⟩⟩,
      ⟨back, by simp⟩, fun other hother hprefix => ?_⟩
    obtain ⟨front, letter, rfl, hfront, -, hletter⟩ := hlonger other hother hprefix
    have hone : letter.length ≤ 1 := by
      rcases hletter with rfl | ⟨y, t, rfl, -⟩ <;> simp
    have hle := hfront.length_le
    simp only [List.length_cons, List.length_append, List.length_nil]
    omega

/-- What a run reads as is decided by its suffix and by the rest of it. -/
theorem cutNumber_reading (hc : c.isDigit = true) (cs : List Char) :
    (cutNumber c cs).reading =
      numberReading (withoutSuffix (cutNumber c cs).taken) (suffix? (cutNumber c cs).taken) := by
  obtain ⟨body, rest, rfl, hbody, -, hend⟩ := exists_body cs
  rcases hend with hend | ⟨x, s, back, rfl, hx⟩
  · have hnone : suffix? (c :: body) = none := by
      rw [suffix?, List.getLast?_eq_getLast_of_ne_nil (List.cons_ne_nil c body), Option.bind_some]
      apply ofChar?_of_isNumberChar
      rcases List.mem_cons.1 (List.getLast_mem (List.cons_ne_nil c body)) with h | h
      · rw [h]
        exact isNumberChar_of_isDigit hc
      · exact hbody _ h
    rw [cutNumber_of_ends hbody hend]
    simp [withoutSuffix, hnone]
  · have hsome : suffix? (c :: (body ++ [x])) = some s := by
      rw [suffix?, ← List.cons_append, List.getLast?_concat, Option.bind_some, hx]
    rw [cutNumber_of_suffix hbody hx]
    simp only [withoutSuffix, hsome, Option.isSome_some, if_true]
    rw [← List.cons_append, List.dropLast_concat]

end Cut

/-- Digits that fit the grammar are read as a number. -/
theorem numberReading_of_mem {digits : List Char} (h : digits ∈ Decimal.grammar)
    (suffix : Option Suffix) : ∃ x, numberReading digits suffix = .ok (.number ⟨x, suffix⟩) := by
  obtain ⟨d, hd⟩ := (Decimal.exists_parse?_iff digits).2 h
  exact ⟨d.toBinary .double, by rw [numberReading, hd]⟩

theorem numberReading_of_notMem {digits : List Char} (h : digits ∉ Decimal.grammar)
    (suffix : Option Suffix) : numberReading digits suffix = .error .malformedNumber := by
  rw [numberReading]
  cases hd : Decimal.parse? digits with
  | some d => exact absurd ((Decimal.exists_parse?_iff digits).1 ⟨d, hd⟩) h
  | none => rfl

/-- **Numbers are accepted exactly by their grammar.** A token that starts with a digit is the
longest beginning of what is left of the text that has the form of a run. It is a number with the
suffix of its last letter if the run without it fits the grammar, and otherwise one problem that
covers the run. Either way lexing goes on behind it. -/
theorem ofText_number {text : String} {before after : List Lexeme} {l : Lexeme}
    (h : ofText text = before ++ l :: after) {c : Char} (hc : l.text.toList.head? = some c)
    (hdigit : c.isDigit = true) :
    ∃ front run rest, text.toList = front ++ run ++ rest ∧ l.text = String.ofList run ∧
      l.span = ⟨Text.byteSize front, Text.byteSize front + Text.byteSize run⟩ ∧
      IsLongest numberRun (run ++ rest) run ∧
      (withoutSuffix run ∈ Decimal.grammar →
        ∃ x, l.reading = .ok (.number ⟨x, suffix? run⟩)) ∧
      (withoutSuffix run ∉ Decimal.grammar → l.reading = .error ⟨.malformedNumber, l.span⟩) ∧
      after = scan l.span.stop rest := by
  obtain ⟨front, d, cs, htext, -, rfl, rfl⟩ := scan_eq_append_cons h
  obtain rfl : d = c := by
    obtain ⟨ds, htaken⟩ := cut_taken_head d cs
    simpa [ofCut, htaken] using hc
  have hwhole := cut_taken_append_rest d cs
  rw [cut_digit hdigit] at hwhole ⊢
  have hreading := cutNumber_reading hdigit cs
  refine ⟨front, (cutNumber d cs).taken, (cutNumber d cs).rest, ?_, rfl, ?_, ?_, ?_, ?_, ?_⟩
  · rw [List.append_assoc, hwhole, htext]
  · rw [ofCut, Nat.zero_add]
  · rw [hwhole]
    exact cutNumber_isLongest hdigit cs
  · intro haccepted
    obtain ⟨x, hx⟩ := numberReading_of_mem haccepted (suffix? (cutNumber d cs).taken)
    exact ⟨x, by rw [ofCut, hreading, hx]; rfl⟩
  · intro hrefused
    rw [ofCut, hreading, numberReading_of_notMem hrefused]
    rfl
  · rfl

/-- A number with a suffix, and right behind it a digit that starts an exponent without digits. -/
theorem ofText_number_openExponent :
    ∃ l l' l'', ofText "1.e3u4e.d-" = [l, l', l''] ∧
      l.text = "1.e3u" ∧ (∃ x, l.reading = .ok (.number ⟨x, some .unsigned⟩)) ∧
      l'.text = "4e.d" ∧ l'.reading = .error ⟨.malformedNumber, ⟨5, 9⟩⟩ := by
  have hfirst : cut '1' ".e3u4e.d-".toList =
      ⟨"1.e3u".toList, "4e.d-".toList, numberReading "1.e3".toList (some .unsigned)⟩ := rfl
  have hsecond : cut '4' "e.d-".toList =
      ⟨"4e.d".toList, "-".toList, numberReading "4e.".toList (some .float)⟩ := rfl
  have hthird : scan 9 "-".toList = [⟨⟨9, 10⟩, "-", .ok (.symbol .minus)⟩] := by
    have hminus : cut '-' [] = ⟨['-'], [], .ok (.symbol .minus)⟩ := rfl
    have htext : "-".toList = ['-'] := rfl
    rw [htext, scan_of_not_blank (by decide), hminus, scan]
    rfl
  have hlexemes : ofText "1.e3u4e.d-" = [ofCut 0 (cut '1' ".e3u4e.d-".toList)] ++
      ofCut 5 (cut '4' "e.d-".toList) :: [⟨⟨9, 10⟩, "-", .ok (.symbol .minus)⟩] := by
    have htext : "1.e3u4e.d-".toList = '1' :: ".e3u4e.d-".toList := rfl
    have hback : "4e.d-".toList = '4' :: "e.d-".toList := rfl
    have hstop : 0 + Text.byteSize "1.e3u".toList = 5 := rfl
    have hstop' : 5 + Text.byteSize "4e.d".toList = 9 := rfl
    rw [ofText, htext, scan_of_not_blank (by decide), hfirst, hstop, hback,
      scan_of_not_blank (by decide), hsecond, hstop', hthird, List.singleton_append]
  have haccepted : "1.e3".toList ∈ Decimal.grammar := (Decimal.exists_parse?_iff _).1 ⟨_, rfl⟩
  have hrefused : "4e.".toList ∉ Decimal.grammar := by
    intro h
    obtain ⟨d, hd⟩ := (Decimal.exists_parse?_iff _).2 h
    cases hd
  rw [hfirst, hsecond] at hlexemes
  have hstart : ofText "1.e3u4e.d-" = [] ++ _ := hlexemes
  obtain ⟨-, run, -, -, hrun, -, -, hnumber, -⟩ := ofText_number hstart (c := '1') rfl rfl
  obtain ⟨-, run', -, -, hrun', -, -, -, hproblem, -⟩ := ofText_number hlexemes (c := '4') rfl rfl
  obtain rfl : run = "1.e3u".toList := (String.ofList_injective hrun).symm
  obtain rfl : run' = "4e.d".toList := (String.ofList_injective hrun').symm
  exact ⟨_, _, _, hlexemes, rfl, hnumber haccepted, rfl, hproblem hrefused⟩

end Lexeme

end ExprLang
