import ExprLang.Token
import ExprLang.Diagnostic
import ExprLang.Text.Blank
import ExprLang.Text.Letter
import ExprLang.Text.Numeral

/-!
# From text to tokens

`Lexeme.ofText` cuts a text into lexemes. White space separates them and is skipped; each other
character starts a lexeme, which goes on as far as it can. A lexeme reads as a token or as a
problem, and reading goes on behind it either way, so a text has all its problems reported.

`Lexeme.cut` takes one lexeme off a text that starts with no white space. It never takes less than
one character (`cut_taken_head`), and what it takes and what it leaves are the text
(`cut_taken_append_rest`).
-/

namespace ExprLang

/-- A piece of a text that was read as one: the bytes it covers, its characters, and the token or
the problem it reads as. -/
structure Lexeme where
  span : Span
  text : String
  reading : Except Diagnostic Token.Kind
deriving Repr

namespace Lexeme

/-- The token a lexeme reads as. -/
def token? (l : Lexeme) : Option Token :=
  match l.reading with
  | .ok kind => some ⟨kind, l.span, l.text⟩
  | .error _ => none

/-- The token a lexeme reads as, or the problem. -/
def token (l : Lexeme) : Except Diagnostic Token :=
  l.reading.map fun kind => ⟨kind, l.span, l.text⟩

/-- What one step takes off a text: the characters, those that follow, and what was read. -/
structure Cut where
  taken : List Char
  rest : List Char
  reading : Except Problem Token.Kind

/-! ## Names and keywords -/

/-- The characters with which a name goes on. -/
def isNameChar (c : Char) : Bool := Text.isLetter c || Text.isNumeral c

/-- The bytes that start the UTF-8 form of some letter or numeral outside ASCII. -/
def startsNameChar (byte : Nat) : Bool :=
  (0xC2 ≤ byte && byte ≤ 0xDF && byte != 0xCC) || (0xE0 ≤ byte && byte ≤ 0xED) ||
    byte == 0xEF || byte == 0xF0

/-- Whether the character behind a word blurs it: one outside ASCII whose first byte a name could go
on with, though the character is neither a letter nor a numeral. -/
def isBlurred : List Char → Bool
  | [] => false
  | c :: _ => 0x80 ≤ c.toNat && startsNameChar (Text.leadByte c)

/-- What a word denotes in front of the text `rest`: a reserved word is read as one unless it is
blurred, and every other word is a name. -/
def wordKind (word rest : List Char) : Token.Kind :=
  if isBlurred rest then .identifier
  else (Token.keyword? (String.ofList word)).getD .identifier

/-- Takes a word that starts with the letter `c`. -/
def cutWord (c : Char) (cs : List Char) : Cut :=
  let word := c :: cs.takeWhile isNameChar
  let rest := cs.dropWhile isNameChar
  ⟨word, rest, .ok (wordKind word rest)⟩

/-! ## Numbers -/

/-- The characters with which a number goes on: digits, points and exponent marks. -/
def isNumberChar (c : Char) : Bool := c.isDigit || c == '.' || c == 'e'

/-- A suffix at the start of a text: its letter, its meaning and the rest. -/
def cutSuffix : List Char → List Char × Option Suffix × List Char
  | [] => ([], none, [])
  | c :: cs =>
    match Suffix.ofChar? c with
    | some s => ([c], some s, cs)
    | none => ([], none, c :: cs)

/-- What the digits of a number and its suffix denote. -/
def numberReading (digits : List Char) (suffix : Option Suffix) : Except Problem Token.Kind :=
  match Decimal.parse? digits with
  | some d => .ok (.number ⟨d.toBinary .double, suffix⟩)
  | none => .error .malformedNumber

/-- Takes a number that starts with the digit `c`. -/
def cutNumber (c : Char) (cs : List Char) : Cut :=
  let digits := c :: cs.takeWhile isNumberChar
  let (letter, suffix, rest) := cutSuffix (cs.dropWhile isNumberChar)
  ⟨digits ++ letter, rest, numberReading digits suffix⟩

/-! ## Strings -/

/-- The character that an escaped character stands for. -/
def unescape : Char → Char
  | 'n' => '\n'
  | 't' => '\t'
  | '0' => '\x00'
  | c => c

/-- A string from behind its opening quote to its closing one: what it denotes, the characters it is
written with, and the rest. There is none if no quote closes it. -/
def closeString : List Char → Option (List Char × List Char × List Char)
  | [] => none
  | '"' :: cs => some ([], ['"'], cs)
  | '\\' :: c :: cs =>
    (closeString cs).map fun (value, taken, rest) => (unescape c :: value, '\\' :: c :: taken, rest)
  | c :: cs => (closeString cs).map fun (value, taken, rest) => (c :: value, c :: taken, rest)

/-- Takes a string whose opening quote stands in front of `cs`. One that is never closed takes all
of the text. -/
def cutString (cs : List Char) : Cut :=
  match closeString cs with
  | some (value, taken, rest) => ⟨'"' :: taken, rest, .ok (.string (String.ofList value))⟩
  | none => ⟨'"' :: cs, [], .error .unclosedString⟩

/-! ## Lexemes -/

/-- Takes the lexeme that starts with the character `c` in front of `cs`. -/
def cut (c : Char) (cs : List Char) : Cut :=
  if Text.isLetter c then cutWord c cs
  else if c.isDigit then cutNumber c cs
  else if c = '"' then cutString cs
  else
    match Symbol.ofChar? c with
    | some s => ⟨[c], cs, .ok (.symbol s)⟩
    | none => ⟨[c], cs, .error (.unknownCharacter c)⟩

theorem closeString_append {cs value taken rest : List Char}
    (h : closeString cs = some (value, taken, rest)) : taken ++ rest = cs := by
  induction cs using closeString.induct generalizing value taken rest with
  | case1 => simp [closeString] at h
  | case2 cs =>
    simp only [closeString, Option.some.injEq, Prod.mk.injEq] at h
    obtain ⟨-, rfl, rfl⟩ := h
    rfl
  | case3 c cs ih =>
    simp only [closeString, Option.map_eq_some_iff, Prod.mk.injEq] at h
    obtain ⟨⟨v, t, r⟩, hclose, -, rfl, rfl⟩ := h
    simp [ih hclose]
  | case4 c cs hquote hescape ih =>
    rw [closeString] at h
    · simp only [Option.map_eq_some_iff, Prod.mk.injEq] at h
      obtain ⟨⟨v, t, r⟩, hclose, -, rfl, rfl⟩ := h
      simp [ih hclose]
    · exact hquote
    · exact hescape

theorem cutSuffix_append (cs : List Char) : (cutSuffix cs).1 ++ (cutSuffix cs).2.2 = cs := by
  cases cs with
  | nil => rfl
  | cons c cs =>
    rw [cutSuffix]
    cases Suffix.ofChar? c <;> simp

/-- A step loses nothing: what it takes and what it leaves are the text. -/
theorem cut_taken_append_rest (c : Char) (cs : List Char) :
    (cut c cs).taken ++ (cut c cs).rest = c :: cs := by
  unfold cut
  split
  · simp [cutWord, List.takeWhile_append_dropWhile]
  split
  · have h := cutSuffix_append (cs.dropWhile isNumberChar)
    simp only [cutNumber, List.append_assoc, List.cons_append]
    rw [h, List.takeWhile_append_dropWhile]
  split
  · rename_i hquote
    subst hquote
    unfold cutString
    split
    · rename_i hclose
      simp [closeString_append hclose]
    · simp
  · split <;> simp

/-- A step takes the character it starts with. -/
theorem cut_taken_head (c : Char) (cs : List Char) : ∃ ds, (cut c cs).taken = c :: ds := by
  unfold cut
  split
  · exact ⟨_, rfl⟩
  split
  · exact ⟨_, rfl⟩
  split
  · rename_i hquote
    subst hquote
    unfold cutString
    split <;> exact ⟨_, rfl⟩
  · split <;> exact ⟨[], rfl⟩

theorem cut_rest_length_le (c : Char) (cs : List Char) : (cut c cs).rest.length ≤ cs.length := by
  obtain ⟨ds, htaken⟩ := cut_taken_head c cs
  have h := congrArg List.length (cut_taken_append_rest c cs)
  rw [htaken] at h
  simp at h
  omega

/-- The lexeme of a step that starts at the byte `start`. A string that is never closed is reported
at its end, which is the end of the text; every other problem covers the lexeme. -/
def ofCut (start : Nat) (step : Cut) : Lexeme :=
  let span : Span := ⟨start, start + Text.byteSize step.taken⟩
  let place (p : Problem) : Span :=
    match p with
    | .unclosedString => Span.point span.stop
    | _ => span
  ⟨span, String.ofList step.taken, step.reading.mapError fun p => ⟨p, place p⟩⟩

/-- The problem of a lexeme is that of its step. -/
theorem ofCut_error {start : Nat} {step : Cut} {d : Diagnostic}
    (h : (ofCut start step).reading = .error d) :
    step.reading = .error d.problem ∧
      d.span = if d.problem = .unclosedString then Span.point (ofCut start step).span.stop
        else (ofCut start step).span := by
  cases hreading : step.reading with
  | ok kind => rw [ofCut, hreading] at h; cases h
  | error p =>
    rw [ofCut, hreading] at h
    cases h
    refine ⟨rfl, ?_⟩
    cases p <;> rfl

/-- The token of a lexeme is that of its step. -/
theorem ofCut_ok {start : Nat} {step : Cut} {kind : Token.Kind}
    (h : (ofCut start step).reading = .ok kind) : step.reading = .ok kind := by
  cases hreading : step.reading with
  | ok kind' => rw [ofCut, hreading] at h; cases h; rfl
  | error p => rw [ofCut, hreading] at h; cases h

/-- The lexemes of a text whose first character stands at the byte `start`. -/
def scan (start : Nat) : List Char → List Lexeme
  | [] => []
  | c :: cs =>
    if Text.isBlank c then scan (start + c.utf8Size) cs
    else
      ofCut start (cut c cs) :: scan (start + Text.byteSize (cut c cs).taken) (cut c cs).rest
termination_by cs => cs.length
decreasing_by
  · simp
  · have h := cut_rest_length_le c cs
    simp
    omega

/-- The lexemes of a text. -/
def ofText (text : String) : List Lexeme := scan 0 text.toList

end Lexeme

/-- The tokens of a text, or its first problem. -/
def Token.ofText (text : String) : Except Diagnostic (List Token) :=
  (Lexeme.ofText text).mapM Lexeme.token

end ExprLang
