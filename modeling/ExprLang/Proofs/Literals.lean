import ExprLang.Proofs.Placement
import ExprLang.Proofs.Spacing

/-!
# String literals

A string that is opened goes to the first quote that no backslash escapes, where a backslash escapes
the character behind it unless it is escaped itself (`Lexeme.IsEscaped`). If there is no such quote
the string stays open (`Lexeme.closesAt_of_closeString`, `Lexeme.not_isClosing_of_closeString`).

Every text can be written as a literal: with a backslash before each backslash and each quote, it is
read back as it was (`Lexeme.closeString_escaped`).
-/

namespace ExprLang.Lexeme

/-- The characters of a string literal between its quotes: a backslash stands before each backslash
and each quote of the text. -/
def escaped (text : List Char) : List Char :=
  text.flatMap fun c => if c = '\\' ∨ c = '"' then ['\\', c] else [c]

/-- A text as a string literal. -/
def stringLiteral (text : String) : String :=
  "\"" ++ String.ofList (escaped text.toList) ++ "\""

/-- A character is escaped if a backslash stands before it that is not escaped itself. -/
def IsEscaped (cs : List Char) : Nat → Prop
  | 0 => False
  | i + 1 => cs[i]? = some '\\' ∧ ¬IsEscaped cs i

/-- A quote that is not escaped. -/
def IsClosing (cs : List Char) (i : Nat) : Prop := cs[i]? = some '"' ∧ ¬IsEscaped cs i

/-- The first quote that is not escaped. -/
structure ClosesAt (cs : List Char) (i : Nat) : Prop where
  closing : IsClosing cs i
  first : ∀ j < i, ¬IsClosing cs j

/-! ## Behind a character -/

section Shift

variable {c : Char} {cs : List Char} {i : Nat}

theorem isEscaped_cons (hc : c ≠ '\\') : IsEscaped (c :: cs) (i + 1) ↔ IsEscaped cs i := by
  induction i with
  | zero => simp [IsEscaped, hc]
  | succ i ih => rw [IsEscaped, List.getElem?_cons_succ, ih, IsEscaped]

theorem isEscaped_escape (c : Char) : IsEscaped ('\\' :: c :: cs) (i + 2) ↔ IsEscaped cs i := by
  induction i with
  | zero => simp [IsEscaped]
  | succ i ih =>
    rw [IsEscaped, List.getElem?_cons_succ, List.getElem?_cons_succ, ih, IsEscaped]

theorem isClosing_cons (hc : c ≠ '\\') : IsClosing (c :: cs) (i + 1) ↔ IsClosing cs i := by
  rw [IsClosing, List.getElem?_cons_succ, isEscaped_cons hc, IsClosing]

theorem isClosing_escape (c : Char) : IsClosing ('\\' :: c :: cs) (i + 2) ↔ IsClosing cs i := by
  rw [IsClosing, List.getElem?_cons_succ, List.getElem?_cons_succ, isEscaped_escape, IsClosing]

theorem not_isClosing_zero (hc : c ≠ '"') : ¬IsClosing (c :: cs) 0 := by
  rintro ⟨hquote, -⟩
  rw [List.getElem?_cons_zero, Option.some.injEq] at hquote
  exact hc hquote

theorem not_isClosing_one (c : Char) : ¬IsClosing ('\\' :: c :: cs) 1 := by
  rintro ⟨-, hescaped⟩
  exact hescaped ⟨List.getElem?_cons_zero, id⟩

theorem closesAt_zero (cs : List Char) : ClosesAt ('"' :: cs) 0 :=
  ⟨⟨List.getElem?_cons_zero, id⟩, nofun⟩

theorem ClosesAt.cons (h : ClosesAt cs i) (hquote : c ≠ '"') (hescape : c ≠ '\\') :
    ClosesAt (c :: cs) (i + 1) := by
  refine ⟨(isClosing_cons hescape).2 h.closing, fun j hj => ?_⟩
  cases j with
  | zero => exact not_isClosing_zero hquote
  | succ j => exact mt (isClosing_cons hescape).1 (h.first j (by omega))

theorem ClosesAt.escape (h : ClosesAt cs i) (c : Char) : ClosesAt ('\\' :: c :: cs) (i + 2) := by
  refine ⟨(isClosing_escape c).2 h.closing, fun j hj => ?_⟩
  match j with
  | 0 => exact not_isClosing_zero (by decide)
  | 1 => exact not_isClosing_one c
  | j + 2 => exact mt (isClosing_escape c).1 (h.first j (by omega))

end Shift

/-! ## Where a string ends -/

/-- A string that is closed ends with the first quote that is not escaped. -/
theorem closesAt_of_closeString {cs value taken rest : List Char}
    (h : closeString cs = some (value, taken, rest)) :
    ∃ i, ClosesAt cs i ∧ taken = cs.take (i + 1) := by
  induction cs using closeString.induct generalizing value taken rest with
  | case1 => simp [closeString] at h
  | case2 cs =>
    simp only [closeString, Option.some.injEq, Prod.mk.injEq] at h
    obtain ⟨-, rfl, -⟩ := h
    exact ⟨0, closesAt_zero cs, rfl⟩
  | case3 c cs ih =>
    simp only [closeString, Option.map_eq_some_iff, Prod.mk.injEq] at h
    obtain ⟨⟨v, t, r⟩, hclose, -, rfl, -⟩ := h
    obtain ⟨i, hi, rfl⟩ := ih hclose
    exact ⟨i + 2, hi.escape c, rfl⟩
  | case4 c cs hquote hescape ih =>
    rw [closeString] at h
    · simp only [Option.map_eq_some_iff, Prod.mk.injEq] at h
      obtain ⟨⟨v, t, r⟩, hclose, -, rfl, -⟩ := h
      obtain ⟨i, hi, rfl⟩ := ih hclose
      have hc : c ≠ '\\' := by
        rintro rfl
        -- A backslash at the very end would leave the string open.
        cases cs with
        | nil => simp [closeString] at hclose
        | cons d ds => exact hescape d ds rfl rfl
      exact ⟨i + 1, hi.cons hquote hc, rfl⟩
    · exact hquote
    · exact hescape

/-- In a string that stays open every quote is escaped. -/
theorem not_isClosing_of_closeString {cs : List Char} (h : closeString cs = none) (i : Nat) :
    ¬IsClosing cs i := by
  induction cs using closeString.induct generalizing i with
  | case1 => simp [IsClosing]
  | case2 cs => simp [closeString] at h
  | case3 c cs ih =>
    simp only [closeString, Option.map_eq_none_iff] at h
    rcases i with _ | _ | i
    · exact not_isClosing_zero (by decide)
    · exact not_isClosing_one c
    · exact mt (isClosing_escape c).1 (ih h i)
  | case4 c cs hquote hescape ih =>
    rw [closeString] at h
    · rw [Option.map_eq_none_iff] at h
      cases i with
      | zero => exact not_isClosing_zero hquote
      | succ i =>
        by_cases hc : c = '\\'
        · have hcs : cs = [] := by
            cases cs with
            | nil => rfl
            | cons d ds => exact (hescape d ds hc rfl).elim
          simp [hcs, IsClosing]
        · exact mt (isClosing_cons hc).1 (ih h i)
    · exact hquote
    · exact hescape

/-- An escaped text is read back as it was. -/
theorem closeString_escaped (text rest : List Char) :
    closeString (escaped text ++ '"' :: rest) = some (text, escaped text ++ ['"'], rest) := by
  induction text with
  | nil => rfl
  | cons c text ih =>
    rw [escaped, List.flatMap_cons, ← escaped]
    by_cases hc : c = '\\' ∨ c = '"'
    · have hkept : unescape c = c := by rcases hc with rfl | rfl <;> rfl
      simp [hc, closeString, ih, hkept]
    · obtain ⟨hescape, hquote⟩ := not_or.1 hc
      have hne : ∀ d ds, c = '\\' → escaped text ++ '"' :: rest = d :: ds → False :=
        fun _ _ h _ => hescape h
      rw [if_neg hc, List.singleton_append, List.cons_append, closeString]
      · rw [ih]
        rfl
      · exact hquote
      · exact hne

/-! ## The first lexeme -/

theorem cut_quote (cs : List Char) : cut '"' cs = cutString cs := by
  rw [cut, if_neg (by decide), if_neg (by decide), if_pos rfl]

/-- The first lexeme of a text that starts with a quote. -/
theorem head?_ofText_quote (body : String) :
    (ofText ("\"" ++ body)).head? = some (ofCut 0 (cutString body.toList)) := by
  have hlist : ("\"" ++ body).toList = '"' :: body.toList := by simp
  rw [ofText, hlist, scan_of_not_blank (by decide), cut_quote, List.head?_cons]

theorem head?_ofText_stringLiteral (text rest : String) :
    (ofText (stringLiteral text ++ rest)).head? =
      some ⟨⟨0, (stringLiteral text).utf8ByteSize⟩, stringLiteral text, .ok (.string text)⟩ := by
  have hbody : stringLiteral text ++ rest =
      "\"" ++ (String.ofList (escaped text.toList) ++ "\"" ++ rest) := by
    simp only [stringLiteral, String.append_assoc]
  have hlist : (String.ofList (escaped text.toList) ++ "\"" ++ rest).toList =
      escaped text.toList ++ '"' :: rest.toList := by simp
  have htaken : String.ofList ('"' :: (escaped text.toList ++ ['"'])) = stringLiteral text := by
    apply String.toList_injective
    simp [stringLiteral]
  rw [hbody, head?_ofText_quote, hlist, cutString, closeString_escaped, ofCut_zero rfl]
  simp only [htaken, String.ofList_toList]

theorem head?_ofText_of_closed {body : String} {value taken rest : List Char}
    (h : closeString body.toList = some (value, taken, rest)) :
    (ofText ("\"" ++ body)).head? = some ⟨⟨0, Text.byteSize ('"' :: taken)⟩,
      String.ofList ('"' :: taken), .ok (.string (String.ofList value))⟩ := by
  rw [head?_ofText_quote, cutString, h, ofCut_zero rfl, ← Text.byteSize_toList,
    String.toList_ofList]

theorem head?_ofText_of_open {body : String} (h : closeString body.toList = none) :
    (ofText ("\"" ++ body)).head? =
      some ⟨⟨0, ("\"" ++ body).utf8ByteSize⟩, "\"" ++ body,
        .error ⟨.unclosedString, Span.point ("\"" ++ body).utf8ByteSize⟩⟩ := by
  have htaken : String.ofList ('"' :: body.toList) = "\"" ++ body := by
    apply String.toList_injective
    simp
  have hsize : Text.byteSize ('"' :: body.toList) = ("\"" ++ body).utf8ByteSize := by
    rw [← htaken, ← Text.byteSize_toList, String.toList_ofList]
  rw [head?_ofText_quote, cutString, h]
  simp only [ofCut, Nat.zero_add, hsize, htaken]
  rfl

/-- **Every text can be written as a literal, and a literal ends with the first quote that is not
escaped.** A text with its backslashes and quotes escaped is read back as it was, whatever follows.
A text that starts with a quote starts with a string up to the first quote that is not escaped, or
else with a string that is never closed, which is reported at the end of the text. -/
theorem ofText_literal :
    (∀ text rest : String, (ofText (stringLiteral text ++ rest)).head? =
      some ⟨⟨0, (stringLiteral text).utf8ByteSize⟩, stringLiteral text, .ok (.string text)⟩) ∧
    ∀ body : String,
      (∃ i value, ClosesAt body.toList i ∧ (ofText ("\"" ++ body)).head? =
        some ⟨⟨0, Text.byteSize ('"' :: body.toList.take (i + 1))⟩,
          String.ofList ('"' :: body.toList.take (i + 1)), .ok (.string value)⟩) ∨
      (∀ i, ¬IsClosing body.toList i) ∧ ∃ d : Diagnostic, d.kind = .eof ∧
        d.span = Span.point ("\"" ++ body).utf8ByteSize ∧ (ofText ("\"" ++ body)).head? =
          some ⟨⟨0, ("\"" ++ body).utf8ByteSize⟩, "\"" ++ body, .error d⟩ := by
  refine ⟨head?_ofText_stringLiteral, fun body => ?_⟩
  cases hclose : closeString body.toList with
  | some parts =>
    obtain ⟨value, taken, rest⟩ := parts
    obtain ⟨i, hi, rfl⟩ := closesAt_of_closeString hclose
    exact .inl ⟨i, String.ofList value, hi, head?_ofText_of_closed hclose⟩
  | none =>
    exact .inr ⟨not_isClosing_of_closeString hclose, _, rfl, rfl, head?_ofText_of_open hclose⟩

end ExprLang.Lexeme
