import ExprLang.Proofs.Marking

/-!
# Colour

A rendering for a terminal is the plain one with colour codes in it. `Text.withoutCodes` deletes the
codes of a text: an escape character, a bracket, digits and an `m`. A text *shades* another one if
this leaves the other, whatever text follows (`Style.Shades`), so that no code runs into what stands
behind it and texts that shade others can be put together (`Style.Shades.append`). Each part of a
rendered diagnostic shades the plain part, as long as what it shows has no escape character of its
own. From the parts comes the whole (`Diagnostic.render_withoutCodes`).
-/

namespace ExprLang

/-! ## Colour codes -/

namespace Text

/-- What follows the colour code at the start of a text. -/
def behindCode? : List Char → Option (List Char)
  | '\x1b' :: '[' :: d :: cs =>
    if d.isDigit then
      match cs.dropWhile Char.isDigit with
      | 'm' :: rest => some rest
      | _ => none
    else none
  | _ => none

theorem length_lt_of_behindCode? {cs rest : List Char} (h : behindCode? cs = some rest) :
    rest.length < cs.length := by
  unfold behindCode? at h
  split at h
  · rename_i d cs
    split at h
    · split at h
      · rename_i hrest
        cases h
        have hle := (List.dropWhile_sublist Char.isDigit (l := cs)).length_le
        rw [hrest] at hle
        simp only [List.length_cons] at hle ⊢
        omega
      · cases h
    · cases h
  · cases h

/-- A text without its colour codes. -/
def withoutCodes : List Char → List Char
  | [] => []
  | c :: cs =>
    match _ : behindCode? (c :: cs) with
    | some rest => withoutCodes rest
    | none => c :: withoutCodes cs
termination_by cs => cs.length
decreasing_by
  · rename_i hcode
    exact length_lt_of_behindCode? hcode
  · simp

section Codes

variable {c : Char} {cs digits : List Char}

theorem withoutCodes_of_some {rest : List Char} (h : behindCode? (c :: cs) = some rest) :
    withoutCodes (c :: cs) = withoutCodes rest := by
  rw [withoutCodes]
  split
  · rename_i hsome
    rw [h] at hsome
    cases hsome
    rfl
  · rename_i hnone
    rw [h] at hnone
    cases hnone

theorem withoutCodes_of_none (h : behindCode? (c :: cs) = none) :
    withoutCodes (c :: cs) = c :: withoutCodes cs := by
  rw [withoutCodes]
  split
  · rename_i hsome
    rw [h] at hsome
    cases hsome
  · rfl

theorem behindCode?_of_ne (hc : c ≠ '\x1b') : behindCode? (c :: cs) = none := by
  unfold behindCode?
  split
  · rename_i h
    exact absurd (List.cons.inj h).1 hc
  · rfl

theorem behindCode?_code (hc : c.isDigit = true) (hdigits : ∀ d ∈ digits, d.isDigit = true)
    (rest : List Char) :
    behindCode? ('\x1b' :: '[' :: c :: (digits ++ 'm' :: rest)) = some rest := by
  have hm : ¬Char.isDigit 'm' = true := by decide
  simp only [behindCode?, if_pos hc, List.dropWhile_append_of_pos hdigits,
    List.dropWhile_cons_of_neg hm]

/-- A text without escape characters stays as it is. -/
theorem withoutCodes_append (h : '\x1b' ∉ cs) (rest : List Char) :
    withoutCodes (cs ++ rest) = cs ++ withoutCodes rest := by
  induction cs with
  | nil => rfl
  | cons c cs ih =>
    rw [List.mem_cons, not_or] at h
    rw [List.cons_append, withoutCodes_of_none (behindCode?_of_ne (Ne.symm h.1)), ih h.2,
      List.cons_append]

end Codes

end Text

/-! ## Shaded texts -/

namespace Style

/-- A text is another one with colour codes in it, and no code goes on into what follows. -/
def Shades (shaded plain : String) : Prop :=
  ∀ rest, Text.withoutCodes (shaded.toList ++ rest) = plain.toList ++ Text.withoutCodes rest

namespace Shades

variable {a a' b b' : String}

/-- A text without escape characters. -/
theorem plain (h : '\x1b' ∉ a.toList) : Shades a a := Text.withoutCodes_append h

theorem append (h : Shades a b) (h' : Shades a' b') : Shades (a ++ a') (b ++ b') := by
  intro rest
  rw [String.toList_append, String.toList_append, List.append_assoc, h, h', List.append_assoc]

theorem join {α : Type} {f g : α → String} {as : List α} (h : ∀ x ∈ as, Shades (f x) (g x)) :
    Shades (String.join (as.map f)) (String.join (as.map g)) := by
  induction as with
  | nil => exact fun _ => rfl
  | cons x as ih =>
    obtain ⟨hx, has⟩ := List.forall_mem_cons.1 h
    rw [List.map_cons, List.map_cons, String.join_cons, String.join_cons]
    exact hx.append (ih has)

/-- A single colour code. -/
theorem code {c : Char} {digits : List Char} (h : (c :: digits).all Char.isDigit = true) :
    Shades (String.ofList ('\x1b' :: '[' :: c :: (digits ++ ['m']))) "" := by
  rw [List.all_cons, Bool.and_eq_true, List.all_eq_true] at h
  intro rest
  have hcode := Text.behindCode?_code h.1 h.2 rest
  rw [String.toList_ofList]
  simp only [List.cons_append, List.append_assoc, List.nil_append, String.toList_empty]
  exact Text.withoutCodes_of_some hcode

theorem toList_eq (h : Shades a b) : Text.withoutCodes a.toList = b.toList := by
  have hnil := h []
  rwa [List.append_nil, Text.withoutCodes, List.append_nil] at hnil

end Shades

/-- A highlighted text is the text between codes. -/
theorem shades_highlight {text : String} (c : Char) (digits : List Char)
    (hcolour : (c :: digits).all Char.isDigit = true) (htext : '\x1b' ∉ text.toList) :
    Shades (highlight (String.ofList (c :: digits)) text) text := by
  have hbold : Shades (String.ofList ('\x1b' :: '[' :: '1' :: ([] ++ ['m']))) "" :=
    .code (by decide)
  have hnormal : Shades (String.ofList ('\x1b' :: '[' :: '3' :: (['9'] ++ ['m']))) "" :=
    .code (by decide)
  have hoff : Shades (String.ofList ('\x1b' :: '[' :: '0' :: ([] ++ ['m']))) "" :=
    .code (by decide)
  have hparts :=
    (((hbold.append (.code hcolour)).append (.plain htext)).append hnormal).append hoff
  have hshaded : highlight (String.ofList (c :: digits)) text =
      String.ofList ('\x1b' :: '[' :: '1' :: ([] ++ ['m'])) ++
        String.ofList ('\x1b' :: '[' :: c :: (digits ++ ['m'])) ++ text ++
        String.ofList ('\x1b' :: '[' :: '3' :: (['9'] ++ ['m'])) ++
        String.ofList ('\x1b' :: '[' :: '0' :: ([] ++ ['m'])) := by
    apply String.toList_injective
    simp [highlight]
  have hplain : "" ++ "" ++ text ++ "" ++ "" = text := by simp
  rwa [← hshaded, hplain] at hparts

theorem shades_alert {text : String} (h : '\x1b' ∉ text.toList) :
    Shades (alert .coloured text) (alert .plain text) :=
  shades_highlight '3' ['1'] (by decide) h

theorem shades_strong {text : String} (h : '\x1b' ∉ text.toList) :
    Shades (strong .coloured text) (strong .plain text) :=
  shades_highlight '3' ['7'] (by decide) h

end Style

/-! ## Rendered diagnostics -/

namespace Diagnostic

open Style (Shades)

theorem escape_not_mem_toString (n : Nat) : '\x1b' ∉ (toString n).toList := by
  intro h
  rw [Nat.toString_eq_repr, Nat.toList_repr] at h
  exact absurd (Nat.isDigit_of_mem_toDigits (by decide) (by decide) h) (by decide)

theorem escape_not_mem_repeated {c : Char} (hc : '\x1b' ≠ c) (n : Nat) :
    '\x1b' ∉ (Text.repeated n c).toList := by
  intro h
  rw [Text.repeated, String.toList_ofList] at h
  exact hc (List.eq_of_mem_replicate h)

theorem header_shades {path message : String} (hpath : '\x1b' ∉ path.toList)
    (hmessage : '\x1b' ∉ message.toList) (width line col : Nat) :
    Shades (header .coloured path message width line col)
      (header .plain path message width line col) := by
  have herror : Shades (Style.coloured.alert "Error") (Style.plain.alert "Error") :=
    Style.shades_alert (by decide)
  have hcolon : Shades (Style.coloured.strong ":") (Style.plain.strong ":") :=
    Style.shades_strong (by decide)
  have hpad : Shades (Text.repeated width ' ') (Text.repeated width ' ') :=
    .plain (escape_not_mem_repeated (by decide) width)
  have hnumber (n : Nat) : Shades (toString n) (toString n) := .plain (escape_not_mem_toString n)
  have hheadline := ((herror.append hcolon).append (.plain (a := " ") (by decide))).append
    (Style.shades_strong hmessage)
  have harrow := ((hheadline.append (.plain (a := "\n") (by decide))).append hpad).append
    (.plain (a := "--> ") (by decide))
  have hplace := (((harrow.append (.plain hpath)).append (.plain (a := ":") (by decide))).append
    (hnumber line)).append (.plain (a := ":") (by decide))
  exact ((((hplace.append (hnumber col)).append (.plain (a := "\n") (by decide))).append
    hpad).append (.plain (a := " |") (by decide)))

theorem drawn_shades {l : Line} (hl : '\x1b' ∉ l.shown) (width index lead carets : Nat) :
    Shades (drawn .coloured width l index lead carets) (drawn .plain width l index lead carets) := by
  have hspaces (n : Nat) : Shades (Text.repeated n ' ') (Text.repeated n ' ') :=
    .plain (escape_not_mem_repeated (by decide) n)
  have hbar : Shades " | " " | " := .plain (by decide)
  have hfeed : Shades "\n" "\n" := .plain (by decide)
  have hnumber : Shades (Text.alignRight width (toString (index + 1)))
      (Text.alignRight width (toString (index + 1))) :=
    (hspaces _).append (.plain (escape_not_mem_toString _))
  have hline : Shades (String.ofList l.shown) (String.ofList l.shown) :=
    .plain (by rwa [String.toList_ofList])
  have hcarets := Style.shades_alert (escape_not_mem_repeated (c := '^') (by decide) carets)
  have htop := ((hfeed.append hnumber).append hbar).append hline
  exact ((((htop.append hfeed).append (hspaces width)).append hbar).append (hspaces lead)).append
    hcarets

theorem noteText_shades {note : Option String} (h : ∀ text ∈ note, '\x1b' ∉ text.toList) :
    Shades (noteText .coloured note) (noteText .plain note) := by
  cases note with
  | none => exact .plain (by decide)
  | some text => exact (Shades.plain (by decide)).append (Style.shades_alert (h text rfl))

variable {doc : Document} {d : Diagnostic}

/-- What is shown of a line are characters of the text. -/
theorem escape_not_mem_shown {text : List Char} {l : Line} {i : Nat} (hl : l.IsAt text i)
    (htext : '\x1b' ∉ text) : '\x1b' ∉ l.shown := by
  obtain ⟨before, after, hpieces, -⟩ := hl.piece
  obtain ⟨⟨n, hends⟩, -⟩ := l.shown_spec
  intro hshown
  have hline : '\x1b' ∈ l.text := hends ▸ List.mem_append_left _ hshown
  rw [hpieces] at htext
  exact htext (List.mem_append_left _ (List.mem_append_right _ hline))

theorem render_shades (htext : '\x1b' ∉ doc.text.toList) (hpath : '\x1b' ∉ doc.path.toList)
    (hmessage : '\x1b' ∉ d.message.toList) (hnote : ∀ note ∈ d.note, '\x1b' ∉ note.toList) :
    Shades (d.render .coloured doc) (d.render .plain doc) := by
  have hrows (first last width : Nat) :
      ∀ p ∈ coveredLines (Line.split 0 doc.text.toList) first last,
        Shades (rows .coloured d.span width p.1 p.2) (rows .plain d.span width p.1 p.2) := by
    intro p hp
    obtain ⟨hline, -⟩ := mem_coveredLines_iff.1 hp
    exact drawn_shades (escape_not_mem_shown (Line.getElem?_split_iff.1 hline) htext) _ _ _ _
  exact ((header_shades hpath hmessage _ _ _).append (.join (hrows _ _ _))).append
    (noteText_shades hnote)

/-- A rendering starts with the word for a problem. -/
theorem head?_render (style : Style) (doc : Document) (d : Diagnostic) :
    (d.render style doc).toList.head? = (style.alert "Error").toList.head? := by
  obtain ⟨rest, hrender⟩ : ∃ rest, d.render style doc = style.alert "Error" ++ rest := by
    simp only [render, header, String.append_assoc]
    exact ⟨_, rfl⟩
  have hword : (style.alert "Error").toList ≠ [] := by
    cases style <;> decide
  rw [hrender, String.toList_append, List.head?_append_of_ne_nil _ hword]

/-- **Colour changes nothing but colour.** If the source, its path and the words of a diagnostic
have no escape characters, then the coloured rendering without its codes is the plain one, and it
has codes. -/
theorem render_withoutCodes (doc : Document) (d : Diagnostic) (htext : '\x1b' ∉ doc.text.toList)
    (hpath : '\x1b' ∉ doc.path.toList) (hmessage : '\x1b' ∉ d.message.toList)
    (hnote : ∀ note ∈ d.note, '\x1b' ∉ note.toList) :
    Text.withoutCodes (d.render .coloured doc).toList = (d.render .plain doc).toList ∧
      d.render .coloured doc ≠ d.render .plain doc := by
  refine ⟨(render_shades htext hpath hmessage hnote).toList_eq, fun hsame => ?_⟩
  have hhead := congrArg (fun s : String => s.toList.head?) hsame
  simp only [head?_render] at hhead
  exact absurd hhead (by decide)

/-- A span over two lines, with a note. -/
theorem render_withoutCodes_noted :
    ∃ d : Diagnostic, d.span = ⟨1, 7⟩ ∧ d.note = some "here" ∧
      Text.withoutCodes (d.render .coloured ⟨"main", "aé\r\n  b"⟩).toList =
        ("Error: unexpected end of file\n --> main:1:1\n  |" ++
          "\n1 | aé\n  |  ^\n2 |   b\n  | ^^ here").toList := by
  obtain ⟨hplain, -⟩ := render_withoutCodes ⟨"main", "aé\r\n  b"⟩
    ⟨.reported .eof none (some "here"), ⟨1, 7⟩⟩ (by decide) (by decide) (by decide)
    (by decide)
  refine ⟨⟨.reported .eof none (some "here"), ⟨1, 7⟩⟩, rfl, rfl, hplain.trans ?_⟩
  decide +kernel

end Diagnostic

end ExprLang
