import ExprLang.Proofs.Spacing

/-!
# The lexemes of a text tile it

Every character of a text is either part of exactly one lexeme or white space between two of them
(`Lexeme.ofText_tiles`). The lexer alternates: it skips white space, then takes a step
(`Lexeme.Laid`). From this shape follow, each by an induction along the text, the order of the
lexemes, the text they cover and what stands between them.
-/

namespace ExprLang.Lexeme

/-- The gaps in front of, between and behind lexemes, from the byte `start` to the byte `stop`. -/
def gaps (start stop : Nat) : List Lexeme → List Span
  | [] => [⟨start, stop⟩]
  | l :: ls => ⟨start, l.span.start⟩ :: gaps l.span.stop stop ls

/-- A span that denotes white space, or nothing at all. -/
def IsBlankIn (text : List Char) (s : Span) : Prop :=
  ∃ cs, s.slice? text = some cs ∧ ∀ c ∈ cs, Text.isBlank c = true

/-- Lexemes account for every character of a text, each once. -/
structure Tiles (text : List Char) (ls : List Lexeme) : Prop where
  length_le : ls.length ≤ text.length
  nonempty : ∀ l ∈ ls, l.span.start < l.span.stop
  ordered : ls.Pairwise fun l l' => l.span.stop ≤ l'.span.start
  blank : ∀ gap ∈ gaps 0 (Text.byteSize text) ls, IsBlankIn text gap
  slice : ∀ l ∈ ls, l.span.slice? text = some l.text.toList
  /-- A problem is reported at the lexeme that has it. -/
  problem : ∀ l ∈ ls, ∀ d, l.reading = .error d → d.problem ≠ .unclosedString → d.span = l.span
  unknown : ∀ l ∈ ls, ∀ d c, l.reading = .error d → d.problem = .unknownCharacter c →
    l.text.toList = [c]
  /-- An open string goes from its quote to the end of the text, where it is reported. -/
  unclosed : ∀ l ∈ ls, ∀ d, l.reading = .error d → d.problem = .unclosedString →
    ls.getLast? = some l ∧ l.span.stop = Text.byteSize text ∧
      d.span = Span.point (Text.byteSize text) ∧ l.text.toList.head? = some '"'

/-! ## Steps -/

/-- What a problem of a step says about the characters it has taken. -/
theorem cut_error {c : Char} {cs : List Char} {p : Problem} (h : (cut c cs).reading = .error p) :
    p = .malformedNumber ∨ (p = .unknownCharacter c ∧ (cut c cs).taken = [c]) ∨
      (p = .unclosedString ∧ c = '"' ∧ (cut c cs).rest = []) := by
  unfold cut at h ⊢
  by_cases hletter : Text.isLetter c = true
  · simp [hletter, cutWord] at h
  by_cases hdigit : c.isDigit = true
  · left
    simp only [hletter, hdigit, cutNumber, numberReading, if_true, if_false, Bool.false_eq_true]
      at h
    split at h <;> cases h
    rfl
  by_cases hquote : c = '"'
  · right; right
    subst hquote
    simp only [hletter, hdigit, if_true, if_false, Bool.false_eq_true, cutString] at h ⊢
    split at h <;> cases h
    simp
  · right; left
    simp only [hletter, hdigit, hquote, if_false, Bool.false_eq_true] at h ⊢
    cases hsymbol : Symbol.ofChar? c with
    | some s => rw [hsymbol] at h; cases h
    | none => rw [hsymbol] at h; cases h; exact ⟨rfl, rfl⟩

/-- A lexeme among others is a step at its place, and behind what the step takes lexing goes on. -/
theorem scan_eq_append_cons {start : Nat} {cs : List Char} {before after : List Lexeme} {l : Lexeme}
    (h : scan start cs = before ++ l :: after) :
    ∃ front c cs', cs = front ++ c :: cs' ∧ Text.isBlank c = false ∧
      l = ofCut (start + Text.byteSize front) (cut c cs') ∧
      after = scan (start + Text.byteSize front + Text.byteSize (cut c cs').taken)
        (cut c cs').rest := by
  induction start, cs using scan.induct generalizing before with
  | case1 start => simp [scan] at h
  | case2 start c cs hc ih =>
    rw [scan_of_blank hc] at h
    obtain ⟨front, d, ds, rfl, hd, rfl, rfl⟩ := ih h
    refine ⟨c :: front, d, ds, rfl, hd, ?_, ?_⟩ <;>
      rw [Text.byteSize_cons, ← Nat.add_assoc]
  | case3 start c cs hc ih =>
    have hc' : Text.isBlank c = false := by simpa using hc
    rw [scan_of_not_blank hc'] at h
    cases before with
    | nil =>
      simp only [List.nil_append, List.cons.injEq] at h
      obtain ⟨rfl, rfl⟩ := h
      exact ⟨[], c, cs, rfl, hc', rfl, rfl⟩
    | cons first before =>
      simp only [List.cons_append, List.cons.injEq] at h
      obtain ⟨front, d, ds, hrest, hd, rfl, rfl⟩ := ih h.2
      refine ⟨(cut c cs).taken ++ front, d, ds, ?_, hd, ?_, ?_⟩
      · rw [List.append_assoc, ← hrest, cut_taken_append_rest]
      · rw [Text.byteSize_append, ← Nat.add_assoc]
      · rw [Text.byteSize_append, ← Nat.add_assoc]

/-! ## Lexemes in a row -/

/-- Lexemes laid out from the byte `start` on: white space and a step of the lexer by turns. -/
inductive Laid : Nat → List Char → List Lexeme → Prop
  | done {start : Nat} {gap : List Char} (blank : ∀ c ∈ gap, Text.isBlank c = true) :
    Laid start gap []
  | step {start : Nat} {gap : List Char} {c : Char} {cs : List Char} {ls : List Lexeme}
      (blank : ∀ c ∈ gap, Text.isBlank c = true)
      (rest : Laid (start + Text.byteSize gap + Text.byteSize (cut c cs).taken) (cut c cs).rest ls) :
    Laid start (gap ++ c :: cs) (ofCut (start + Text.byteSize gap) (cut c cs) :: ls)

/-- One more blank in front belongs to the first gap. -/
theorem Laid.of_blank {c : Char} (hc : Text.isBlank c = true) {start : Nat} {cs : List Char}
    {ls : List Lexeme} (h : Laid (start + c.utf8Size) cs ls) : Laid start (c :: cs) ls := by
  cases h with
  | done blank => exact .done (List.forall_mem_cons.2 ⟨hc, blank⟩)
  | @step _ gap c' cs' ls blank rest =>
    have hgap : start + c.utf8Size + Text.byteSize gap = start + Text.byteSize (c :: gap) := by
      simp [Nat.add_assoc]
    rw [hgap] at rest ⊢
    exact @Laid.step start (c :: gap) c' cs' ls (List.forall_mem_cons.2 ⟨hc, blank⟩) rest

theorem scan_laid (start : Nat) (cs : List Char) : Laid start cs (scan start cs) := by
  induction start, cs using scan.induct with
  | case1 start =>
    rw [scan]
    exact .done (by simp)
  | case2 start c cs hc ih =>
    rw [scan_of_blank hc]
    exact ih.of_blank hc
  | case3 start c cs hc ih =>
    rw [scan_of_not_blank (by simpa using hc)]
    exact @Laid.step start [] c cs _ (by simp) ih

namespace Laid

variable {start : Nat} {cs : List Char} {ls : List Lexeme}

/-- A step and what it leaves end where the text does. -/
theorem stop_of_step (start : Nat) (gap : List Char) (c : Char) (cs : List Char) :
    start + Text.byteSize gap + Text.byteSize (cut c cs).taken + Text.byteSize (cut c cs).rest =
      start + Text.byteSize (gap ++ c :: cs) := by
  rw [← cut_taken_append_rest c cs]
  simp only [Text.byteSize_append]
  omega

theorem length_le (h : Laid start cs ls) : ls.length ≤ cs.length := by
  induction h with
  | done blank => simp
  | @step start gap c cs ls blank rest ih =>
    have hrest := cut_rest_length_le c cs
    simp only [List.length_cons, List.length_append]
    omega

theorem start_le (h : Laid start cs ls) : ∀ l ∈ ls, start ≤ l.span.start := by
  induction h with
  | done blank => simp
  | @step start gap c cs ls blank rest ih =>
    intro l hl
    rcases List.mem_cons.1 hl with rfl | hl
    · exact Nat.le_add_right _ _
    · have := ih l hl
      omega

theorem nonempty (h : Laid start cs ls) : ∀ l ∈ ls, l.span.start < l.span.stop := by
  induction h with
  | done blank => simp
  | @step start gap c cs ls blank rest ih =>
    refine List.forall_mem_cons.2 ⟨?_, ih⟩
    obtain ⟨ds, htaken⟩ := cut_taken_head c cs
    have hpos := c.utf8Size_pos
    simp only [ofCut, htaken, Text.byteSize_cons]
    omega

theorem ordered (h : Laid start cs ls) :
    ls.Pairwise fun l l' => l.span.stop ≤ l'.span.start := by
  induction h with
  | done blank => exact .nil
  | step blank rest ih => exact .cons rest.start_le ih

theorem slice (h : Laid start cs ls) (before : List Char) (hbefore : Text.byteSize before = start) :
    ∀ l ∈ ls, l.span.slice? (before ++ cs) = some l.text.toList := by
  induction h generalizing before with
  | done blank => simp
  | @step start gap c cs ls blank rest ih =>
    subst hbefore
    have hwhole := cut_taken_append_rest c cs
    refine List.forall_mem_cons.2 ⟨?_, ?_⟩
    · have hslice := Span.slice?_append (before ++ gap) (cut c cs).taken (cut c cs).rest
      simp only [List.append_assoc, hwhole, Text.byteSize_append] at hslice
      simpa [ofCut] using hslice
    · have hrest := ih (before ++ gap ++ (cut c cs).taken) (by simp only [Text.byteSize_append])
      simpa only [List.append_assoc, hwhole] using hrest

theorem blank (h : Laid start cs ls) (before : List Char) (hbefore : Text.byteSize before = start) :
    ∀ gap ∈ gaps start (start + Text.byteSize cs) ls, IsBlankIn (before ++ cs) gap := by
  induction h generalizing before with
  | @done start cs blank =>
    subst hbefore
    have hslice := Span.slice?_append before cs []
    rw [List.append_nil] at hslice
    simpa [gaps] using ⟨cs, hslice, blank⟩
  | @step start gap c cs ls blank rest ih =>
    subst hbefore
    have hwhole := cut_taken_append_rest c cs
    refine List.forall_mem_cons.2 ⟨⟨gap, ?_, blank⟩, ?_⟩
    · simpa [ofCut] using Span.slice?_append before gap (c :: cs)
    · have hrest := ih (before ++ gap ++ (cut c cs).taken) (by simp only [Text.byteSize_append])
      simp only [List.append_assoc, hwhole, stop_of_step] at hrest
      exact hrest

theorem problem (h : Laid start cs ls) :
    ∀ l ∈ ls, ∀ d, l.reading = .error d → d.problem ≠ .unclosedString → d.span = l.span := by
  induction h with
  | done blank => simp
  | step blank rest ih =>
    refine List.forall_mem_cons.2 ⟨fun d hd hclosed => ?_, ih⟩
    rw [(ofCut_error hd).2, if_neg hclosed]

theorem unknown (h : Laid start cs ls) :
    ∀ l ∈ ls, ∀ d c, l.reading = .error d → d.problem = .unknownCharacter c →
      l.text.toList = [c] := by
  induction h with
  | done blank => simp
  | step blank rest ih =>
    refine List.forall_mem_cons.2 ⟨fun d c' hd hproblem => ?_, ih⟩
    have hreading := (ofCut_error hd).1
    rw [hproblem] at hreading
    rcases cut_error hreading with hp | ⟨hp, htaken⟩ | ⟨hp, -⟩
    · cases hp
    · cases hp
      simp [ofCut, htaken]
    · cases hp

/-- Behind an open string nothing is left. -/
theorem unclosed (h : Laid start cs ls) :
    ∀ l ∈ ls, ∀ d, l.reading = .error d → d.problem = .unclosedString →
      ls.getLast? = some l ∧ l.span.stop = start + Text.byteSize cs ∧
        d.span = Span.point (start + Text.byteSize cs) ∧ l.text.toList.head? = some '"' := by
  induction h with
  | done blank => simp
  | @step start gap c cs ls blank rest ih =>
    have hend := stop_of_step start gap c cs
    refine List.forall_mem_cons.2 ⟨fun d hd hproblem => ?_, fun l hl d hd hproblem => ?_⟩
    · obtain ⟨hreading, hspan⟩ := ofCut_error hd
      rw [hproblem] at hreading
      rcases cut_error hreading with hp | ⟨hp, -⟩ | ⟨-, rfl, hrest⟩
      · cases hp
      · cases hp
      have hstop : (ofCut (start + Text.byteSize gap) (cut '"' cs)).span.stop =
          start + Text.byteSize (gap ++ '"' :: cs) := by
        rw [← hend, hrest]
        rfl
      obtain ⟨ds, htaken⟩ := cut_taken_head '"' cs
      rw [hspan, if_pos hproblem, hstop]
      have hls : ls = [] := by
        have hlength := rest.length_le
        rw [hrest] at hlength
        simpa using hlength
      refine ⟨by rw [hls]; rfl, rfl, rfl, ?_⟩
      simp [ofCut, htaken]
    · obtain ⟨hlast, hstop, hspan, hquote⟩ := ih l hl d hd hproblem
      rw [hend] at hstop hspan
      refine ⟨?_, hstop, hspan, hquote⟩
      rw [List.getLast?_cons, hlast]
      rfl

end Laid

/-- **The lexer tiles the text.** The lexemes stand in the order of the text without overlap, each
covers the text it is written with, what stands between them is white space, and a problem is
reported where its lexeme stands, or at the end of the text if a string is open there. -/
theorem ofText_tiles (text : String) : Tiles text.toList (ofText text) := by
  have hlaid := scan_laid 0 text.toList
  refine ⟨hlaid.length_le, hlaid.nonempty, hlaid.ordered, ?_, hlaid.slice [] rfl, hlaid.problem,
    hlaid.unknown, ?_⟩
  · have hblank := hlaid.blank [] rfl
    rwa [Nat.zero_add] at hblank
  · have hunclosed := hlaid.unclosed
    rwa [Nat.zero_add] at hunclosed

end ExprLang.Lexeme
