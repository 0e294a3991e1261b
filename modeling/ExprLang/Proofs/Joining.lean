import ExprLang.Proofs.Placement
import ExprLang.Proofs.Tiling

/-!
# Texts one behind the other

Where a text stands in a longer one decides the spans of its lexemes and nothing else
(`Lexeme.scan_add`). So a text with another behind it, a blank between the two, has the lexemes of
both, those of the second shifted (`Lexeme.scan_joined`). With a space as the blank this holds
exactly if no string of the first text is open at its end (`Lexeme.ofText_append_space`).
-/

namespace ExprLang

/-! ## Shifted spans -/

/-- The same span in a text that starts `k` bytes earlier. -/
def Span.shift (k : Nat) (s : Span) : Span := ⟨s.start + k, s.stop + k⟩

theorem Span.shift_merge (k : Nat) (a b : Span) :
    (a.merge b).shift k = (a.shift k).merge (b.shift k) := by
  simp [shift, merge, Nat.add_min_add_right, Nat.add_max_add_right]

def Diagnostic.shift (k : Nat) (d : Diagnostic) : Diagnostic := ⟨d.problem, d.span.shift k⟩

namespace Lexeme

def shift (k : Nat) (l : Lexeme) : Lexeme :=
  ⟨l.span.shift k, l.text, l.reading.mapError (Diagnostic.shift k)⟩

theorem ofCut_add (start k : Nat) (step : Cut) :
    ofCut (start + k) step = (ofCut start step).shift k := by
  have hstop : start + k + Text.byteSize step.taken = start + Text.byteSize step.taken + k := by
    omega
  cases hreading : step.reading with
  | ok kind => simp [ofCut, shift, Span.shift, hreading, hstop, Except.mapError]
  | error p =>
    cases p <;>
      simp [ofCut, shift, Span.shift, Span.point, Diagnostic.shift, hreading, hstop,
        Except.mapError]

/-- **The lexer does not look at where it is.** -/
theorem scan_add (start k : Nat) (cs : List Char) :
    scan (start + k) cs = (scan start cs).map (shift k) := by
  induction start, cs using scan.induct with
  | case1 start => simp [scan]
  | case2 start c cs hc ih =>
    rw [scan_of_blank hc, scan_of_blank hc, ← ih]
    congr 1
    omega
  | case3 start c cs hc ih =>
    have hc' : Text.isBlank c = false := by simpa using hc
    rw [scan_of_not_blank hc', scan_of_not_blank hc', List.map_cons, ← ih, ofCut_add]
    congr 2
    omega

/-! ## Joined texts -/

/-- Two texts with a blank between them, the first of which leaves no string open. -/
theorem scan_joined {b : Char} (hb : Separates b) (cs ds : List Char) (hclosed : Closed 0 cs) :
    scan 0 (cs ++ b :: ds) =
      scan 0 cs ++ (scan 0 ds).map (shift (Text.byteSize cs + b.utf8Size)) := by
  rw [scan_append hb 0 cs ds hclosed, ← scan_add]
  congr 2
  omega

/-- An open string ends with its text, so it is no lexeme of a longer one. -/
theorem closed_of_longer {cs ds : List Char} (hlonger : Text.byteSize cs < Text.byteSize ds)
    (h : ∀ l ∈ scan 0 cs, l ∈ scan 0 ds) : Closed 0 cs := by
  intro l hl d hd hopen
  obtain ⟨-, hstop, -⟩ := (scan_laid 0 cs).unclosed l hl d hd hopen
  obtain ⟨-, hstop', -⟩ := (scan_laid 0 ds).unclosed l (h l hl) d hd hopen
  omega

/-- **Lexing goes over a space piece by piece**, exactly if no string is open in front of it: the
lexemes are those of the first text and those of the second, shifted behind the space. -/
theorem ofText_append_space (text text' : String) :
    ofText (text ++ " " ++ text') =
        ofText text ++ (ofText text').map (shift (text.utf8ByteSize + 1)) ↔
      ∀ l ∈ ofText text, ∀ d, l.reading = .error d → d.problem ≠ .unclosedString := by
  have hjoined : (text ++ " " ++ text').toList = text.toList ++ ' ' :: text'.toList := by
    simp
  constructor
  · intro h
    have hmem : ∀ l ∈ scan 0 text.toList, l ∈ scan 0 (text ++ " " ++ text').toList := by
      intro l hl
      change l ∈ ofText (text ++ " " ++ text')
      rw [h]
      exact List.mem_append_left _ hl
    refine closed_of_longer ?_ hmem
    have hspace := ' '.utf8Size_pos
    rw [hjoined, Text.byteSize_append, Text.byteSize_cons]
    omega
  · intro hclosed
    rw [ofText, hjoined, scan_joined separates_space _ _ hclosed, Text.byteSize_toList]
    rfl

end Lexeme

end ExprLang
