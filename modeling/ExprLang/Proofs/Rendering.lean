import Mathlib.Data.List.Sort
import Mathlib.Data.List.TakeWhile
import ExprLang.Diagnostic.Render
import ExprLang.Proofs.Parsing
import ExprLang.Proofs.PlacedRuns

/-!
# Rendering within bounds

`Diagnostic.render?` renders a diagnostic with every slice, every subtraction and every index
checked: it gives up where a slice would leave the text or cut a character, where a difference would
be negative, and where there is no line of an index. It never does (`Diagnostic.render?_eq_some`)
for a span whose ends are in order and each between two characters or past the end of the text
(`Text.IsPlace`).

A line is a piece of the text (`Line.IsPieceOf`), so a place of the text is one of the line
(`Text.IsPlace.inside`), and columns grow with places (`column_le`).

The diagnostics of a program whose only native function is `println` (`Diagnostic.IsAbout`) lie in
its text, and are rendered so (`Diagnostic.IsAbout.points`).
-/

namespace ExprLang

/-! ## Places of a text -/

namespace Text

theorem eq_nil_of_byteSize {cs : List Char} (h : byteSize cs = 0) : cs = [] := by
  cases cs with
  | nil => rfl
  | cons c cs =>
    have hpos := c.utf8Size_pos
    simp only [byteSize_cons] at h
    omega

/-- Of two beginnings of a text the one with fewer bytes is a beginning of the other. -/
theorem exists_append_of_byteSize_le {a b c d : List Char} (h : a ++ b = c ++ d)
    (hle : byteSize a ≤ byteSize c) : ∃ e, c = a ++ e ∧ b = e ++ d := by
  rcases List.append_eq_append_iff.1 h with ⟨e, hc, hb⟩ | ⟨e, ha, hd⟩
  · exact ⟨e, hc, hb⟩
  · have hempty : e = [] := by
      apply eq_nil_of_byteSize
      rw [ha, byteSize_append] at hle
      omega
    subst hempty
    exact ⟨[], by simpa using ha.symm, by simpa using hd.symm⟩

/-- A boundary of a text, or an offset past its end. -/
def IsPlace (text : List Char) (n : Nat) : Prop := IsBoundary text n ∨ byteSize text ≤ n

namespace IsPlace

variable {text : List Char} {m n : Nat}

theorem max (hm : IsPlace text m) (hn : IsPlace text n) : IsPlace text (max m n) := by
  rcases Nat.le_total m n with h | h
  · rwa [Nat.max_eq_right h]
  · rwa [Nat.max_eq_left h]

theorem min (hm : IsPlace text m) (hn : IsPlace text n) : IsPlace text (min m n) := by
  rcases Nat.le_total m n with h | h
  · rwa [Nat.min_eq_left h]
  · rwa [Nat.min_eq_right h]

/-- A place of a text, brought into a piece of it, is a boundary of the piece. -/
theorem inside {before piece after : List Char} (h : IsPlace (before ++ piece ++ after) n)
    (hle : byteSize before ≤ n) :
    IsBoundary piece (Min.min (n - byteSize before) (byteSize piece)) := by
  rcases Nat.le_total (byteSize piece) (n - byteSize before) with hpast | hwithin
  · rw [Nat.min_eq_right hpast]
    exact isBoundary_byteSize piece
  · rw [Nat.min_eq_left hwithin]
    rcases h with ⟨front, back, htext, rfl⟩ | hend
    · rw [List.append_assoc] at htext
      obtain ⟨cs, rfl, hcs⟩ := exists_append_of_byteSize_le htext hle
      have hsize : byteSize cs ≤ byteSize piece := by
        simp only [byteSize_append] at hwithin
        omega
      obtain ⟨ds, hpiece, -⟩ := exists_append_of_byteSize_le hcs.symm hsize
      exact ⟨cs, ds, hpiece, by simp⟩
    · have hall : n - byteSize before = byteSize piece := by
        simp only [byteSize_append] at hend
        omega
      rw [hall]
      exact isBoundary_byteSize piece

end IsPlace

end Text

/-! ## Lines -/

namespace Line

/-- A line stands in a text from its start on. -/
def IsPieceOf (text : List Char) (l : Line) : Prop :=
  ∃ before after, text = before ++ l.text ++ after ∧ Text.byteSize before = l.start

theorem split_ne_nil (start : Nat) (cs : List Char) : split start cs ≠ [] := by
  cases cs with
  | nil => simp [split]
  | cons c cs =>
    unfold split
    split
    · simp
    · split <;> simp

theorem start_of_split (start : Nat) (cs : List Char) :
    ∃ l rest, split start cs = l :: rest ∧ l.start = start := by
  cases cs with
  | nil => exact ⟨⟨start, []⟩, [], rfl, rfl⟩
  | cons c cs =>
    unfold split
    split
    · exact ⟨_, _, rfl, rfl⟩
    · split <;> exact ⟨_, _, rfl, rfl⟩

theorem isPieceOf_of_split (before cs : List Char) :
    ∀ l ∈ split (Text.byteSize before) cs, l.IsPieceOf (before ++ cs) := by
  induction cs generalizing before with
  | nil =>
    intro l hl
    rw [split, List.mem_singleton] at hl
    subst hl
    exact ⟨before, [], by simp, rfl⟩
  | cons c cs ih =>
    have hnext := ih (before ++ [c])
    simp only [Text.byteSize_append, Text.byteSize_cons, Text.byteSize_nil, Nat.add_zero,
      List.append_assoc, List.cons_append, List.nil_append] at hnext
    intro l hl
    rw [split] at hl
    split at hl
    · rename_i hc
      have hsize : c.utf8Size = 1 := by rw [hc]; rfl
      rw [hsize] at hnext
      rcases List.mem_cons.1 hl with rfl | hl
      · exact ⟨before, c :: cs, by simp, rfl⟩
      · exact hnext l hl
    · split at hl
      · rename_i first rest hsplit
        rcases List.mem_cons.1 hl with rfl | hl
        · -- The first of the lines that follow starts behind the character, which it is joined to.
          obtain ⟨l', rest', hsplit', hstart⟩ :=
            start_of_split (Text.byteSize before + c.utf8Size) cs
          rw [hsplit] at hsplit'
          cases hsplit'
          obtain ⟨front, after, htext, hfront⟩ := hnext first (by rw [hsplit]; simp)
          have hparts : (before ++ [c]) ++ cs = front ++ (first.text ++ after) := by
            simpa [List.append_assoc] using htext
          have hsize : Text.byteSize (before ++ [c]) = Text.byteSize front := by
            simp [hfront, hstart]
          obtain ⟨e, he, -⟩ := Text.exists_append_of_byteSize_le hparts (Nat.le_of_eq hsize)
          have hempty : e = [] := by
            apply Text.eq_nil_of_byteSize
            have hbytes := congrArg Text.byteSize he
            simp only [Text.byteSize_append] at hbytes hsize
            omega
          rw [hempty, List.append_nil] at he
          subst he
          exact ⟨before, after, by simpa using htext, rfl⟩
        · exact hnext l (by rw [hsplit]; exact List.mem_cons_of_mem _ hl)
      · rename_i hnil
        exact absurd hnil (split_ne_nil _ _)

/-- The lines of a text are pieces of it. -/
theorem IsPieceOf.of_getElem? {text : List Char} {index : Nat} {l : Line}
    (h : (split 0 text)[index]? = some l) : l.IsPieceOf text :=
  isPieceOf_of_split [] text l (List.mem_of_getElem? h)

theorem IsPieceOf.slice? {text : List Char} {l : Line} (h : l.IsPieceOf text) :
    (Span.mk l.start l.stop).slice? text = some l.text := by
  obtain ⟨before, after, rfl, hstart⟩ := h
  rw [stop, ← hstart]
  exact Span.slice?_append before l.text after

theorem IsPieceOf.place {text : List Char} {l : Line} (h : l.IsPieceOf text) :
    Text.IsPlace text l.start ∧ Text.IsPlace text l.stop := by
  obtain ⟨before, after, rfl, hstart⟩ := h
  refine ⟨.inl ⟨before, l.text ++ after, by simp, hstart⟩, .inl ⟨before ++ l.text, after, rfl, ?_⟩⟩
  rw [stop, ← hstart, Text.byteSize_append]

/-- A place of the text that a line does not stand behind is a boundary of the line. -/
theorem IsPieceOf.boundary {text : List Char} {l : Line} {n : Nat} (hl : l.IsPieceOf text)
    (hn : Text.IsPlace text n) (hle : l.start ≤ n) :
    Text.IsBoundary l.text (min (n - l.start) (Text.byteSize l.text)) := by
  obtain ⟨before, after, rfl, hsize⟩ := hl
  have hinside := hn.inside (hsize ▸ hle)
  rwa [hsize] at hinside

/-- All that is not shown of a line is the carriage returns at its end. -/
theorem shown_spec (l : Line) :
    (∃ n, l.text = l.shown ++ List.replicate n '\r') ∧ l.shown.getLast? ≠ some '\r' := by
  constructor
  · refine ⟨(l.text.reverse.takeWhile (· == '\r')).length, ?_⟩
    have hends : (l.text.reverse.takeWhile (· == '\r')).reverse =
        List.replicate (l.text.reverse.takeWhile (· == '\r')).length '\r' := by
      refine List.eq_replicate_iff.2 ⟨by simp, fun c hc => ?_⟩
      simpa using List.mem_takeWhile_imp (List.mem_reverse.1 hc)
    rw [← hends, shown, ← List.reverse_append, List.takeWhile_append_dropWhile,
      List.reverse_reverse]
  · intro hlast
    rw [shown, List.getLast?_reverse] at hlast
    have hhead := List.head?_dropWhile_not (· == '\r') l.text.reverse
    rw [hlast] at hhead
    simp at hhead

/-- A place of the text that a line does not stand behind is a boundary of what is shown of it. -/
theorem IsPieceOf.boundary_shown {text : List Char} {l : Line} {n : Nat} (hl : l.IsPieceOf text)
    (hn : Text.IsPlace text n) (hle : l.start ≤ n) :
    Text.IsBoundary l.shown (min (n - l.start) (Text.byteSize l.shown)) := by
  obtain ⟨before, after, rfl, hsize⟩ := hl
  obtain ⟨⟨k, hshown⟩, -⟩ := l.shown_spec
  have htext : before ++ l.text ++ after =
      before ++ l.shown ++ (List.replicate k '\r' ++ after) := by
    simp [hshown, List.append_assoc]
  rw [htext] at hn
  have hinside := hn.inside (hsize ▸ hle)
  rwa [hsize] at hinside

/-- The line of an index found for an offset starts at or before it. -/
theorem indexOf_spec (text : List Char) (offset : Nat) :
    1 ≤ ((split 0 text).takeWhile fun l => l.start ≤ offset).length ∧
      ∃ l, (split 0 text)[indexOf (split 0 text) offset]? = some l ∧ l.start ≤ offset := by
  obtain ⟨first, rest, hsplit, hstart⟩ := start_of_split 0 text
  have hpos : 1 ≤ ((split 0 text).takeWhile fun l => l.start ≤ offset).length := by
    rw [hsplit, List.takeWhile_cons, if_pos (by simp [hstart])]
    simp
  refine ⟨hpos, ?_⟩
  have hlt : indexOf (split 0 text) offset <
      ((split 0 text).takeWhile fun l => l.start ≤ offset).length := by
    unfold indexOf
    omega
  obtain ⟨l, hl⟩ : ∃ l, ((split 0 text).takeWhile fun l => l.start ≤ offset)[
      indexOf (split 0 text) offset]? = some l := ⟨_, List.getElem?_eq_getElem hlt⟩
  refine ⟨l, ?_, ?_⟩
  · have happend := List.takeWhile_append_dropWhile (p := fun l : Line => l.start ≤ offset)
      (l := split 0 text)
    rw [← happend, List.getElem?_append_left (by rw [happend]; exact hlt), happend]
    exact hl
  · have hmem := List.mem_takeWhile_imp (List.mem_of_getElem? hl)
    simpa using hmem

end Line

/-! ## Checked rendering -/

/-- The number of characters before an offset, unless it cuts one. -/
def column? (text : List Char) (offset : Nat) : Option Nat :=
  (Text.splitAtByte (min offset (Text.byteSize text)) text).map fun (before, _) => before.length

/-- A difference, unless it is negative. -/
def minus? (a b : Nat) : Option Nat := if b ≤ a then some (a - b) else none

theorem minus?_of_le {a b : Nat} (h : b ≤ a) : minus? a b = some (a - b) := if_pos h

theorem column?_eq_some {text : List Char} {offset : Nat}
    (h : Text.IsBoundary text (min offset (Text.byteSize text))) :
    column? text offset = some (column text offset) := by
  obtain ⟨before, after, htext, hsize⟩ := h
  have hsplit := Text.splitAtByte_append before after
  rw [hsize, ← htext] at hsplit
  simp only [column?, column, hsplit, Option.map_some]

theorem column_le {text : List Char} {m n : Nat} (hle : m ≤ n)
    (hm : Text.IsBoundary text (min m (Text.byteSize text)))
    (hn : Text.IsBoundary text (min n (Text.byteSize text))) : column text m ≤ column text n := by
  obtain ⟨before, after, htext, hsize⟩ := hm
  obtain ⟨before', after', htext', hsize'⟩ := hn
  have hsplit := Text.splitAtByte_append before after
  have hsplit' := Text.splitAtByte_append before' after'
  rw [hsize, ← htext] at hsplit
  rw [hsize', ← htext'] at hsplit'
  obtain ⟨e, rfl, -⟩ := Text.exists_append_of_byteSize_le (htext.symm.trans htext') (by omega)
  simp only [column, hsplit, hsplit', List.length_append]
  omega

namespace Line

/-- The index of the line that holds an offset, counted down from the lines that start before it. -/
def indexOf? (lines : List Line) (offset : Nat) : Option Nat :=
  minus? (lines.takeWhile fun l => l.start ≤ offset).length 1

end Line

namespace Diagnostic

/-- The index of the last line a span covers, unless one is taken from an offset of zero. -/
def lastIndex? (lines : List Line) (span : Span) (first : Nat) : Option Nat :=
  if span.isEmpty then some first
  else do
    let before ← minus? span.stop 1
    let last ← Line.indexOf? lines before
    return max last first

/-- The characters of a line before the carets, and the carets, unless a difference is negative or
an offset cuts a character. -/
def marks? (span : Span) (l : Line) : Option (Nat × Nat) := do
  let start := max span.start l.start
  let stop := max (min span.stop l.stop) start
  let before ← minus? start l.start
  let behind ← minus? stop l.start
  let lead ← column? l.shown before
  let last ← column? l.shown behind
  let carets ← minus? last lead
  return (lead, max carets 1)

/-- The line of an index, cut out of the text. -/
def lineAt? (text : List Char) (index : Nat) : Option Line := do
  let l ← (Line.split 0 text)[index]?
  let piece ← (Span.mk l.start l.stop).slice? text
  return ⟨l.start, piece⟩

/-- The indices of the lines a diagnostic shows. A line between the first and the last one is cut
out of the text to see whether it is blank. -/
def covered? (text : List Char) (first last : Nat) : Option (List Nat) :=
  (List.range' first (last + 1 - first)).filterM fun i =>
    if i == first || i == last then some true
    else (lineAt? text i).map fun l => !l.isBlank

/-- The rows for the line of an index. -/
def rows? (style : Style) (span : Span) (text : List Char) (width index : Nat) : Option String := do
  let l ← lineAt? text index
  let (lead, carets) ← marks? span l
  return drawn style width l index lead carets

/-- The text of a diagnostic about a document, with every step checked. -/
def render? (style : Style) (doc : Document) (d : Diagnostic) : Option String := do
  let text := doc.text.toList
  let lines := Line.split 0 text
  let first ← Line.indexOf? lines d.span.start
  let last ← lastIndex? lines d.span first
  let firstLine ← lineAt? text first
  let offset ← minus? d.span.start firstLine.start
  let col ← column? firstLine.text offset
  let width := (toString (last + 1)).length
  let covered ← covered? text first last
  let shown ← covered.mapM fun i => rows? style d.span text width i
  return header style doc.path d.message width (first + 1) col ++ String.join shown ++
    noteText style d.note

variable {text : List Char} {span : Span}

theorem lastIndex?_eq_some (hle : span.start ≤ span.stop) (first : Nat) :
    lastIndex? (Line.split 0 text) span first =
      some (lastIndex (Line.split 0 text) span first) := by
  unfold lastIndex? lastIndex
  split
  · rfl
  · rename_i hempty
    have hpos : 1 ≤ span.stop := by
      simp only [Span.isEmpty, beq_iff_eq] at hempty
      omega
    have hindex := minus?_of_le (Line.indexOf_spec text (span.stop - 1)).1
    simp only [minus?_of_le hpos, Line.indexOf?, hindex, Option.bind_eq_bind, Option.bind_some]
    rfl

theorem marks?_eq_some (hstart : Text.IsPlace text span.start) (hstop : Text.IsPlace text span.stop)
    {l : Line} (hl : l.IsPieceOf text) : marks? span l = some (marks span l) := by
  obtain ⟨hfrom, hto⟩ := hl.place
  have hplace := hstart.max hfrom
  have hplace' := (hstop.min hto).max hplace
  have hle : l.start ≤ max span.start l.start := Nat.le_max_right _ _
  have hle' : max span.start l.start ≤ max (min span.stop l.stop) (max span.start l.start) :=
    Nat.le_max_right _ _
  have hlead := hl.boundary_shown hplace hle
  have hlast := hl.boundary_shown hplace' (Nat.le_trans hle hle')
  have hcolumns := column_le (Nat.sub_le_sub_right hle' l.start) hlead hlast
  simp only [marks?, marks, minus?_of_le hle, minus?_of_le (Nat.le_trans hle hle'),
    column?_eq_some hlead, column?_eq_some hlast, minus?_of_le hcolumns, Option.bind_eq_bind,
    Option.bind_some]
  rfl

theorem lineAt?_eq_some {index : Nat} {l : Line} (h : (Line.split 0 text)[index]? = some l) :
    lineAt? text index = some l := by
  have hpiece := Line.IsPieceOf.of_getElem? h
  simp only [lineAt?, h, hpiece.slice?, Option.bind_eq_bind, Option.bind_some]
  rfl

theorem rows?_eq_some (hstart : Text.IsPlace text span.start) (hstop : Text.IsPlace text span.stop)
    (style : Style) (width : Nat) {index : Nat} {l : Line}
    (h : (Line.split 0 text)[index]? = some l) :
    rows? style span text width index = some (rows style span width l index) := by
  have hpiece := Line.IsPieceOf.of_getElem? h
  simp only [rows?, rows, lineAt?_eq_some h, marks?_eq_some hstart hstop hpiece,
    Option.bind_eq_bind, Option.bind_some]
  rfl

theorem mapM_eq_some {α β : Type} {f : α → Option β} {g : α → β} {as : List α}
    (h : ∀ a ∈ as, f a = some (g a)) : as.mapM f = some (as.map g) := by
  induction as with
  | nil => rfl
  | cons a as ih =>
    have hrest := ih fun b hb => h b (List.mem_cons_of_mem a hb)
    simp [List.mapM_cons, h a List.mem_cons_self, hrest]

theorem filterAuxM_eq_some {α : Type} {f : α → Option Bool} {p : α → Bool} {as : List α}
    (h : ∀ a ∈ as, f a = some (p a)) (acc : List α) :
    as.filterAuxM f acc = some ((as.filter p).reverse ++ acc) := by
  induction as generalizing acc with
  | nil => rfl
  | cons a as ih =>
    have hrest := ih fun b hb => h b (List.mem_cons_of_mem a hb)
    simp only [List.filterAuxM, h a List.mem_cons_self, Option.bind_eq_bind, Option.bind_some,
      hrest, List.filter_cons]
    cases p a <;> simp

theorem filterM_eq_some {α : Type} {f : α → Option Bool} {p : α → Bool} {as : List α}
    (h : ∀ a ∈ as, f a = some (p a)) : as.filterM f = some (as.filter p) := by
  simp [List.filterM, filterAuxM_eq_some h]

/-! ### The lines that are shown -/

theorem mem_coveredLines_iff {lines : List Line} {first last : Nat} {l : Line} {i : Nat} :
    (l, i) ∈ coveredLines lines first last ↔ lines[i]? = some l ∧
      (i = first ∨ i = last ∨ first < i ∧ i < last ∧ l.isBlank = false) := by
  rw [coveredLines, List.mem_filter, List.mem_zipIdx_iff_getElem?]
  simp [or_assoc, and_assoc]

theorem coveredLines_ordered (lines : List Line) (first last : Nat) :
    (coveredLines lines first last).Pairwise fun a b => a.2 < b.2 := by
  refine List.Pairwise.filter _ (List.pairwise_map.1 ?_)
  rw [List.zipIdx_map_snd]
  exact List.pairwise_lt_range'

theorem le_lastIndex (lines : List Line) (span : Span) (first : Nat) :
    first ≤ lastIndex lines span first := by
  unfold lastIndex
  split
  · exact le_rfl
  · exact Nat.le_max_right _ _

theorem lastIndex_lt (text : List Char) (span : Span) :
    lastIndex (Line.split 0 text) span (Line.indexOf (Line.split 0 text) span.start) <
      (Line.split 0 text).length := by
  have hindex : ∀ offset, Line.indexOf (Line.split 0 text) offset < (Line.split 0 text).length := by
    intro offset
    obtain ⟨-, l, hl, -⟩ := Line.indexOf_spec text offset
    exact (List.getElem?_eq_some_iff.1 hl).1
  unfold lastIndex
  split
  · exact hindex _
  · exact max_lt (hindex _) (hindex _)

/-- The checked choice of lines gives the lines that are covered. -/
theorem covered?_eq_some {first last : Nat} (hle : first ≤ last)
    (hlast : last < (Line.split 0 text).length) :
    covered? text first last =
      some ((coveredLines (Line.split 0 text) first last).map Prod.snd) := by
  have hline : ∀ i ≤ last, ∃ l, (Line.split 0 text)[i]? = some l := fun i hi =>
    ⟨_, List.getElem?_eq_getElem (hi.trans_lt hlast)⟩
  have hchoice : ∀ i ∈ List.range' first (last + 1 - first),
      (if i == first || i == last then some true
        else (lineAt? text i).map fun l => !l.isBlank) =
      some (i == first || i == last || !((Line.split 0 text).getD i ⟨0, []⟩).isBlank) := by
    intro i hi
    rw [List.mem_range'_1] at hi
    obtain ⟨l, hl⟩ := hline i (by omega)
    rw [lineAt?_eq_some hl, List.getD_eq_getElem?_getD, hl]
    cases i == first || i == last <;> rfl
  rw [covered?, filterM_eq_some hchoice]
  -- both lists go up, so that they are the same if they have the same members
  have hordered : ((coveredLines (Line.split 0 text) first last).map Prod.snd).Pairwise (· < ·) :=
    List.pairwise_map.2 (coveredLines_ordered _ first last)
  refine congrArg some
    ((List.Pairwise.filter _ List.pairwise_lt_range').eq_of_mem_iff hordered fun i => ?_)
  simp only [List.mem_filter, List.mem_range'_1, List.mem_map, Prod.exists, exists_eq_right,
    mem_coveredLines_iff, Bool.or_eq_true, beq_iff_eq, Bool.not_eq_true']
  constructor
  · rintro ⟨hi, hshown⟩
    obtain ⟨l, hl⟩ := hline i (by omega)
    rw [List.getD_eq_getElem?_getD, hl, Option.getD_some] at hshown
    refine ⟨l, hl, ?_⟩
    by_cases hedge : i = first ∨ i = last
    · exact hedge.imp_right .inl
    · exact .inr (.inr ⟨by omega, by omega, hshown.resolve_left hedge⟩)
  · rintro ⟨l, hl, hshown⟩
    rw [List.getD_eq_getElem?_getD, hl, Option.getD_some]
    refine ⟨by omega, ?_⟩
    rcases hshown with rfl | rfl | ⟨-, -, hsome⟩
    · exact .inl (.inl rfl)
    · exact .inl (.inr rfl)
    · exact .inr hsome

/-- The checked rows of the lines that are covered are their rows. -/
theorem mapM_rows?_eq_some (hstart : Text.IsPlace text span.start)
    (hstop : Text.IsPlace text span.stop) (style : Style) (first last width : Nat) :
    ((coveredLines (Line.split 0 text) first last).map Prod.snd).mapM
        (fun i => rows? style span text width i) =
      some ((coveredLines (Line.split 0 text) first last).map
        fun (l, i) => rows style span width l i) := by
  rw [List.mapM_map]
  refine mapM_eq_some fun p hp => ?_
  exact rows?_eq_some hstart hstop style width (mem_coveredLines_iff.1 hp).1

/-- **Rendering stays within bounds.** -/
theorem render?_eq_some (style : Style) (doc : Document) {d : Diagnostic}
    (hle : d.span.start ≤ d.span.stop) (hstart : Text.IsPlace doc.text.toList d.span.start)
    (hstop : Text.IsPlace doc.text.toList d.span.stop) :
    d.render? style doc = some (d.render style doc) := by
  obtain ⟨hpos, l, hl, hbefore⟩ := Line.indexOf_spec doc.text.toList d.span.start
  have hpiece := Line.IsPieceOf.of_getElem? hl
  have hcolumn := hpiece.boundary hstart hbefore
  have hcovered := covered?_eq_some (le_lastIndex _ d.span _) (lastIndex_lt doc.text.toList d.span)
  have hfirst : (Line.split 0 doc.text.toList).getD
      (Line.indexOf (Line.split 0 doc.text.toList) d.span.start) ⟨0, []⟩ = l := by
    simp [List.getD_eq_getElem?_getD, hl]
  have hindex : Line.indexOf? (Line.split 0 doc.text.toList) d.span.start =
      some (Line.indexOf (Line.split 0 doc.text.toList) d.span.start) := minus?_of_le hpos
  simp only [render?, render, hindex, lastIndex?_eq_some hle, lineAt?_eq_some hl,
    minus?_of_le hbefore, column?_eq_some hcolumn, hcovered,
    mapM_rows?_eq_some hstart hstop, hfirst, Option.bind_eq_bind, Option.bind_some]
  rfl

end Diagnostic

/-! ## The diagnostics of a program -/

/-- A session that reading and resolving a text gave, to some depth and in some world, with
`println` as the only native function. -/
def Session.IsOf (text : String) (s : Session) : Prop :=
  ∃ path style depth, ∃ w w' : World Natives, w.host.OnlyPrints ∧
    build (Eval.value Natives.host depth) ⟨path, text⟩ style [] w = some (.ok s, w')

/-- The diagnostics about a text: of its lexemes, of reading it, of resolving its constants, and of
calling a function of the resolved program in any world. -/
inductive Diagnostic.IsAbout (text : String) : Diagnostic → Prop
  | lexeme {l : Lexeme} {d : Diagnostic} (hl : l ∈ Lexeme.ofText text) (h : l.token = .error d) :
    IsAbout text d
  | tokens {d : Diagnostic} (h : Token.ofText text = .error d) : IsAbout text d
  | items {d : Diagnostic} (unit : Nat) (h : Item.ofText unit text = .error d) : IsAbout text d
  | build {d : Diagnostic} (path : String) (style : Style) (depth : Nat) {w w' : World Natives}
      (hw : w.host.OnlyPrints)
      (h : Session.build (Eval.value Natives.host depth) ⟨path, text⟩ style [] w =
        some (.error d, w')) : IsAbout text d
  | main {d : Diagnostic} {s : Session} (hs : s.IsOf text) (depth : Nat) {w w' : World Natives}
      (hw : w.host.OnlyPrints)
      (h : s.callMain (Eval.call Natives.host depth) w = some (.error d, w')) : IsAbout text d
  | function {d : Diagnostic} {s : Session} (hs : s.IsOf text) (depth : Nat)
      {w w' : World Natives} (hw : w.host.OnlyPrints) (name : String)
      (h : s.callFunction (Eval.call Natives.host depth) name w = some (.error d, w')) :
      IsAbout text d

theorem Token.exists_of_ofText_eq_error {text : String} {d : Diagnostic}
    (h : Token.ofText text = .error d) : ∃ l ∈ Lexeme.ofText text, l.token = .error d := by
  unfold Token.ofText at h
  generalize Lexeme.ofText text = ls at h
  induction ls with
  | nil => cases h
  | cons l ls ih =>
    rw [List.mapM_cons] at h
    cases htoken : l.token with
    | error d' =>
      rw [htoken] at h
      cases h
      exact ⟨l, List.mem_cons_self, htoken⟩
    | ok t =>
      rw [htoken] at h
      cases hls : ls.mapM Lexeme.token with
      | error d' =>
        rw [hls] at h
        cases h
        obtain ⟨l', hl', hd⟩ := ih hls
        exact ⟨l', List.mem_cons_of_mem l hl', hd⟩
      | ok ts =>
        rw [hls] at h
        cases h

theorem Session.build_placed (path text : String) (style : Style) (depth : Nat) :
    Run.Keeps (Span.LiesIn · text.toList) Natives.OnlyPrints
      (fun s => s.root.Placed (Span.LiesIn · text.toList))
      (Session.build (Eval.value Natives.host depth) ⟨path, text⟩ style []) := by
  obtain ⟨hitems, hproblem⟩ := Item.ofText_placed 0 text
  have hvalue : (Eval.value Natives.host depth).Keeps (Span.LiesIn · text.toList)
      Natives.OnlyPrints := (Eval.depth_keeps Span.LiesIn.merge (Natives.host_keeps _) depth).1
  exact build_keeps Span.LiesIn.origin Span.LiesIn.merge hvalue _ style [] hitems hproblem

theorem Session.IsOf.placed {text : String} {s : Session} (h : s.IsOf text) :
    s.root.Placed (Span.LiesIn · text.toList) := by
  obtain ⟨path, style, depth, w, w', hw, hbuild⟩ := h
  have hkeeps := build_placed path text style depth w hw
  rw [hbuild] at hkeeps
  cases hkeeps with
  | ok hroot _ => exact hroot

namespace Diagnostic

theorem IsAbout.liesIn {text : String} {d : Diagnostic} (h : d.IsAbout text) :
    d.span.LiesIn text.toList := by
  have hlexeme : ∀ l ∈ Lexeme.ofText text, l.token = .error d → d.span.LiesIn text.toList := by
    intro l hl hd
    have hplaced := Lexeme.ofText_placed text l hl
    unfold Lexeme.token at hd
    cases hreading : l.reading with
    | ok kind => rw [hreading] at hd; cases hd
    | error d' => rw [hreading] at hd; cases hd; exact hplaced.problem d hreading
  have hcaller : ∀ depth, Caller.Keeps (Span.LiesIn · text.toList) Natives.OnlyPrints
      (Eval.call Natives.host depth) :=
    fun depth => (Eval.depth_keeps Span.LiesIn.merge (Natives.host_keeps _) depth).2
  cases h with
  | lexeme hl h => exact hlexeme _ hl h
  | tokens h =>
    obtain ⟨l, hl, htoken⟩ := Token.exists_of_ofText_eq_error h
    exact hlexeme l hl htoken
  | items unit h => exact (Item.ofText_placed unit text).2 d h
  | build path style depth hw h =>
    have hkeeps := Session.build_placed path text style depth _ hw
    rw [h] at hkeeps
    cases hkeeps with
    | error hspan _ => exact hspan
  | main hs depth hw h =>
    have hkeeps := Session.callMain_keeps Span.LiesIn.origin (hcaller depth) hs.placed _ hw
    rw [h] at hkeeps
    cases hkeeps with
    | error hspan _ => exact hspan
  | function hs depth hw name h =>
    have hkeeps := Session.callFunction_keeps Span.LiesIn.origin (hcaller depth) hs.placed name _ hw
    rw [h] at hkeeps
    cases hkeeps with
    | error hspan _ => exact hspan

/-- **Every diagnostic points into the source.** Its span is a range of the bytes of the text whose
ends lie between characters, and rendering it against the text passes every check. -/
theorem IsAbout.points {text : String} {d : Diagnostic} (h : d.IsAbout text) :
    (d.span.start ≤ d.span.stop ∧ d.span.stop ≤ text.utf8ByteSize ∧
      Text.IsBoundary text.toList d.span.start ∧ Text.IsBoundary text.toList d.span.stop) ∧
    ∀ path style, d.render? style ⟨path, text⟩ = some (d.render style ⟨path, text⟩) := by
  have hspan := h.liesIn
  refine ⟨⟨hspan.start_le, ?_, hspan.start_boundary, hspan.stop_boundary⟩, fun path style => ?_⟩
  · rw [← Text.byteSize_toList]
    exact hspan.stop_le
  · exact render?_eq_some style ⟨path, text⟩ hspan.start_le (.inl hspan.start_boundary)
      (.inl hspan.stop_boundary)

/-- A text with a character of two bytes is called. -/
theorem IsAbout.points_calledText :
    ∃ d : Diagnostic, d.IsAbout "const a = \"é\"()" ∧ d.span = ⟨10, 16⟩ ∧
      Text.IsBoundary "const a = \"é\"()".toList d.span.stop ∧
      (d.render? .plain ⟨"main", "const a = \"é\"()"⟩).isSome := by
  have hts : Token.ofText "const a = \"é\"()" =
      .ok [⟨.const, ⟨0, 5⟩, "const"⟩, ⟨.identifier, ⟨6, 7⟩, "a"⟩, ⟨.symbol .equals, ⟨8, 9⟩, "="⟩,
        ⟨.string "é", ⟨10, 14⟩, "\"é\""⟩, ⟨.symbol .leftParen, ⟨14, 15⟩, "("⟩,
        ⟨.symbol .rightParen, ⟨15, 16⟩, ")"⟩] := eq_ok_of_toOption (by decide +kernel)
  have hitems : Item.ofText 0 "const a = \"é\"()" = .ok [⟨⟨"a", ⟨6, 7⟩⟩,
      .call (.literal (.string "é") ⟨10, 14⟩) [] ⟨14, 15⟩ ⟨15, 16⟩⟩] :=
    (Item.ofText_eq_program hts).trans rfl
  obtain ⟨w₁, hread⟩ :=
    Parse.exists_read 0 "const a = \"é\"()" (⟨Sink.empty none, [], Natives.initial⟩ : World Natives)
  rw [hitems] at hread
  obtain ⟨w, hbuild⟩ : ∃ w, Session.build (Eval.value Natives.host 2)
      ⟨"main", "const a = \"é\"()"⟩ .plain [] ⟨Sink.empty none, [], Natives.initial⟩ =
        some (.error ⟨.notAFunction .string, ⟨10, 16⟩⟩, w) := by
    rw [Session.build, Run.bind_of_ok hread]
    exact ⟨_, rfl⟩
  have hprints : Natives.initial.OnlyPrints := rfl
  have habout := IsAbout.build "main" .plain 2 hprints hbuild
  obtain ⟨⟨-, -, -, hstop⟩, hrender⟩ := habout.points
  exact ⟨_, habout, rfl, hstop, by rw [hrender]; rfl⟩

end Diagnostic

end ExprLang
