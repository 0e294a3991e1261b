import ExprLang.Proofs.Lines

/-!
# What a rendered diagnostic marks

The rows of a rendered diagnostic (`Diagnostic.Row`) are described by the source and the span alone
(`Diagnostic.Picture`): which lines of the source they show, and under which characters of a line a
caret stands. A caret stands under the characters inside the span (`Line.Inside`), and a line
without such a character has one behind those that precede the span (`Line.Precedes`).

Columns count characters and spans count bytes. The two meet in `lt_column_iff` and `column_le_iff`:
a character is before the column of an offset exactly if its bytes are before the offset. From this
come the carets of a line (`Line.inside_iff`, `Line.precedes_iff`), and with the lines that are
covered the whole text of a diagnostic (`Diagnostic.render_exact`).
-/

namespace ExprLang

/-! ## Columns and bytes -/

namespace Text

theorem length_alignRight (width : Nat) (s : String) :
    (alignRight width s).length = max width s.length := by
  rw [alignRight, repeated, String.length_append, String.length_ofList,
    List.length_replicate]
  omega

theorem byteSize_take_lt_take {cs : List Char} {j k : Nat} (hjk : j < k) (hj : j < cs.length) :
    byteSize (cs.take j) < byteSize (cs.take k) := by
  have hlt : j < (cs.take k).length := by
    rw [List.length_take]
    omega
  have htake := byteSize_take_lt hlt
  rwa [List.take_take, Nat.min_eq_left hjk.le] at htake

theorem byteSize_take_le_take (cs : List Char) {j k : Nat} (hjk : j ≤ k) :
    byteSize (cs.take j) ≤ byteSize (cs.take k) := by
  rcases hjk.lt_or_eq with hlt | rfl
  · by_cases hj : j < cs.length
    · exact (byteSize_take_lt_take hlt hj).le
    · rw [List.take_of_length_le (by omega), List.take_of_length_le (by omega)]
  · exact le_rfl

end Text

section Column

variable {text : List Char} {offset k : Nat}

/-- The characters before a column take the bytes before its offset. -/
theorem column_spec (h : Text.IsBoundary text (min offset (Text.byteSize text))) :
    column text offset ≤ text.length ∧
      Text.byteSize (text.take (column text offset)) = min offset (Text.byteSize text) := by
  obtain ⟨before, after, htext, hsize⟩ := h
  have hsplit := Text.splitAtByte_append before after
  rw [hsize, ← htext] at hsplit
  have hcolumn : column text offset = before.length := by simp only [column, hsplit]
  rw [hcolumn, ← hsize, htext]
  simp

theorem lt_column_iff (h : Text.IsBoundary text (min offset (Text.byteSize text)))
    (hk : k < text.length) :
    k < column text offset ↔ Text.byteSize (text.take (k + 1)) ≤ offset := by
  obtain ⟨-, hbytes⟩ := column_spec h
  constructor
  · intro hlt
    have hnext : k + 1 ≤ column text offset := hlt
    have hle := Text.byteSize_take_le_take text hnext
    omega
  · intro hle
    by_contra hge
    have hbefore := Text.byteSize_take_le_take text (Nat.le_of_not_lt hge)
    have hnext := Text.byteSize_take_lt_take (Nat.lt_add_one k) hk
    have hall := Text.byteSize_take_lt hk
    omega

theorem column_le_iff (h : Text.IsBoundary text (min offset (Text.byteSize text)))
    (hk : k < text.length) :
    column text offset ≤ k ↔ offset ≤ Text.byteSize (text.take k) := by
  obtain ⟨hlength, hbytes⟩ := column_spec h
  constructor
  · intro hle
    have hbefore := Text.byteSize_take_le_take text hle
    have hall := Text.byteSize_take_lt hk
    omega
  · intro hle
    by_contra hlt
    have hnext := Text.byteSize_take_lt_take (Nat.lt_of_not_le hlt) hk
    omega

end Column

/-! ## Carets under a line -/

namespace Line

/-- The byte at which a shown character of a line starts, and where the one before it ends. -/
def byteOf (l : Line) (k : Nat) : Nat := l.start + Text.byteSize (l.shown.take k)

/-- A shown character of a line lies inside a span. -/
def Inside (l : Line) (span : Span) (k : Nat) : Prop :=
  k < l.shown.length ∧ span.start ≤ l.byteOf k ∧ l.byteOf (k + 1) ≤ span.stop

/-- A shown character of a line precedes a span. -/
def Precedes (l : Line) (span : Span) (k : Nat) : Prop :=
  k < l.shown.length ∧ l.byteOf (k + 1) ≤ span.start

theorem IsAt.isPieceOf {text : List Char} {i : Nat} {l : Line} (h : l.IsAt text i) :
    l.IsPieceOf text := by
  obtain ⟨before, after, htext, hstart, -⟩ := h.piece
  exact ⟨before, after, htext, hstart⟩

theorem byteOf_le_stop (l : Line) (k : Nat) : l.byteOf k ≤ l.stop := by
  obtain ⟨⟨n, hends⟩, -⟩ := l.shown_spec
  have htake := Text.byteSize_take_le_take l.shown (Nat.le_max_left k l.shown.length)
  rw [List.take_of_length_le (Nat.le_max_right k l.shown.length)] at htake
  rw [byteOf, stop, hends, Text.byteSize_append]
  omega

variable {text : List Char} {span : Span} {l : Line} {k : Nat}

/-- The offset in a line at which a span starts, or that of the line if it starts before. -/
def entry (l : Line) (span : Span) : Nat := max span.start l.start - l.start

/-- The offset in a line at which a span stops, between its entry and the end of the line. -/
def exit (l : Line) (span : Span) : Nat :=
  max (min span.stop l.stop) (max span.start l.start) - l.start

theorem marks_eq (l : Line) (span : Span) :
    Diagnostic.marks span l = (column l.shown (l.entry span),
      max (column l.shown (l.exit span) - column l.shown (l.entry span)) 1) := rfl

theorem boundary_entry (hl : l.IsPieceOf text) (hstart : Text.IsPlace text span.start) :
    Text.IsBoundary l.shown (min (l.entry span) (Text.byteSize l.shown)) :=
  hl.boundary_shown (hstart.max hl.place.1) (Nat.le_max_right _ _)

theorem boundary_exit (hl : l.IsPieceOf text) (hstart : Text.IsPlace text span.start)
    (hstop : Text.IsPlace text span.stop) :
    Text.IsBoundary l.shown (min (l.exit span) (Text.byteSize l.shown)) :=
  hl.boundary_shown ((hstop.min hl.place.2).max (hstart.max hl.place.1))
    ((Nat.le_max_right _ _).trans (Nat.le_max_right _ _))

/-- The characters that precede a span are those before the carets. -/
theorem precedes_iff (hl : l.IsPieceOf text) (hstart : Text.IsPlace text span.start) :
    l.Precedes span k ↔ k < column l.shown (l.entry span) := by
  have hboundary := boundary_entry hl hstart
  have hlength := (column_spec hboundary).1
  constructor
  · rintro ⟨hk, hbytes⟩
    rw [lt_column_iff hboundary hk]
    unfold entry
    unfold byteOf at hbytes
    omega
  · intro hlt
    have hk : k < l.shown.length := by omega
    refine ⟨hk, ?_⟩
    rw [lt_column_iff hboundary hk] at hlt
    have hnext := Text.byteSize_take_lt_take (Nat.lt_add_one k) hk
    unfold entry at hlt
    unfold byteOf
    omega

/-- The characters inside a span are those from its entry to its exit. -/
theorem inside_iff (hl : l.IsPieceOf text) (hstart : Text.IsPlace text span.start)
    (hstop : Text.IsPlace text span.stop) :
    l.Inside span k ↔
      column l.shown (l.entry span) ≤ k ∧ k < column l.shown (l.exit span) := by
  have hentry := boundary_entry hl hstart
  have hexit := boundary_exit hl hstart hstop
  have hlength := (column_spec hexit).1
  have hend := l.byteOf_le_stop (k + 1)
  constructor
  · rintro ⟨hk, hfrom, hto⟩
    rw [column_le_iff hentry hk, lt_column_iff hexit hk]
    unfold entry exit
    unfold byteOf at hfrom hto hend
    omega
  · rintro ⟨hfrom, hto⟩
    have hk : k < l.shown.length := by omega
    rw [column_le_iff hentry hk] at hfrom
    rw [lt_column_iff hexit hk] at hto
    have hnext := Text.byteSize_take_lt_take (Nat.lt_add_one k) hk
    refine ⟨hk, ?_, ?_⟩
    · unfold entry at hfrom
      unfold byteOf
      omega
    -- if the span ended before the line or started behind it, it would hold no character of it
    · unfold entry at hfrom
      unfold exit at hto
      unfold byteOf at hend ⊢
      omega

end Line

/-! ## Rows -/

namespace Diagnostic

/-- A line of the source in a rendered diagnostic, with its index and what is drawn below it. -/
structure Row where
  index : Nat
  line : Line
  marks : List Char

namespace Row

/-- The number of a line, counted from one and filled up on the left. -/
def number (width : Nat) (r : Row) : String := Text.alignRight width (toString (r.index + 1))

/-- The text of a row: the number and the line, and below it what is drawn, highlighted from the
first caret on. -/
def text (style : Style) (width : Nat) (r : Row) : String :=
  "\n" ++ r.number width ++ " | " ++ String.ofList r.line.shown ++
    "\n" ++ Text.repeated width ' ' ++ " | " ++ String.ofList (r.marks.takeWhile (· == ' ')) ++
    style.alert (String.ofList (r.marks.dropWhile (· == ' ')))

/-- The carets of a row. They stand under the characters inside the span, or else there is one
behind the characters that precede it. Before them are spaces, and behind them is nothing. -/
structure Marked (span : Span) (r : Row) : Prop where
  inside : (∃ k, r.line.Inside span k) → ∀ k, r.marks[k]? = some '^' ↔ r.line.Inside span k
  outside : (¬∃ k, r.line.Inside span k) →
    ∀ k, r.marks[k]? = some '^' ↔ ∀ j, r.line.Precedes span j ↔ j < k
  blank : ∀ c ∈ r.marks, c = '^' ∨ c = ' '
  last : r.marks.getLast? = some '^'

end Row

/-- The rows that show a span of a text, from its first line to its last one. -/
structure Picture (text : List Char) (span : Span) (first last : Nat) (rows : List Row) : Prop where
  /-- The first line holds the start of the span. -/
  first_holds : ∃ l : Line, l.IsAt text first ∧ l.Holds text span.start
  /-- The last line holds the last byte of the span, and that of an empty span is the first. -/
  last_holds : if span.isEmpty then last = first
    else ∃ l : Line, l.IsAt text last ∧ l.Holds text (span.stop - 1)
  first_le_last : first ≤ last
  /-- The rows are in order. -/
  ordered : rows.Pairwise fun r s => r.index < s.index
  /-- A row shows the line of its index. -/
  line : ∀ r ∈ rows, r.line.IsAt text r.index
  /-- All lines from the first to the last one are shown, but for the blank ones between them. -/
  covered : ∀ i, (∃ r ∈ rows, r.index = i) ↔ first ≤ i ∧ i ≤ last ∧
    ¬(first < i ∧ i < last ∧ ∃ l : Line, l.IsAt text i ∧ l.isBlank = true)
  /-- A line is shown without the carriage returns at its end. -/
  shown : ∀ r ∈ rows, (∃ n, r.line.text = r.line.shown ++ List.replicate n '\r') ∧
    r.line.shown.getLast? ≠ some '\r'
  /-- The carets of a row are those of its line. -/
  marked : ∀ r ∈ rows, r.Marked span

/-- A run of carets behind spaces. -/
def caretRow (lead carets : Nat) : List Char :=
  List.replicate lead ' ' ++ List.replicate carets '^'

theorem getElem?_caretRow_iff {lead carets k : Nat} :
    (caretRow lead carets)[k]? = some '^' ↔ lead ≤ k ∧ k < lead + carets := by
  unfold caretRow
  rw [List.getElem?_append, List.length_replicate]
  split
  · rename_i hlt
    rw [List.getElem?_replicate_of_lt hlt]
    exact ⟨fun h => absurd h (by decide), fun h => absurd h.1 (by omega)⟩
  · rw [List.getElem?_replicate]
    split
    · exact ⟨fun _ => by omega, fun _ => rfl⟩
    · exact ⟨fun h => (nomatch h), fun h => absurd h.2 (by omega)⟩

theorem takeWhile_caretRow (lead carets : Nat) :
    (caretRow lead carets).takeWhile (· == ' ') = List.replicate lead ' ' := by
  rw [caretRow, List.takeWhile_append_of_pos (by simp), List.takeWhile_replicate]
  simp

theorem dropWhile_caretRow (lead carets : Nat) :
    (caretRow lead carets).dropWhile (· == ' ') = List.replicate carets '^' := by
  rw [caretRow, List.dropWhile_append_of_pos (by simp), List.dropWhile_replicate]
  simp

/-- The row that is drawn for a line. -/
def rowOf (span : Span) (l : Line) (i : Nat) : Row :=
  ⟨i, l, caretRow (marks span l).1 (marks span l).2⟩

variable {text : List Char} {span : Span}

theorem rowOf_marked {l : Line} (hl : l.IsPieceOf text) (hstart : Text.IsPlace text span.start)
    (hstop : Text.IsPlace text span.stop) (i : Nat) : (rowOf span l i).Marked span := by
  have hcarets : ∀ k, (rowOf span l i).marks[k]? = some '^' ↔
      column l.shown (l.entry span) ≤ k ∧ k < column l.shown (l.entry span) +
        max (column l.shown (l.exit span) - column l.shown (l.entry span)) 1 :=
    fun k => getElem?_caretRow_iff
  have hinside : ∀ k, (rowOf span l i).line.Inside span k ↔
      column l.shown (l.entry span) ≤ k ∧ k < column l.shown (l.exit span) :=
    fun k => Line.inside_iff hl hstart hstop
  have hprecedes : ∀ k, (rowOf span l i).line.Precedes span k ↔
      k < column l.shown (l.entry span) := fun k => Line.precedes_iff hl hstart
  refine ⟨fun ⟨j, hj⟩ k => ?_, fun hnone k => ?_, fun c hc => ?_, ?_⟩
  -- some character is inside, so the run of carets is as long as the piece inside
  · rw [hinside] at hj
    rw [hcarets, hinside]
    omega
  · have hempty : column l.shown (l.exit span) ≤ column l.shown (l.entry span) := by
      by_contra hlt
      exact hnone ⟨_, (hinside _).2 ⟨le_rfl, Nat.lt_of_not_le hlt⟩⟩
    rw [hcarets]
    constructor
    · intro hk j
      rw [hprecedes]
      omega
    · intro hlead
      have hle := hlead k
      have hge := hlead (column l.shown (l.entry span))
      rw [hprecedes] at hle hge
      omega
  · rcases List.mem_append.1 hc with hc | hc
    · exact .inr (List.eq_of_mem_replicate hc)
    · exact .inl (List.eq_of_mem_replicate hc)
  · have hpos : (marks span l).2 ≠ 0 := by
      rw [Line.marks_eq]
      omega
    rw [rowOf, caretRow, List.getLast?_append_of_ne_nil _ (by simpa using hpos),
      List.getLast?_replicate, if_neg hpos]

theorem rows_eq (style : Style) (span : Span) (width : Nat) (l : Line) (i : Nat) :
    rows style span width l i = (rowOf span l i).text style width := by
  simp only [rows, drawn, Row.text, Row.number, rowOf, takeWhile_caretRow, dropWhile_caretRow,
    Text.repeated]

/-! ## The lines that are shown -/

theorem lastIndex_of_empty (lines : List Line) (first : Nat) (h : span.isEmpty = true) :
    lastIndex lines span first = first := if_pos h

theorem lastIndex_of_nonempty (lines : List Line) (hle : span.start ≤ span.stop)
    (h : ¬span.isEmpty = true) :
    lastIndex lines span (Line.indexOf lines span.start) = Line.indexOf lines (span.stop - 1) := by
  have hlt : span.start ≤ span.stop - 1 := by
    simp only [Span.isEmpty, beq_iff_eq] at h
    omega
  rw [lastIndex, if_neg h, Nat.max_eq_left (Line.indexOf_mono lines hlt)]

/-! ## The picture of a span -/

/-- The rows that are drawn for a span. -/
def rowsOf (text : List Char) (span : Span) (first last : Nat) : List Row :=
  (coveredLines (Line.split 0 text) first last).map fun (l, i) => rowOf span l i

theorem mem_rowsOf_iff {first last : Nat} {r : Row} : r ∈ rowsOf text span first last ↔
    ∃ l i, r = rowOf span l i ∧ l.IsAt text i ∧
      (i = first ∨ i = last ∨ first < i ∧ i < last ∧ l.isBlank = false) := by
  simp only [rowsOf, List.mem_map, Prod.exists, mem_coveredLines_iff, Line.getElem?_split_iff]
  constructor
  · rintro ⟨l, i, hcovered, rfl⟩
    exact ⟨l, i, rfl, hcovered⟩
  · rintro ⟨l, i, rfl, hcovered⟩
    exact ⟨l, i, hcovered, rfl⟩

theorem rowsOf_ordered (text : List Char) (span : Span) (first last : Nat) :
    (rowsOf text span first last).Pairwise fun r s => r.index < s.index :=
  List.pairwise_map.2 (coveredLines_ordered (Line.split 0 text) first last)

theorem exists_index_rowsOf_iff {first last : Nat} (hle : first ≤ last) {edge : Line}
    (hlast : edge.IsAt text last) (i : Nat) :
    (∃ r ∈ rowsOf text span first last, r.index = i) ↔ first ≤ i ∧ i ≤ last ∧
      ¬(first < i ∧ i < last ∧ ∃ l : Line, l.IsAt text i ∧ l.isBlank = true) := by
  constructor
  · rintro ⟨r, hr, rfl⟩
    obtain ⟨l, i, rfl, hl, hshown⟩ := mem_rowsOf_iff.1 hr
    simp only [rowOf]
    refine ⟨by omega, by omega, fun ⟨hfirst, hbefore, l', hl', hblank⟩ => ?_⟩
    rw [hl'.unique hl] at hblank
    rcases hshown with rfl | rfl | ⟨-, -, hsome⟩
    · exact absurd hfirst (lt_irrefl _)
    · exact absurd hbefore (lt_irrefl _)
    · exact absurd hblank (by simp [hsome])
  · rintro ⟨hfirst, hwithin, hsome⟩
    obtain ⟨l, hl⟩ := hlast.exists_of_le hwithin
    refine ⟨rowOf span l i, mem_rowsOf_iff.2 ⟨l, i, rfl, hl, ?_⟩, rfl⟩
    by_cases hblank : l.isBlank = true
    · have hedge : ¬(first < i ∧ i < last) := fun hbetween =>
        hsome ⟨hbetween.1, hbetween.2, l, hl, hblank⟩
      omega
    · rw [Bool.not_eq_true] at hblank
      simp only [hblank, and_true]
      omega

theorem lastIndex_holds (text : List Char) (hle : span.start ≤ span.stop) :
    if span.isEmpty then
      lastIndex (Line.split 0 text) span (Line.indexOf (Line.split 0 text) span.start) =
        Line.indexOf (Line.split 0 text) span.start
    else ∃ l : Line, l.IsAt text (lastIndex (Line.split 0 text) span
      (Line.indexOf (Line.split 0 text) span.start)) ∧ l.Holds text (span.stop - 1) := by
  split
  · rename_i hempty
    exact lastIndex_of_empty _ _ hempty
  · rename_i hempty
    rw [lastIndex_of_nonempty _ hle hempty]
    exact Line.exists_holds text (span.stop - 1)

/-- The rows that are drawn for a span show it. -/
theorem rowsOf_picture (hle : span.start ≤ span.stop) (hstart : Text.IsPlace text span.start)
    (hstop : Text.IsPlace text span.stop) {first last : Nat}
    (hfirst : first = Line.indexOf (Line.split 0 text) span.start)
    (hlast : last = lastIndex (Line.split 0 text) span first) :
    Picture text span first last (rowsOf text span first last) := by
  obtain ⟨l₁, hl₁, hholds₁⟩ := Line.exists_holds text span.start
  have hends := lastIndex_holds text hle
  rw [← hfirst] at hl₁ hends
  rw [← hlast] at hends
  obtain ⟨l₂, hl₂⟩ : ∃ l : Line, l.IsAt text last := by
    split at hends
    · exact ⟨l₁, hends ▸ hl₁⟩
    · exact hends.imp fun _ h => h.1
  have hordered : first ≤ last := hlast ▸ le_lastIndex _ span first
  refine ⟨⟨l₁, hl₁, hholds₁⟩, hends, hordered, rowsOf_ordered text span first last, fun r hr => ?_,
    exists_index_rowsOf_iff hordered hl₂, fun r _ => r.line.shown_spec, fun r hr => ?_⟩
  all_goals obtain ⟨l, i, rfl, hl, -⟩ := mem_rowsOf_iff.1 hr
  · exact hl
  · exact rowOf_marked hl.isPieceOf hstart hstop i

/-! ## The whole text -/

/-- A number has no more digits than a larger one. -/
theorem length_toString_mono {m n : Nat} (h : m ≤ n) :
    (toString m).length ≤ (toString n).length := by
  have hn := (Nat.length_repr_le_iff (Nat.length_repr_pos (n := n))).1 le_rfl
  exact (Nat.length_repr_le_iff Nat.length_repr_pos).2 (h.trans_lt hn)

theorem Row.length_number {r : Row} {last : Nat} (h : r.index ≤ last) :
    (r.number (toString (last + 1)).length).length = (toString (last + 1)).length := by
  rw [number, Text.length_alignRight, Nat.max_eq_left (length_toString_mono (by omega))]

/-- The column that the header names: the characters before the span on its line. -/
def headerColumn (text : List Char) (span : Span) : Nat :=
  let lines := Line.split 0 text
  let l := lines.getD (Line.indexOf lines span.start) ⟨0, []⟩
  column l.text (span.start - l.start)

theorem render_eq_headerColumn (style : Style) (doc : Document) (d : Diagnostic) {first last : Nat}
    (hfirst : first = Line.indexOf (Line.split 0 doc.text.toList) d.span.start)
    (hlast : last = lastIndex (Line.split 0 doc.text.toList) d.span first) :
    d.render style doc =
      header style doc.path d.message (toString (last + 1)).length (first + 1)
          (headerColumn doc.text.toList d.span) ++
        String.join ((rowsOf doc.text.toList d.span first last).map
          (Row.text style (toString (last + 1)).length)) ++ noteText style d.note := by
  subst hfirst hlast
  simp only [render, rows_eq, rowsOf, List.map_map]
  rfl

theorem render_eq (style : Style) (doc : Document) (d : Diagnostic) {first last : Nat}
    (hfirst : first = Line.indexOf (Line.split 0 doc.text.toList) d.span.start)
    (hlast : last = lastIndex (Line.split 0 doc.text.toList) d.span first) :
    ∃ col, d.render style doc =
      header style doc.path d.message (toString (last + 1)).length (first + 1) col ++
        String.join ((rowsOf doc.text.toList d.span first last).map
          (Row.text style (toString (last + 1)).length)) ++ noteText style d.note :=
  ⟨_, render_eq_headerColumn style doc d hfirst hlast⟩

/-- **A rendered diagnostic marks its span.** Rendering a span whose ends are in order, and between
characters of the source or past its end, passes every check. The text is a header, the rows that
show the span with all numbers of one width, and the note. -/
theorem render_exact (style : Style) (doc : Document) {d : Diagnostic}
    (hle : d.span.start ≤ d.span.stop) (hstart : Text.IsPlace doc.text.toList d.span.start)
    (hstop : Text.IsPlace doc.text.toList d.span.stop) :
    d.render? style doc = some (d.render style doc) ∧
      ∃ first last width col rows, Picture doc.text.toList d.span first last rows ∧
        (∀ r ∈ rows, (r.number width).length = width) ∧
        d.render style doc = header style doc.path d.message width (first + 1) col ++
          String.join (rows.map (Row.text style width)) ++ noteText style d.note := by
  refine ⟨render?_eq_some style doc hle hstart hstop, ?_⟩
  obtain ⟨col, htext⟩ := render_eq style doc d rfl rfl
  have hpicture := rowsOf_picture hle hstart hstop rfl rfl
  refine ⟨_, _, _, col, _, hpicture, fun r hr => ?_, htext⟩
  exact Row.length_number ((hpicture.covered r.index).1 ⟨r, hr, rfl⟩).2.1

/-- A span from a character of two bytes over a blank line to the end of the text. -/
theorem render_exact_overBlank :
    ∃ d : Diagnostic, d.span = ⟨1, 9⟩ ∧ d.note = some "here" ∧
      (∃ first last rows, Picture "aé\r\n\n  b".toList d.span first last rows) ∧
      d.render? .plain ⟨"main", "aé\r\n\n  b"⟩ = some
        ("Error: unexpected end of file\n --> main:1:1\n  |" ++
          "\n1 | aé\n  |  ^\n3 |   b\n  | ^^^ here") := by
  have hstart : Text.IsPlace "aé\r\n\n  b".toList 1 := .inl ⟨"a".toList, _, rfl, rfl⟩
  have hstop : Text.IsPlace "aé\r\n\n  b".toList 9 := .inr (by decide)
  obtain ⟨htotal, first, last, -, -, rows, hpicture, -⟩ :=
    render_exact .plain ⟨"main", "aé\r\n\n  b"⟩
      (d := ⟨.reported .eof none (some "here"), ⟨1, 9⟩⟩) (by decide) hstart hstop
  refine ⟨_, rfl, rfl, ⟨first, last, rows, hpicture⟩, htotal.trans (congrArg some ?_)⟩
  decide +kernel

end Diagnostic

end ExprLang
