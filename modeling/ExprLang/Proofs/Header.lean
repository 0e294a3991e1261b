import ExprLang.Proofs.Marking

/-!
# The place named in the header

The header of a rendered diagnostic names a line and a column, and the first row below it has the
first caret. Both tell where the span starts, but the header counts the characters of the whole
line, and the row leaves out the carriage returns at its end. What the two have to do with each
other is `Diagnostic.Row.Headed`: the line is that of the row, and the caret is in the column,
unless the span starts behind carriage returns that the row leaves out. Then the caret is behind
the last character that is shown.

The columns of a line and of its shown part are those of a text and of a front of it
(`column_append_left`). The first row is found by the order of the rows alone
(`Diagnostic.Picture.exists_cons`). Every rendering has such a header (`Diagnostic.render_headed`).
-/

namespace ExprLang

/-! ## Columns of a front -/

/-- Up to the end of a front of a text, its columns are those of the text. -/
theorem column_append_left {front back : List Char} {offset : Nat}
    (htext : Text.IsBoundary (front ++ back) (min offset (Text.byteSize (front ++ back))))
    (hfront : Text.IsBoundary front (min offset (Text.byteSize front))) :
    column front offset = min (column (front ++ back) offset) front.length := by
  have hlength := (column_spec hfront).1
  have hbefore : ∀ k < front.length,
      (k < column front offset ↔ k < column (front ++ back) offset) := by
    intro k hk
    have hk' : k < (front ++ back).length := by
      rw [List.length_append]
      omega
    rw [lt_column_iff hfront hk, lt_column_iff htext hk', List.take_append_of_le_length hk]
  have hinner := hbefore (column front offset - 1)
  have houter := hbefore (column front offset)
  omega

namespace Line

variable {text : List Char} {span : Span} {l : Line}

/-- Where a span starts in a line, counted in what is shown of it. -/
theorem column_shown (hl : l.IsPieceOf text) (hstart : Text.IsPlace text span.start)
    (hle : l.start ≤ span.start) :
    column l.shown (l.entry span) = min (column l.text (span.start - l.start)) l.shown.length := by
  have hentry : l.entry span = span.start - l.start := by
    rw [entry, Nat.max_eq_left hle]
  have hshown := boundary_entry hl hstart
  have hline := hl.boundary hstart hle
  obtain ⟨⟨n, hends⟩, -⟩ := l.shown_spec
  rw [hentry] at hshown ⊢
  rw [hends] at hline ⊢
  exact column_append_left hline hshown

/-- A front of a line that is longer than what is shown has carriage returns behind it. -/
theorem take_of_shown_lt {col : Nat} (hcol : col ≤ l.text.length) (h : l.shown.length < col) :
    l.text.take col = l.shown ++ List.replicate (col - l.shown.length) '\r' := by
  obtain ⟨⟨n, hends⟩, -⟩ := l.shown_spec
  rw [hends, List.length_append, List.length_replicate] at hcol
  rw [hends, List.take_append, List.take_of_length_le h.le, List.take_replicate,
    Nat.min_eq_left (by omega)]

end Line

/-! ## The first row -/

namespace Diagnostic

variable {text : List Char} {span : Span}

/-- The first row is that of the first line. -/
theorem Picture.exists_cons {first last : Nat} {rows : List Row}
    (h : Picture text span first last rows) :
    ∃ row rest, rows = row :: rest ∧ row.index = first := by
  obtain ⟨r, hr, hindex⟩ := (h.covered first).2
    ⟨le_rfl, h.first_le_last, fun ⟨hlt, _⟩ => lt_irrefl first hlt⟩
  cases rows with
  | nil => cases hr
  | cons row rest =>
    refine ⟨row, rest, rfl, ?_⟩
    obtain ⟨hfirst, -⟩ := (h.covered row.index).1 ⟨row, List.mem_cons_self, rfl⟩
    rcases List.mem_cons.1 hr with rfl | hrest
    · exact hindex
    · have hlt := (List.pairwise_cons.1 h.ordered).1 r hrest
      omega

theorem idxOf_caretRow (lead : Nat) {carets : Nat} (h : carets ≠ 0) :
    (caretRow lead carets).idxOf '^' = lead := by
  have hblank : '^' ∉ List.replicate lead ' ' := fun hmem =>
    absurd (List.eq_of_mem_replicate hmem) (by decide)
  obtain ⟨n, rfl⟩ := Nat.exists_eq_succ_of_ne_zero h
  rw [caretRow, List.idxOf_append_of_notMem hblank, List.replicate_succ, List.idxOf_cons_self,
    List.length_replicate, Nat.add_zero]

/-- The first caret of a row stands behind the shown characters before the span. -/
theorem idxOf_rowOf (l : Line) (i : Nat) :
    (rowOf span l i).marks.idxOf '^' = column l.shown (l.entry span) := by
  have hcarets : (marks span l).2 ≠ 0 := by
    rw [Line.marks_eq]
    omega
  exact idxOf_caretRow _ hcarets

/-! ## The header -/

/-- What the column in the header says about the row below it. -/
structure Row.Headed (span : Span) (col : Nat) (r : Row) : Prop where
  /-- The column counts the characters before the span on its line. -/
  counted : col ≤ r.line.text.length ∧
    r.line.start + Text.byteSize (r.line.text.take col) = span.start
  /-- In it is the first caret, if all characters before it are shown. -/
  shown : col ≤ r.line.shown.length → r.marks.idxOf '^' = col
  /-- If they are not, then those that are left out are carriage returns, and the first caret is
  behind all that is shown. -/
  hidden : r.line.shown.length < col →
    r.marks.idxOf '^' = r.line.shown.length ∧
      r.line.text.take col = r.line.shown ++ List.replicate (col - r.line.shown.length) '\r'

theorem headerColumn_eq {l : Line} (hl : l.IsAt text (Line.indexOf (Line.split 0 text) span.start)) :
    headerColumn text span = column l.text (span.start - l.start) := by
  simp [headerColumn, List.getD_eq_getElem?_getD, Line.getElem?_split_iff.2 hl]

theorem rowOf_headed {l : Line} (hl : l.IsAt text (Line.indexOf (Line.split 0 text) span.start))
    (hstart : Text.IsBoundary text span.start) (i : Nat) :
    (rowOf span l i).Headed span (headerColumn text span) := by
  obtain ⟨l', hl', hle, hend⟩ := Line.exists_holds text span.start
  obtain rfl := hl'.unique hl
  have hplace : Text.IsPlace text span.start := .inl hstart
  obtain ⟨hlength, hbytes⟩ := column_spec (hl.isPieceOf.boundary hplace hle)
  have hcaret := (idxOf_rowOf l' i).trans (Line.column_shown hl.isPieceOf hplace hle)
  rw [← headerColumn_eq hl] at hlength hbytes hcaret
  refine ⟨⟨hlength, ?_⟩, fun hshown => ?_, fun hhidden => ⟨?_, ?_⟩⟩
  · -- the line holds the start, which is not past the end of the text
    have hwithin := hstart.le
    rw [Line.stop] at hend
    simp only [rowOf, hbytes]
    omega
  · rw [hcaret]
    exact Nat.min_eq_left hshown
  · rw [hcaret]
    exact Nat.min_eq_right hhidden.le
  · exact Line.take_of_shown_lt hlength hhidden

/-- **The header names the line of the first row and the column of the first caret**, or, if
carriage returns at the end of the line are before the span, a column further right by their
number. -/
theorem render_headed (style : Style) (doc : Document) {d : Diagnostic}
    (hle : d.span.start ≤ d.span.stop) (hstart : Text.IsBoundary doc.text.toList d.span.start)
    (hstop : Text.IsBoundary doc.text.toList d.span.stop) :
    ∃ last width col row rows, Picture doc.text.toList d.span row.index last (row :: rows) ∧
      row.Headed d.span col ∧
      d.render style doc = header style doc.path d.message width (row.index + 1) col ++
        String.join ((row :: rows).map (Row.text style width)) ++ noteText style d.note := by
  have hpicture := rowsOf_picture hle (.inl hstart) (.inl hstop) rfl rfl
  have htext := render_eq_headerColumn style doc d rfl rfl
  obtain ⟨row, rest, hrows, hindex⟩ := hpicture.exists_cons
  have hmem : row ∈ row :: rest := List.mem_cons_self
  rw [← hrows] at hmem
  obtain ⟨l, i, rfl, hl, -⟩ := mem_rowsOf_iff.1 hmem
  rw [hrows] at hpicture htext
  rw [← hindex] at hpicture htext
  obtain rfl : i = _ := hindex
  exact ⟨_, _, _, _, _, hpicture, rowOf_headed hl hstart _, htext⟩

/-- A span in a second line, behind a character of two bytes. -/
theorem render_headed_secondLine :
    ∃ d : Diagnostic, d.span = ⟨7, 8⟩ ∧
      d.render .plain ⟨"main", "a\r\nté x\r"⟩ =
        "Error: unexpected end of file\n --> main:2:3\n  |\n2 | té x\n  |    ^" ∧
      ∃ last col row rows, Picture "a\r\nté x\r".toList d.span row.index last (row :: rows) ∧
        row.Headed d.span col := by
  have hstart : Text.IsBoundary "a\r\nté x\r".toList 7 := ⟨"a\r\nté ".toList, _, rfl, rfl⟩
  have hstop : Text.IsBoundary "a\r\nté x\r".toList 8 := ⟨"a\r\nté x".toList, _, rfl, rfl⟩
  obtain ⟨last, -, col, row, rows, hpicture, hheaded, -⟩ :=
    render_headed .plain ⟨"main", "a\r\nté x\r"⟩
      (d := ⟨.reported .eof none none, ⟨7, 8⟩⟩) (by decide) hstart hstop
  refine ⟨_, rfl, ?_, last, col, row, rows, hpicture, hheaded⟩
  decide +kernel

/-- At the end of a text behind a carriage return, the header counts nine characters, and the caret
stands behind eight. -/
theorem header_ne_caret_endReturn :
    ∃ (d : Diagnostic) (row : Row), d.span = ⟨9, 9⟩ ∧
      Text.IsBoundary "u8 main(\r".toList 9 ∧ Picture "u8 main(\r".toList d.span 0 0 [row] ∧
      d.render .plain ⟨"main", "u8 main(\r"⟩ =
        header .plain "main" d.message 1 (row.index + 1) 9 ++ row.text .plain 1 ∧
      row.marks.idxOf '^' = 8 := by
  have hend : Text.IsBoundary "u8 main(\r".toList 9 := Text.isBoundary_byteSize _
  have hpicture : Picture "u8 main(\r".toList ⟨9, 9⟩ 0 0 [rowOf ⟨9, 9⟩ ⟨0, "u8 main(\r".toList⟩ 0] :=
    rowsOf_picture le_rfl (.inl hend) (.inl hend) (by decide) (by decide)
  refine ⟨⟨.reported .eof none none, ⟨9, 9⟩⟩, _, rfl, hend, hpicture, ?_, ?_⟩
  · decide +kernel
  · decide

end Diagnostic

end ExprLang
