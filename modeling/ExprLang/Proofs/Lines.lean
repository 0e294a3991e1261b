import Mathlib.Data.List.Basic
import Mathlib.Tactic.ByContra
import ExprLang.Proofs.Rendering

/-!
# The lines of a text

A line of a text is said without splitting the text: it is a piece without line feeds, between line
feeds or ends of the text, and its index is the number of line feeds before it (`Line.IsAt`). These
are the lines that splitting gives, with the same indices (`Line.getElem?_split_iff`).

A line holds the offsets of its bytes and that of the line feed behind it, and the last line holds
all offsets past the end (`Line.Holds`). The index found for an offset is that of a line that holds
it (`Line.exists_holds`).
-/

namespace ExprLang

namespace Line

/-- A line of a text: no line feed is in it, and what is before and behind it ends and begins with
one, if it is not empty. As many line feeds are before it as its index says. -/
structure IsAt (text : List Char) (i : Nat) (l : Line) : Prop where
  piece : ∃ before after, text = before ++ l.text ++ after ∧ Text.byteSize before = l.start ∧
    before.count '\n' = i ∧ (∀ c ∈ before.getLast?, c = '\n') ∧ ∀ c ∈ after.head?, c = '\n'
  unbroken : '\n' ∉ l.text

/-- A line holds an offset: it is that of one of its bytes or of the line feed behind it, or an
offset past the end, which the last line holds. -/
def Holds (text : List Char) (l : Line) (offset : Nat) : Prop :=
  l.start ≤ offset ∧ (offset ≤ l.stop ∨ l.stop = Text.byteSize text)

/-! ## Texts line by line -/

/-- Induction on the lines of a text. -/
theorem induction_lines {motive : List Char → Prop}
    (last : ∀ line, '\n' ∉ line → motive line)
    (more : ∀ line rest, '\n' ∉ line → motive rest → motive (line ++ '\n' :: rest))
    (text : List Char) : motive text := by
  induction hn : text.length using Nat.strong_induction_on generalizing text with
  | _ n ih =>
    by_cases h : '\n' ∈ text
    · obtain ⟨line, rest, rfl, hline⟩ := List.eq_append_cons_of_mem h
      refine more line rest hline (ih rest.length ?_ rest rfl)
      rw [← hn, List.length_append, List.length_cons]
      omega
    · exact last text h

theorem split_of_not_mem {line : List Char} (h : '\n' ∉ line) (start : Nat) :
    split start line = [⟨start, line⟩] := by
  induction line generalizing start with
  | nil => rfl
  | cons c cs ih =>
    have hc : c ≠ '\n' := fun hc => h (hc ▸ List.mem_cons_self)
    have hcs : '\n' ∉ cs := fun hcs => h (List.mem_cons_of_mem c hcs)
    rw [split, if_neg hc, ih hcs]

theorem split_append {line : List Char} (h : '\n' ∉ line) (start : Nat) (rest : List Char) :
    split start (line ++ '\n' :: rest) =
      ⟨start, line⟩ :: split (start + Text.byteSize line + 1) rest := by
  induction line generalizing start with
  | nil => simp [split]
  | cons c cs ih =>
    have hc : c ≠ '\n' := fun hc => h (hc ▸ List.mem_cons_self)
    have hcs : '\n' ∉ cs := fun hcs => h (List.mem_cons_of_mem c hcs)
    rw [List.cons_append, split, if_neg hc, ih hcs]
    simp only [Text.byteSize_cons, Nat.add_assoc]

theorem length_split (start : Nat) (text : List Char) :
    (split start text).length = text.count '\n' + 1 := by
  induction text using induction_lines generalizing start with
  | last line h => rw [split_of_not_mem h, List.count_eq_zero.2 h, List.length_singleton]
  | more line rest h ih =>
    rw [split_append h, List.length_cons, ih, List.count_append, List.count_eq_zero.2 h,
      List.count_cons_self, Nat.zero_add]

/-! ## Lines by their places -/

theorem isAt_of_split {before : List Char} (hbefore : ∀ c ∈ before.getLast?, c = '\n')
    {text : List Char} {i : Nat} {l : Line}
    (h : (split (Text.byteSize before) text)[i]? = some l) :
    l.IsAt (before ++ text) (before.count '\n' + i) := by
  induction text using induction_lines generalizing before i with
  | last line hline =>
    rw [split_of_not_mem hline] at h
    obtain ⟨rfl, rfl⟩ : i = 0 ∧ l = ⟨Text.byteSize before, line⟩ := by
      cases i with
      | zero => exact ⟨rfl, by simpa using h.symm⟩
      | succ i => simp at h
    exact ⟨⟨before, [], by simp, rfl, rfl, hbefore, by simp⟩, hline⟩
  | more line rest hline ih =>
    rw [split_append hline] at h
    cases i with
    | zero =>
      rw [List.getElem?_cons_zero] at h
      cases h
      exact ⟨⟨before, '\n' :: rest, by simp, rfl, rfl, hbefore, by simp⟩, hline⟩
    | succ i =>
      -- the rest stands behind one line feed more
      have hsize : Text.byteSize (before ++ line ++ ['\n']) =
          Text.byteSize before + Text.byteSize line + 1 := by
        simp only [Text.byteSize_append, Text.byteSize_cons, Text.byteSize_nil]
        rfl
      rw [List.getElem?_cons_succ, ← hsize] at h
      have hnext := ih (by simp) h
      have hcount : (before ++ line ++ ['\n']).count '\n' + i = before.count '\n' + (i + 1) := by
        simp only [List.count_append, List.count_eq_zero.2 hline, List.count_singleton_self]
        omega
      rw [hcount] at hnext
      simpa using hnext

/-- Behind the same number of line feeds, and directly behind the last of them, is one place. -/
theorem eq_nil_of_count {before e : List Char}
    (hcount : (before ++ e).count '\n' = before.count '\n')
    (hlast : ∀ c ∈ (before ++ e).getLast?, c = '\n') : e = [] := by
  by_contra hne
  have hfeed : '\n' ∉ e := by
    rw [List.count_append] at hcount
    exact List.count_eq_zero.1 (by omega)
  have hmem := List.getLast?_eq_getLast_of_ne_nil hne
  rw [List.getLast?_append_of_ne_nil _ hne, hmem] at hlast
  exact hfeed (hlast _ rfl ▸ List.getLast_mem hne)

theorem takeWhile_line {line after : List Char} (hline : '\n' ∉ line)
    (hafter : ∀ c ∈ after.head?, c = '\n') : (line ++ after).takeWhile (· != '\n') = line := by
  have hall : ∀ c ∈ line, (c != '\n') = true := fun c hc =>
    bne_iff_ne.2 fun hfeed => hline (hfeed ▸ hc)
  rw [List.takeWhile_append_of_pos hall]
  cases after with
  | nil => simp
  | cons c cs =>
    have hc : c = '\n' := hafter c rfl
    simp [hc]

theorem IsAt.unique {text : List Char} {i : Nat} {l l' : Line} (h : l.IsAt text i)
    (h' : l'.IsAt text i) : l = l' := by
  obtain ⟨⟨before, after, htext, hstart, hcount, hlast, hnext⟩, hline⟩ := h
  obtain ⟨⟨before', after', htext', hstart', hcount', hlast', hnext'⟩, hline'⟩ := h'
  have hparts : before ++ (l.text ++ after) = before' ++ (l'.text ++ after') := by
    rw [← List.append_assoc, ← htext, htext', List.append_assoc]
  have hbefore : before = before' := by
    rcases List.append_eq_append_iff.1 hparts with ⟨e, rfl, -⟩ | ⟨e, rfl, -⟩
    · rw [eq_nil_of_count (hcount'.trans hcount.symm) hlast', List.append_nil]
    · rw [eq_nil_of_count (hcount.trans hcount'.symm) hlast, List.append_nil]
  subst hbefore
  have hlines : l.text = l'.text := by
    rw [← takeWhile_line hline hnext, List.append_cancel_left hparts, takeWhile_line hline' hnext']
  cases l
  cases l'
  cases hlines
  cases hstart
  cases hstart'
  rfl

/-- Splitting gives the lines of a text in their places. -/
theorem getElem?_split_iff {text : List Char} {i : Nat} {l : Line} :
    (split 0 text)[i]? = some l ↔ l.IsAt text i := by
  have hsplit : ∀ {l : Line}, (split 0 text)[i]? = some l → l.IsAt text i := by
    intro l h
    have hstart : ∀ c ∈ ([] : List Char).getLast?, c = '\n' := by simp
    have hat := isAt_of_split hstart h
    rwa [List.nil_append, List.count_nil, Nat.zero_add] at hat
  refine ⟨hsplit, fun h => ?_⟩
  have hlt : i < (split 0 text).length := by
    obtain ⟨before, after, rfl, -, rfl, -⟩ := h.piece
    rw [length_split]
    simp only [List.count_append]
    omega
  have hget := List.getElem?_eq_getElem hlt
  rw [hget, h.unique (hsplit hget)]

/-- Before a line of a text there are lines of all smaller indices. -/
theorem IsAt.exists_of_le {text : List Char} {i j : Nat} {l : Line} (h : l.IsAt text j)
    (hij : i ≤ j) : ∃ l : Line, l.IsAt text i := by
  obtain ⟨hlt, -⟩ := List.getElem?_eq_some_iff.1 (getElem?_split_iff.2 h)
  exact ⟨_, getElem?_split_iff.1 (List.getElem?_eq_getElem (hij.trans_lt hlt))⟩

/-! ## The line of an offset -/

theorem takeWhile_split_of_lt {start offset : Nat} (h : offset < start) (text : List Char) :
    (split start text).takeWhile (fun l => l.start ≤ offset) = [] := by
  obtain ⟨l, rest, hsplit, rfl⟩ := start_of_split start text
  rw [hsplit, List.takeWhile_cons_of_neg]
  simpa using h

theorem indexOf_holds {start offset : Nat} (h : start ≤ offset) (text : List Char) :
    ∃ l, (split start text)[indexOf (split start text) offset]? = some l ∧ l.start ≤ offset ∧
      (offset ≤ l.stop ∨ l.stop = start + Text.byteSize text) := by
  induction text using induction_lines generalizing start with
  | last line hline =>
    refine ⟨⟨start, line⟩, ?_, h, .inr rfl⟩
    simp [split_of_not_mem hline, indexOf, h]
  | more line rest hline ih =>
    rw [split_append hline, indexOf, List.takeWhile_cons_of_pos (by simpa using h)]
    by_cases hnext : start + Text.byteSize line + 1 ≤ offset
    -- the offset is behind the line feed: the rest holds it, one line further on
    · obtain ⟨l, hl, hbefore, hend⟩ := ih hnext
      obtain ⟨first, others, hsplit, hfirst⟩ := start_of_split (start + Text.byteSize line + 1) rest
      have hpos : 1 ≤ ((split (start + Text.byteSize line + 1) rest).takeWhile
          fun l => l.start ≤ offset).length := by
        rw [hsplit, List.takeWhile_cons_of_pos (by simpa [hfirst] using hnext)]
        simp
      refine ⟨l, ?_, hbefore, hend.imp_right fun hstop => ?_⟩
      · rw [indexOf] at hl
        rw [List.length_cons, Nat.add_sub_cancel, List.getElem?_cons, if_neg (by omega)]
        exact hl
      · have hfeed : ('\n' : Char).utf8Size = 1 := rfl
        simp only [Text.byteSize_append, Text.byteSize_cons, hfeed]
        omega
    · refine ⟨⟨start, line⟩, ?_, h, .inl ?_⟩
      · rw [takeWhile_split_of_lt (by omega)]
        rfl
      · simp only [stop]
        omega

theorem length_takeWhile_le_of_imp {α : Type} {p q : α → Bool} (h : ∀ a, p a = true → q a = true)
    (as : List α) : (as.takeWhile p).length ≤ (as.takeWhile q).length := by
  induction as with
  | nil => simp
  | cons a as ih =>
    by_cases ha : p a = true
    · rw [List.takeWhile_cons_of_pos ha, List.takeWhile_cons_of_pos (h a ha)]
      exact Nat.succ_le_succ ih
    · rw [List.takeWhile_cons_of_neg ha]
      exact Nat.zero_le _

/-- A later offset is in no earlier line. -/
theorem indexOf_mono (lines : List Line) {m n : Nat} (h : m ≤ n) :
    indexOf lines m ≤ indexOf lines n := by
  have hstarts : ∀ l : Line, decide (l.start ≤ m) = true → decide (l.start ≤ n) = true :=
    fun l hl => decide_eq_true ((of_decide_eq_true hl).trans h)
  have hlength := length_takeWhile_le_of_imp hstarts lines
  unfold indexOf
  omega

/-- The index found for an offset is that of a line that holds it. -/
theorem exists_holds (text : List Char) (offset : Nat) :
    ∃ l : Line, l.IsAt text (indexOf (split 0 text) offset) ∧ l.Holds text offset := by
  obtain ⟨l, hl, hstart, hstop⟩ := indexOf_holds (Nat.zero_le offset) text
  rw [Nat.zero_add] at hstop
  exact ⟨l, getElem?_split_iff.1 hl, hstart, hstop⟩

end Line

end ExprLang
