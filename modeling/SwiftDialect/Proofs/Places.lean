import SwiftDialect.Proofs.Passing

/-!
# Places in a text

A *cell* is a character together with the columns that it takes. The cells that lie behind a scanner
are listed from the newest to the oldest; line, column and handle of the place after them are counts
over that list.

Main statements: a scanner's counters are these counts, up to the limit of the counters
(`Scanner.Counts`, kept by `Counts.leave`), and the line table expands the handle of a place to its
line and column (`expand_handleAt`).
-/

namespace SwiftDialect

universe u

/-! ### Counters that stick -/

/-- A count, as far as a counter can show it. -/
def capped (n : Nat) : Nat :=
  min n counterLimit

theorem capped_of_le {n : Nat} (h : n ≤ counterLimit) : capped n = n :=
  Nat.min_eq_left h

theorem capped_le_capped {m n : Nat} (h : m ≤ n) : capped m ≤ capped n := by
  unfold capped
  omega

theorem stickyAdd_capped (m n : Nat) : stickyAdd (capped m) n = capped (m + n) := by
  unfold stickyAdd capped
  omega

/-- The handle of a column, from the counters for the start of its line and for the column. -/
theorem stickyAdd_capped_column {base : Nat} (h : 1 ≤ base) (n : Nat) :
    stickyAdd (capped base) (capped (1 + n) - 1) = capped (base + n) := by
  unfold stickyAdd capped
  omega

/-! ### Cells -/

/-- A character and the number of columns that it takes. -/
structure Cell where
  char : Char
  width : Nat
  deriving DecidableEq, Repr

/-- How many columns the cells take together. -/
def breadth : List Cell → Nat
  | [] => 0
  | cell :: cells => cell.width + breadth cells

theorem breadth_append (cells more : List Cell) :
    breadth (cells ++ more) = breadth cells + breadth more := by
  induction cells with
  | nil => exact (Nat.zero_add _).symm
  | cons cell cells ih => rw [List.cons_append, breadth, ih, breadth, Nat.add_assoc]

theorem breadth_reverse (cells : List Cell) : breadth cells.reverse = breadth cells := by
  induction cells with
  | nil => rfl
  | cons cell cells ih => rw [List.reverse_cons, breadth_append, ih, breadth, Nat.add_comm]; rfl

/-- The line after the cells. -/
def lineAt (past : List Cell) : Nat :=
  1 + past.countP (·.char = '\n')

/-- The column after the cells. -/
def columnAt (past : List Cell) : Nat :=
  1 + breadth (past.takeWhile (·.char ≠ '\n'))

/-- The handle of the place after the cells, if it is not too large for one. -/
def handleAt (past : List Cell) : Nat :=
  1 + breadth past

/-- The lines that have started after the cells, newest first, all in the first file. -/
def startsAt : List Cell → List LineStart
  | [] => [⟨0, 1, 1⟩]
  | cell :: past =>
    if cell.char = '\n' then
      ⟨0, capped (lineAt (cell :: past)), capped (handleAt (cell :: past))⟩ :: startsAt past
    else startsAt past

section

variable {name : String} {past cells : List Cell}

theorem handleAt_append (cells past : List Cell) :
    handleAt (cells ++ past) = handleAt past + breadth cells := by
  rw [handleAt, handleAt, breadth_append]
  omega

/-- The column counts from the start of the line. -/
theorem handleAt_eq (past : List Cell) :
    handleAt past = handleAt (past.dropWhile (·.char ≠ '\n')) + (columnAt past - 1) := by
  have hsplit := handleAt_append (past.takeWhile (·.char ≠ '\n')) (past.dropWhile (·.char ≠ '\n'))
  rw [List.takeWhile_append_dropWhile] at hsplit
  rw [hsplit, columnAt, Nat.add_sub_cancel_left]

/-- Cells without a line end stay on the line. -/
theorem startsAt_append (h : ∀ cell ∈ cells, cell.char ≠ '\n') :
    startsAt (cells ++ past) = startsAt past := by
  induction cells with
  | nil => rfl
  | cons cell cells ih =>
    obtain ⟨hcell, hcells⟩ := List.forall_mem_cons.1 h
    rw [List.cons_append, startsAt, if_neg hcell, ih hcells]

theorem lineAt_append (h : ∀ cell ∈ cells, cell.char ≠ '\n') :
    lineAt (cells ++ past) = lineAt past := by
  have hnone : cells.countP (·.char = '\n') = 0 :=
    List.countP_eq_zero.2 fun cell hcell => by simpa using h cell hcell
  rw [lineAt, List.countP_append, hnone, Nat.zero_add, lineAt]

theorem columnAt_append (h : ∀ cell ∈ cells, cell.char ≠ '\n') :
    columnAt (cells ++ past) = columnAt past + breadth cells := by
  rw [columnAt, List.takeWhile_append_of_pos (fun cell hcell => by simpa using h cell hcell),
    breadth_append, columnAt]
  omega

/-- The line that is under way. -/
theorem head?_startsAt (past : List Cell) : (startsAt past).head? =
    some ⟨0, capped (lineAt past), capped (handleAt (past.dropWhile (·.char ≠ '\n')))⟩ := by
  induction past with
  | nil => rfl
  | cons cell past ih =>
    by_cases hcell : cell.char = '\n'
    · simp [startsAt, hcell]
    · have hline : lineAt (cell :: past) = lineAt past := by simp [lineAt, hcell]
      rw [startsAt, if_neg hcell, ih, hline]
      simp [hcell]

theorem length_startsAt (past : List Cell) : (startsAt past).length = lineAt past := by
  induction past with
  | nil => rfl
  | cons cell past ih =>
    by_cases hcell : cell.char = '\n'
    · simp [startsAt, hcell, lineAt, ih]
      omega
    · simp [startsAt, hcell, lineAt, ih]

/-! ### Expanding a handle -/

/-- Line ends take one column, as all cells do but tabs. -/
def Proper (cells : List Cell) : Prop :=
  ∀ cell ∈ cells, cell.char = '\n' → cell.width = 1

theorem lineAt_le_handleAt (h : Proper past) : lineAt past ≤ handleAt past := by
  induction past with
  | nil => exact Nat.le_refl _
  | cons cell past ih =>
    obtain ⟨hcell, hpast⟩ := List.forall_mem_cons.1 h
    have hle := ih hpast
    have hwidth : (if decide (cell.char = '\n') then 1 else 0) ≤ cell.width := by
      split
      · next hnew => exact Nat.le_of_eq (hcell (of_decide_eq_true hnew)).symm
      · exact Nat.zero_le _
    simp only [lineAt, handleAt, breadth, List.countP_cons] at hle ⊢
    omega

/-- Lines that start later are passed by when a handle is looked up, unless the counters have stuck by
then. -/
theorem find?_startsAt_append (hproper : Proper cells)
    (hlimit : handleAt past < counterLimit ∨ handleAt (cells ++ past) ≤ counterLimit) :
    (startsAt (cells ++ past)).find? (·.base ≤ handleAt past) =
      (startsAt past).find? (·.base ≤ handleAt past) := by
  induction cells with
  | nil => rfl
  | cons cell cells ih =>
    obtain ⟨hcell, hcells⟩ := List.forall_mem_cons.1 hproper
    have hstep : handleAt (cell :: (cells ++ past)) = handleAt (cells ++ past) + cell.width := by
      simp only [handleAt, breadth]
      omega
    rw [List.cons_append] at hlimit ⊢
    have hrest := ih hcells (by omega)
    rw [startsAt]
    split
    · next hnew =>
      -- a line feed takes a column, so the new line starts beyond the handle
      have hlater : handleAt past < capped (handleAt (cell :: (cells ++ past))) := by
        have happend := handleAt_append cells past
        have hwidth := hcell hnew
        unfold capped
        omega
      rw [List.find?_cons_of_neg (by simpa using hlater), hrest]
    · exact hrest

/-- The line table leads from the handle of a place back to its line and column, whatever has come
after it. -/
theorem expand_handleAt {t : LineTable} (hfiles : t.files = [name])
    (ht : t.starts = startsAt (cells ++ past)) (hproper : Proper (cells ++ past))
    (hlimit : handleAt past < counterLimit ∨ handleAt (cells ++ past) ≤ counterLimit) :
    t.expand ⟨handleAt past⟩ = some ⟨name, lineAt past, columnAt past⟩ := by
  obtain ⟨hcells, hpast⟩ := List.forall_mem_append.1 hproper
  have hle : handleAt past ≤ counterLimit := by
    rw [handleAt_append] at hlimit
    omega
  have hline := lineAt_le_handleAt hpast
  have hcolumn := handleAt_eq past
  obtain ⟨older, hstarts⟩ := List.head?_eq_some_iff.1 (head?_startsAt past)
  rw [capped_of_le (Nat.le_trans hline hle), capped_of_le (by omega)] at hstarts
  have hknown : (Location.mk (handleAt past)).isUnknown = false :=
    beq_eq_false_iff_ne.2 (Nat.ne_of_gt (Nat.lt_of_lt_of_le Nat.one_pos (Nat.le_add_right 1 _)))
  have hbase : handleAt (past.dropWhile (·.char ≠ '\n')) ≤ handleAt past := by omega
  -- the line of the place is the first one that does not start beyond it
  rw [LineTable.expand, hknown, ht, find?_startsAt_append hcells hlimit, hstarts,
    List.find?_cons_of_pos (by simpa using hbase), hfiles]
  have hfirst : 1 ≤ columnAt past := Nat.le_add_right 1 _
  have hback : handleAt past - handleAt (past.dropWhile (·.char ≠ '\n')) + 1 = columnAt past := by
    omega
  simp only [Bool.false_eq_true, if_false, Option.bind_some, List.getElem?_cons_zero, Option.map_some,
    hback]

end

/-! ### The cells of a segment -/

/-- The cells of the segment: a tab between lexemes takes `w` columns, all else takes one. -/
def Segment.cells (w : Nat) : Segment → List Cell
  | .blank c => [⟨c, if c = '\t' then w else 1⟩]
  | segment => segment.chars.map (⟨·, 1⟩)

/-- The cells of the segments, from the newest to the oldest. -/
def trace (w : Nat) (segments : List Segment) : List Cell :=
  (segments.flatMap (Segment.cells w)).reverse

/-- The location of what follows the segments. -/
def placeAfter (w : Nat) (segments : List Segment) : Location :=
  ⟨capped (handleAt (trace w segments))⟩

/-- What lies before the place where a problem of the segment shows: where the segment starts, or where
an unended string is cut off. -/
def Segment.leading (before : List Segment) (segment : Segment) : List Segment :=
  match segment with
  | .string _ false => before ++ [segment]
  | _ => before

/-- What is reported about a segment after others, if anything is. -/
def Segment.diagnostic? (w : Nat) (before : List Segment) (segment : Segment) : Option Diagnostic :=
  segment.problem?.map (·.diagnose (placeAfter w (segment.leading before)))

section

variable {w : Nat} {segment : Segment} {segments : List Segment} {rest : List Char}

theorem trace_concat (w : Nat) (before : List Segment) (segment : Segment) :
    trace w (before ++ [segment]) = (segment.cells w).reverse ++ trace w before := by
  simp [trace]

theorem trace_append (w : Nat) (before after : List Segment) :
    trace w (before ++ after) = trace w after ++ trace w before := by
  simp [trace]

theorem breadth_map_one (cs : List Char) : breadth (cs.map (⟨·, 1⟩)) = cs.length := by
  induction cs with
  | nil => rfl
  | cons c cs ih => rw [List.map_cons, breadth, ih, List.length_cons, Nat.add_comm]

theorem Segment.map_char_cells (w : Nat) (segment : Segment) :
    (segment.cells w).map Cell.char = segment.chars := by
  cases segment <;> simp [cells, chars, List.map_map, Function.comp_def]

theorem Segment.breadth_cells (hne : ∀ c, segment ≠ .blank c) :
    breadth (segment.cells w) = segment.chars.length := by
  cases segment with
  | blank c => exact absurd rfl (hne c)
  | _ => exact breadth_map_one _

/-- Only a line end by itself holds one. -/
theorem Segment.Stands.newline_notMem (h : segment.Stands rest) (hne : segment ≠ .blank '\n') :
    '\n' ∉ segment.chars := by
  cases segment with
  | blank c =>
    rw [chars, List.mem_singleton]
    rintro rfl
    exact hne rfl
  | comment text =>
    rw [chars, List.mem_cons]
    rintro (hmem | hmem)
    · exact absurd hmem (by decide)
    · exact h.1 hmem
  | unrecognised c =>
    rw [chars, List.mem_singleton]
    rintro rfl
    exact h.1 (by decide)
  | word first more =>
    intro hmem
    have hrest : isIdentifierRest '\n' := by
      refine isIdentifierRest_iff.2 ?_
      rcases List.mem_cons.1 hmem with heq | hmem
      · exact .inl (heq ▸ h.1)
      · exact h.2.1 _ hmem
    exact absurd hrest (by decide)
  | number text =>
    intro hmem
    rcases h.2.1 _ hmem with hdigit | heq
    · exact absurd (isDigit_iff.2 hdigit) (by decide)
    · exact absurd heq (by decide)
  | string text closed =>
    simp only [chars, List.mem_cons, List.mem_append]
    rintro (hmem | hmem | hmem)
    · exact absurd hmem (by decide)
    · exact (h.1 _ hmem).2 rfl
    · cases closed <;> exact absurd hmem (by decide)
  | sign kind =>
    have hsigns : ∀ k ∈ CharClass.signKinds, '\n' ∉ k.description.toList := by decide
    exact hsigns kind h.1

theorem Segment.Stands.char_ne (h : segment.Stands rest) (hne : segment ≠ .blank '\n') :
    ∀ cell ∈ (segment.cells w).reverse, cell.char ≠ '\n' := by
  intro cell hcell hnew
  refine h.newline_notMem hne ?_
  rw [← map_char_cells w, ← hnew]
  exact List.mem_map_of_mem (List.mem_reverse.1 hcell)

end

/-! ### The counters of a scanner -/

namespace Scanner

variable {σ : Type u} {name : String} {past cells : List Cell} {s : Scanner σ} {w : Nat}

/-- The scanner has counted the cells that lie behind it. -/
structure Counts (name : String) (past : List Cell) (s : Scanner σ) : Prop where
  files : s.lines.files = [name]
  starts : s.lines.starts = startsAt past
  highest : s.lines.highest ≤ capped (handleAt past)
  line : s.line = capped (lineAt past)
  column : s.column = capped (columnAt past)

theorem counts_start (name : String) (source : σ) (tabWidth : Nat) (journal : Journal) :
    (start name source tabWidth journal).Counts name [] := by
  have hfirst : 1 ≤ capped (handleAt []) := by decide
  exact ⟨rfl, rfl, hfirst, rfl, rfl⟩

namespace Counts

/-- Asking for the location of the next character gives its handle, which is then the highest. -/
theorem here (h : s.Counts name past) : s.here.1 = ⟨capped (handleAt past)⟩ ∧
    s.here.2.Counts name past ∧ s.here.2.lines.highest = capped (handleAt past) := by
  obtain ⟨older, hstarts⟩ := List.head?_eq_some_iff.1 (head?_startsAt past)
  -- the base of the current line and the column come to the handle of the place
  have hhandle : stickyAdd (capped (handleAt (past.dropWhile (·.char ≠ '\n')))) (s.column - 1) =
      capped (handleAt past) := by
    have hbase : 1 ≤ handleAt (past.dropWhile (·.char ≠ '\n')) := Nat.le_add_right 1 _
    rw [h.column, columnAt, stickyAdd_capped_column hbase, handleAt_eq past, columnAt,
      Nat.add_sub_cancel_left]
  have hlocate : s.lines.locate s.column =
      (⟨capped (handleAt past)⟩, { s.lines with highest := capped (handleAt past) }) := by
    rw [LineTable.locate]
    split
    · next current _ heq =>
      rw [h.starts, hstarts] at heq
      obtain ⟨rfl, -⟩ := List.cons.inj heq
      rw [hhandle]
      simp only [Nat.max_eq_right h.highest]
    · next heq =>
      rw [h.starts, hstarts] at heq
      cases heq
  rw [Scanner.here, hlocate]
  exact ⟨rfl, ⟨h.files, h.starts, Nat.le_refl _, h.line, h.column⟩, rfl⟩

theorem record (h : s.Counts name past) (e : Event) : (s.record e).Counts name past :=
  ⟨h.files, h.starts, h.highest, h.line, h.column⟩

theorem withChars (h : s.Counts name past) (q : Lookahead σ (Option Char)) :
    { s with chars := q }.Counts name past :=
  ⟨h.files, h.starts, h.highest, h.line, h.column⟩

theorem advance (h : s.Counts name past) (hcells : ∀ cell ∈ cells, cell.char ≠ '\n') :
    (s.advance (breadth cells)).Counts name (cells ++ past) := by
  refine ⟨h.files, ?_, Nat.le_trans h.highest (capped_le_capped ?_), ?_, ?_⟩
  · rw [startsAt_append hcells]
    exact h.starts
  · rw [handleAt_append]
    exact Nat.le_add_right _ _
  · rw [lineAt_append hcells]
    exact h.line
  · rw [columnAt_append hcells, ← stickyAdd_capped, ← h.column]
    rfl

theorem newLine (h : s.Counts name past) (hhighest : s.lines.highest = capped (handleAt past)) :
    s.newLine.Counts name (⟨'\n', 1⟩ :: past) := by
  have hline : stickyAdd s.line 1 = capped (lineAt (⟨'\n', 1⟩ :: past)) := by
    rw [h.line, stickyAdd_capped, lineAt, lineAt, List.countP_cons_of_pos rfl, Nat.add_assoc]
  have hbase : stickyAdd s.lines.highest 1 = capped (handleAt (⟨'\n', 1⟩ :: past)) := by
    rw [hhighest, stickyAdd_capped, handleAt, handleAt, breadth, Nat.add_assoc,
      Nat.add_comm (breadth past)]
  refine ⟨?_, ?_, Nat.le_of_eq hbase, hline, rfl⟩
  · simp [Scanner.newLine, LineTable.startLine, h.files]
  · simp [Scanner.newLine, LineTable.startLine, h.files, hline, hbase, startsAt, h.starts]

end Counts

/-! ### Leaving a segment -/

/-- The cells of the segments lie behind the scanner, and it has counted them. -/
structure Past (name : String) (w : Nat) (before : List Segment) (s : Scanner σ) : Prop where
  counts : s.Counts name (trace w before)
  tabWidth : s.tabWidth = w

variable {before : List Segment} {segment : Segment} {rest : List Char}

theorem Past.here (h : s.Past name w before) : s.here.1 = placeAfter w before ∧
    s.here.2.Past name w before ∧ s.here.2.lines.highest = capped (handleAt (trace w before)) := by
  obtain ⟨hplace, hcounts, hhighest⟩ := h.counts.here
  exact ⟨hplace, ⟨hcounts, h.tabWidth⟩, hhighest⟩

theorem Counts.leave_chars (h : s.Counts name past) (hne : ∀ c, segment ≠ .blank c)
    (hstands : segment.Stands rest) :
    (s.advance segment.chars.length).Counts name ((segment.cells w).reverse ++ past) := by
  rw [← Segment.breadth_cells (w := w) hne, ← breadth_reverse]
  exact h.advance (hstands.char_ne (hne _))

/-- A scanner that has counted what lies behind it goes on to count the segment that it leaves, and
reports what is wrong with it. -/
theorem Past.leave (h : s.Past name w before)
    (hhere : s.lines.highest = capped (handleAt (trace w before))) (hstands : segment.Stands rest) :
    (segment.leave (placeAfter w before) s).Past name w (before ++ [segment]) ∧
      (segment.leave (placeAfter w before) s).journal.diagnostics =
        s.journal.diagnostics ++ (segment.diagnostic? w before).toList := by
  have hcounts := h.counts
  -- the cells of the segment come on top of those behind the scanner
  have hpast {s' : Scanner σ} (hs' : s'.Counts name ((segment.cells w).reverse ++ trace w before))
      (hwidth : s'.tabWidth = w) : s'.Past name w (before ++ [segment]) := by
    rw [← trace_concat] at hs'
    exact ⟨hs', hwidth⟩
  cases segment with
  | blank c =>
    by_cases hc : c = '\n'
    · subst hc
      exact ⟨hpast (hcounts.newLine hhere) h.tabWidth, (List.append_nil _).symm⟩
    · have hmove := hcounts.advance (hstands.char_ne (w := w) (by simpa using hc))
      have hleave : Segment.leave (placeAfter w before) s (.blank c) =
          s.advance (breadth (Segment.cells w (.blank c)).reverse) := by
        rw [Segment.leave, if_neg hc, h.tabWidth]
        rfl
      rw [hleave]
      exact ⟨hpast hmove h.tabWidth, (List.append_nil _).symm⟩
  | unrecognised c =>
    have hmove := hcounts.leave_chars (w := w) (by simp) hstands
    exact ⟨hpast (hmove.record _) h.tabWidth, Journal.diagnostics_record _ _⟩
  | string text closed =>
    have hmove := hcounts.leave_chars (w := w) (by simp) hstands
    cases closed with
    | true => exact ⟨hpast hmove h.tabWidth, (List.append_nil _).symm⟩
    | false =>
      have hlength : (Segment.string text false).chars.length = 1 + text.length := by
        simp [Segment.chars, Nat.add_comm]
      rw [hlength] at hmove
      obtain ⟨hplace, hkeep, -⟩ := hmove.here
      rw [← trace_concat] at hplace
      refine ⟨hpast (hkeep.record _) h.tabWidth, ?_⟩
      rw [Segment.leave]
      simp only [hplace]
      exact Journal.diagnostics_record _ _
  | _ =>
    have hmove := hcounts.leave_chars (w := w) (by simp) hstands
    exact ⟨hpast hmove h.tabWidth, (List.append_nil _).symm⟩

end Scanner

end SwiftDialect
