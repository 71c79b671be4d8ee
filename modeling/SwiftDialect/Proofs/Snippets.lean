import SwiftDialect.Diagnostic.Text
import SwiftDialect.Proofs.Extension
import SwiftDialect.Proofs.TextLines

/-!
# The line below a diagnostic

A scanner numbers lines by counting line feeds, and the lines that can be shown are counted in another way.
Both number the parts of the text between line feeds. So the line that is shown below a diagnostic is the
one that it speaks of, and the mark stands below its column.

Main statement: what is shown below each located diagnostic of a text or of a reader
(`snippets_show_place`).
-/

namespace SwiftDialect

/-! ### Places among segments -/

section

variable {w : Nat} {before passed : List Segment} {segment : Segment} {d : Diagnostic}

/-- The location is a place between the segments. -/
def Location.Among (w : Nat) (passed : List Segment) (l : Location) : Prop :=
  ∃ before after, passed = before ++ after ∧ l = placeAfter w before

/-- The diagnostic speaks of a place between the segments. If it is about an unexpected character, then that
character comes next. -/
def Diagnostic.Among (w : Nat) (passed : List Segment) (d : Diagnostic) : Prop :=
  ∃ before after, passed = before ++ after ∧ d.location = some (placeAfter w before) ∧
    (d.code = "E0001" → ∃ c rest, after = .unrecognised c :: rest ∧
      d = (Problem.unexpectedCharacter c).diagnose (placeAfter w before))

theorem Location.Among.append {l : Location} (h : l.Among w passed) (more : List Segment) :
    l.Among w (passed ++ more) := by
  obtain ⟨before, after, rfl, hl⟩ := h
  exact ⟨before, after ++ more, List.append_assoc .., hl⟩

theorem Diagnostic.Among.append (h : d.Among w passed) (more : List Segment) :
    d.Among w (passed ++ more) := by
  obtain ⟨before, after, rfl, hplace, hchar⟩ := h
  refine ⟨before, after ++ more, List.append_assoc .., hplace, fun hcode => ?_⟩
  obtain ⟨c, rest, rfl, hd⟩ := hchar hcode
  exact ⟨c, rest ++ more, rfl, hd⟩

/-- A problem of another kind that is found at a place. -/
theorem Location.Among.diagnose {l : Location} (h : l.Among w passed) {pr : Problem}
    (hcode : pr.entry.code ≠ "E0001") : (pr.diagnose l).Among w passed := by
  obtain ⟨before, after, rfl, rfl⟩ := h
  exact ⟨before, after, rfl, rfl, fun heq => absurd heq hcode⟩

/-- What is reported about a segment lies before or behind it. -/
theorem Segment.among_of_diagnostic? (h : d ∈ segment.diagnostic? w before) :
    d.Among w (before ++ [segment]) := by
  obtain ⟨pr, hpr, rfl⟩ := Option.map_eq_some_iff.1 h
  cases segment with
  | unrecognised c =>
    obtain rfl : .unexpectedCharacter c = pr := Option.some.inj hpr
    exact ⟨before, [.unrecognised c], rfl, rfl, fun _ => ⟨c, [], rfl, rfl⟩⟩
  | string text closed =>
    cases closed with
    | true => cases hpr
    | false =>
      obtain rfl : .unendedString = pr := Option.some.inj hpr
      -- a string that is cut off is reported behind its text
      have hplace : (placeAfter w (before ++ [.string text false])).Among w
          (before ++ [.string text false]) := ⟨_, [], (List.append_nil _).symm, rfl⟩
      exact hplace.diagnose (by decide)
  | _ => cases hpr

/-- The token and what was reported on the way to it have their places between the segments. -/
structure Pull.Among (w : Nat) (passed : List Segment) (p : Pull) : Prop where
  token : p.token.location.Among w passed
  reports : ∀ d ∈ p.reports, d.Among w passed

theorem Pull.Among.append {p : Pull} (h : p.Among w passed) (more : List Segment) :
    p.Among w (passed ++ more) :=
  ⟨h.token.append more, fun d hd => (h.reports d hd).append more⟩

theorem Pull.length_after (ds : List Diagnostic) (ps : List Pull) : (after ds ps).length = ps.length := by
  cases ps <;> rfl

theorem Pull.take_after (ds : List Diagnostic) (ps : List Pull) (n : Nat) :
    (after ds ps).take (n + 1) = after ds (ps.take (n + 1)) := by
  cases ps <;> rfl

theorem Pull.among_after {ds : List Diagnostic} {ps : List Pull} (hds : ∀ d ∈ ds, d.Among w passed)
    (hps : ∀ p ∈ ps, p.Among w passed) : ∀ p ∈ after ds ps, p.Among w passed := by
  cases ps with
  | nil => exact hps
  | cons q ps =>
    obtain ⟨hq, hps⟩ := List.forall_mem_cons.1 hps
    refine List.forall_mem_cons.2 ⟨⟨hq.token, fun d hd => ?_⟩, hps⟩
    rcases List.mem_append.1 hd with hd | hd
    · exact hds d hd
    · exact hq.reports d hd

/-- A scanner that has given out some tokens has gone past their places, and past those of all that it has
reported. -/
theorem Scanner.Faces.takes {σ : Type} [CharSource σ] {name : String} {s : Scanner σ}
    {ahead : List Segment} (h : s.Faces name w before ahead) (n : Nat)
    (hn : n ≤ (pulls w before ahead).length) :
    ∃ passed rest, ahead = passed ++ rest ∧ (s.afterTokens n).Faces name w (before ++ passed) rest ∧
      ∀ p ∈ (pulls w before ahead).take n, p.Among w (before ++ passed) := by
  induction ahead generalizing s before n with
  | nil =>
    cases n with
    | zero => exact ⟨[], [], rfl, (List.append_nil before).symm ▸ h, by simp⟩
    | succ n =>
      obtain rfl : n = 0 := by simpa [pulls] using hn
      obtain ⟨hstep, hfaces, -⟩ := h.step_nil
      have hend : (Producer.next s).2.Faces name w before [] := by
        rw [next_of_some hstep]
        exact hfaces.record _
      refine ⟨[], [], rfl, (List.append_nil before).symm ▸ hend, ?_⟩
      rintro p hp
      obtain rfl := List.mem_singleton.1 hp
      exact ⟨⟨before, [], rfl, rfl⟩, by simp⟩
  | cons segment ahead ih =>
    cases n with
    | zero => exact ⟨[], segment :: ahead, rfl, (List.append_nil before).symm ▸ h, by simp⟩
    | succ n =>
      obtain ⟨hstep, hfaces, -⟩ := h.step_cons
      have hreports : ∀ d ∈ (segment.diagnostic? w before).toList, d.Among w (before ++ [segment]) :=
        fun d hd => Segment.among_of_diagnostic? (Option.mem_toList.1 hd)
      rw [pulls] at hn ⊢
      cases hx : segment.lexeme? with
      | none =>
        -- the reports of the segment come before those of the next token
        rw [hx] at hstep
        simp only [hx, Pull.length_after] at hn ⊢
        obtain ⟨passed, rest, rfl, hafter, hall⟩ := ih hfaces (n + 1) hn
        rw [List.append_assoc, List.singleton_append] at hafter hall
        refine ⟨segment :: passed, rest, rfl, ?_, ?_⟩
        · rwa [Scanner.afterTokens, next_of_none hstep]
        · rw [Pull.take_after]
          exact Pull.among_after (fun d hd => by simpa using (hreports d hd).append passed) hall
      | some x =>
        rw [hx] at hstep
        simp only [hx, List.length_cons, Nat.add_le_add_iff_right] at hn ⊢
        obtain ⟨passed, rest, rfl, hafter, hall⟩ :=
          ih (hfaces.record (.scanned x.kind x.text)) n hn
        rw [List.append_assoc, List.singleton_append] at hafter hall
        refine ⟨segment :: passed, rest, rfl, ?_, ?_⟩
        · rwa [Scanner.afterTokens, next_of_some hstep]
        · refine List.forall_mem_cons.2 ⟨⟨?_, fun d hd => ?_⟩, hall⟩
          · exact ⟨before, segment :: passed, rfl, rfl⟩
          · simpa using (hreports d hd).append passed

end

/-! ### What is reported of a text -/

/-- What is heard of statements has its place among the segments that were passed while they were read. -/
theorem Sentence.among_of_heard {w : Nat} {passed : List Segment} {scopes : Scopes} {ss : List Sentence}
    {ps : List Pull} (htokens : ps.map Pull.token = ss.flatMap tokens)
    (hps : ∀ p ∈ ps, p.Among w passed) : ∀ d ∈ heard scopes ss ps, d.Among w passed := by
  intro d hd
  obtain ⟨p, hp, hdp | ⟨-, rfl⟩⟩ := mem_heard ss htokens hd
  · exact (hps p hp).reports d hdp
  · have hother : "W0021" ≠ "E0001" := by decide
    exact (hps p hp).token.diagnose hother

section

variable {w : Nat} {text : String} {segments : List Segment}

/-- The line table has entered one file and come past some of the segments, and all diagnostics speak of
places among these. -/
def Charts (name : String) (w : Nat) (segments : List Segment) (table : LineTable)
    (ds : List Diagnostic) : Prop :=
  table.files = [name] ∧
    ∃ passed ahead, segments = passed ++ ahead ∧ table.starts = startsAt (trace w passed) ∧
      ∀ d ∈ ds, d.Among w passed

theorem among_of_pulls (name : String) (hseg : IsSegmentation text.toList segments) :
    ∀ p ∈ pulls w [] segments, p.Among w segments := by
  rintro p hp
  obtain ⟨passed, rest, rfl, -, hall⟩ :=
    (Scanner.faces_start name w hseg (Lookahead.spells_text _) .empty).takes _ (Nat.le_refl _)
  rw [List.take_length] at hall
  exact (hall p hp).append rest

theorem charts_tokenizeText (name : String) (hseg : IsSegmentation text.toList segments) :
    Charts name w segments (tokenizeText name text w).lines
      (tokenizeText name text w).diagnostics := by
  obtain ⟨-, hdiagnostics, hfiles, hstarts⟩ := tokenizeText_eq name w hseg
  refine ⟨hfiles, segments, [], (List.append_nil _).symm, hstarts, fun d hd => ?_⟩
  rw [hdiagnostics] at hd
  obtain ⟨p, hp, hdp⟩ := List.mem_flatMap.1 hd
  exact (among_of_pulls name hseg p hp).reports d hdp

/-- A parser that gives up has not come past what follows the rejected token. -/
theorem charts_parseText (name : String) (hseg : IsSegmentation text.toList segments) :
    Charts name w segments (parseText name text w).lines (parseText name text w).diagnostics := by
  obtain ⟨-, -, hfiles, hstarts⟩ := tokenizeText_eq name w hseg
  obtain ⟨hfiles', -, hstarts'⟩ := lines_parseText name text w
  refine ⟨hfiles'.trans hfiles, ?_⟩
  rcases parseText_heard name w hseg with
    ⟨ss, last, p, hpulls, hlast, -, hsome, hdiagnostics⟩ |
    ⟨ss, last, final, rest, used, bad, pr, moves, hpulls, hlast, hfinal, hst, -, hdiagnostics⟩
  · -- all of the text has been read
    have hread : (parseText name text w).lines.starts = startsAt (trace w segments) := by
      obtain ⟨_, _, _, -, -, -, -, hcases⟩ := parseText_stands name text w
      rcases hcases with ⟨eof, -, -, hmem, hk⟩ | ⟨-, -, hnone, -⟩
      · rw [hstarts' eof hmem hk, hstarts]
      · cases hsome.symm.trans hnone
    have hall := among_of_pulls (w := w) name hseg
    rw [hpulls] at hall
    obtain ⟨hleft, hright⟩ := List.forall_mem_append.1 hall
    refine ⟨segments, [], (List.append_nil _).symm, hread, fun d hd => ?_⟩
    rw [hdiagnostics] at hd
    rcases List.mem_append.1 hd with hd | hd
    · exact Sentence.among_of_heard hlast hleft d hd
    · exact (hright p (List.mem_singleton_self p)).reports d hd
  · obtain ⟨-, hlines⟩ := parseText_traces_of_stuck name hseg hpulls hlast hfinal hst
    -- the scanner has given out the tokens up to the rejected one and none after it
    have hfaces := Scanner.faces_start name w hseg (Lookahead.spells_text _)
      (Journal.empty.record (.parsingText name text.utf8ByteSize))
    rw [← List.append_assoc] at hpulls
    obtain ⟨passed, ahead, hsplit, hafter, hall⟩ :=
      hfaces.takes (last ++ final).length (by rw [hpulls]; simp)
    rw [hpulls, List.take_left, List.nil_append] at hall
    obtain ⟨hleft, hright⟩ := List.forall_mem_append.1 hall
    refine ⟨passed, ahead, hsplit, hlines ▸ hafter.past.counts.starts, fun d hd => ?_⟩
    rw [hdiagnostics, List.mem_append, List.mem_append, List.mem_flatMap, List.mem_singleton] at hd
    rcases hd with hd | ⟨p, hp, hdp⟩ | rfl
    · exact Sentence.among_of_heard hlast hleft d hd
    · exact (hright p hp).reports d hdp
    · -- the rejected token is among those given out, and its place is where the rejection is
      have hbad : bad ∈ final.map Pull.token := by simp [hfinal]
      obtain ⟨p, hp, rfl⟩ := List.mem_map.1 hbad
      have hother : ∀ code ∈ rejectionCodes, code ≠ "E0001" := by decide
      exact (hright p hp).token.diagnose (hother _ hst.stuck.code_mem)

end

/-! ### What is reported of a reader -/

namespace Analysis

variable {σ : Type} [CharSource σ] {source : σ} {text : String}

/-- A failure to read has no place. -/
theorem mem_of_located {name : String} {failure : Option String} {ds : List Diagnostic} {d : Diagnostic}
    (h : d ∈ ds ++ failure.toList.map (readFailure name)) (hlocated : d.location.isSome) : d ∈ ds := by
  rcases List.mem_append.1 h with hd | hd
  · exact hd
  · obtain ⟨reason, -, rfl⟩ := List.mem_map.1 hd
    cases hlocated

/-- A source that spells a text is tokenized like the text, as far as there are places. -/
theorem tokenize_located (h : (Lookahead.ofSource source).Spells text.toList) (name : String) (w : Nat) :
    (tokenize name source w).lines = (tokenizeText name text w).lines ∧
      ∀ d ∈ (tokenize name source w).diagnostics, d.location.isSome →
        d ∈ (tokenizeText name text w).diagnostics := by
  obtain ⟨-, halike⟩ := readAll_alike h (Lookahead.spells_text text.toList) name w
  obtain ⟨es, hsource, hspelled⟩ := halike.source.events
  refine ⟨halike.source.lines, fun d hd hlocated => ?_⟩
  simp only [tokenizeText, tokenize, Tokenized.diagnostics, Journal.diagnostics_record,
    diagnostics_reportFailure, hsource, hspelled, Event.diagnostic?, Option.toList_none,
    List.append_nil] at hd ⊢
  exact List.mem_append_left _ (mem_of_located hd hlocated)

/-- A source that spells a text is parsed like the text, as far as there are places. -/
theorem parse_located (h : (Lookahead.ofSource source).Spells text.toList) {journal : Journal}
    (hjournal : journal.diagnostics = []) (name : String) (w : Nat) :
    (parse name source w journal).lines = (parseText name text w).lines ∧
      ∀ d ∈ (parse name source w journal).diagnostics, d.location.isSome →
        d ∈ (parseText name text w).diagnostics := by
  have halike := alike_start h (Lookahead.spells_text text.toList) name w journal
    (Journal.empty.record (.parsingText name text.utf8ByteSize))
  obtain ⟨outcome, moves, hrun, hspelled⟩ := program_alike halike
  have hplay := halike.play moves
  obtain ⟨-, hdiagnostics, hlines⟩ := parse_of_failing_run hrun
  obtain ⟨-, hdiagnostics', hlines'⟩ := parse_of_failing_run hspelled
  obtain ⟨es, hes, hes'⟩ := hplay.source.events
  rw [parseText, parseTextAfter, hlines, hlines', hdiagnostics, hdiagnostics', hes, hes']
  refine ⟨hplay.source.lines, fun d hd hlocated => List.mem_append_left _ ?_⟩
  -- the failure of a reader has no place; all else was recorded for the text as well
  have hd := mem_of_located hd hlocated
  rw [Journal.diagnostics_recordAll, hjournal] at hd
  rw [Journal.diagnostics_recordAll]
  exact hd

end Analysis

/-! ### The line and the mark -/

theorem breadth_of_narrow {cells : List Cell} (h : ∀ cell ∈ cells, cell.width = 1) :
    breadth cells = cells.length := by
  induction cells with
  | nil => rfl
  | cons cell cells ih =>
    obtain ⟨hcell, hcells⟩ := List.forall_mem_cons.1 h
    rw [breadth, hcell, ih hcells, List.length_cons, Nat.add_comm]

section

variable {w : Nat} {before : List Segment}

/-- The line of a place counts the line feeds before it. -/
theorem line_positionAfter (w : Nat) (before : List Segment) :
    (positionAfter w before).line = (before.flatMap Segment.chars).count '\n' + 1 := by
  have hcount : (trace w before).countP (·.char = '\n') = ((trace w before).map Cell.char).count '\n' := by
    rw [List.count, List.countP_map]
    rfl
  rw [map_char_trace, List.count_reverse] at hcount
  rw [positionAfter, lineAt, hcount, Nat.add_comm]

theorem lastPart_eq (w : Nat) (before : List Segment) :
    Text.lastPart (before.flatMap Segment.chars) =
      (((trace w before).takeWhile (·.char ≠ '\n')).map Cell.char).reverse := by
  rw [Text.lastPart, ← map_char_trace w, List.takeWhile_map]
  rfl

/-- How many characters come before a place on its line. -/
def offsetAfter (before : List Segment) : Nat :=
  (Text.lastPart (before.flatMap Segment.chars)).length

/-- Without tabs a column is as wide as a character. -/
theorem column_positionAfter (h : '\t' ∉ Text.lastPart (before.flatMap Segment.chars)) :
    (positionAfter w before).column - 1 = offsetAfter before := by
  rw [lastPart_eq w] at h
  rw [offsetAfter, lastPart_eq w]
  have hnarrow : ∀ cell ∈ (trace w before).takeWhile (·.char ≠ '\n'), cell.width = 1 := by
    intro cell hcell
    rcases width_trace cell ((List.takeWhile_sublist _).subset hcell) with hone | ⟨htab, -⟩
    · exact hone
    · exact absurd (List.mem_reverse.2 (List.mem_map.2 ⟨cell, hcell, htab⟩)) h
  rw [positionAfter, columnAt, breadth_of_narrow hnarrow]
  simp

end

namespace Diagnostic

variable {name text : String} {w : Nat} {style : TextStyle} {table : LineTable} {d : Diagnostic}

/-- A source line with its number, and the mark below it. -/
def snippetText (style : TextStyle) (p : Position) (line : List Char) : String :=
  Text.padLeft 4 (toString p.line) ++ " | " ++ String.ofList line ++ "\n" ++
    "     | " ++ String.ofList (List.replicate (p.column - 1) ' ' ++ [style.indicator]) ++ "\n"

/-- A diagnostic at a position of the text is shown with its line; an empty part at the end is no line. -/
theorem toText_of_position {p : FilePosition} {row : List Char} (hsource : style.showSource = true)
    (hp : d.position? table = some p) (hpos : 1 ≤ p.position.line)
    (hrow : (text.toList.splitOn '\n')[p.position.line - 1]? = some row) :
    d.toText style table (some text) = d.header style table ++
      (if p.position.line < (text.toList.splitOn '\n').length then
        snippetText style p.position (Text.withoutReturn row)
      else if row = [] then "" else snippetText style p.position row) ++
      if style.showHelp then d.helpLine else "" := by
  have hget := Text.getElem?_ofParts hrow
  rw [← Text.lines_eq_ofParts, Nat.sub_add_cancel hpos] at hget
  simp only [toText, hsource, if_true, Option.bind_some, snippet?, hp, Option.bind_eq_bind,
    if_neg (Nat.ne_of_gt hpos), hget]
  split
  · rfl
  · split
    · rfl
    · rfl

/-- What is shown of the text below a diagnostic that speaks of the place between `before` and `after`; the
place lies in `row`, a part of the text between two line feeds. -/
structure ShownAt (name text : String) (w : Nat) (style : TextStyle) (table : LineTable)
    (d : Diagnostic) (before after : List Segment) (row : List Char) : Prop where
  cut : IsSegmentation text.toList (before ++ after)
  place : d.location = some (placeAfter w before)
  position : d.position? table = some ⟨name, positionAfter w before⟩
  /-- Lines are numbered by the line feeds before them, and `row` has the number of the position. -/
  number : (positionAfter w before).line = (before.flatMap Segment.chars).count '\n' + 1
  part : (text.toList.splitOn '\n')[(positionAfter w before).line - 1]? = some row
  /-- If a line feed follows, a carriage return before it is not shown; without one, an empty row is not. -/
  shown : d.toText style table (some text) = d.header style table ++
    (if (positionAfter w before).line < (text.toList.splitOn '\n').length then
      snippetText style (positionAfter w before) (Text.withoutReturn row)
    else if row = [] then "" else snippetText style (positionAfter w before) row) ++
    if style.showHelp then d.helpLine else ""
  /-- The row goes on from what comes before the place. -/
  inside : row.take (offsetAfter before) = Text.lastPart (before.flatMap Segment.chars)
  column : '\t' ∉ row.take (offsetAfter before) →
    (positionAfter w before).column - 1 = offsetAfter before
  character : d.code = "E0001" →
    ∃ c, row[offsetAfter before]? = some c ∧
      d = (Problem.unexpectedCharacter c).diagnose (placeAfter w before)

/-- A diagnostic among segments that the line table has come past is shown at its place. -/
theorem Among.shownAt {passed ahead : List Segment} (h : d.Among w passed)
    (hseg : IsSegmentation text.toList (passed ++ ahead))
    (hfiles : table.files = [name]) (hstarts : table.starts = startsAt (trace w passed))
    (hroom : d.handle < counterLimit) (hsource : style.showSource = true) :
    ∃ before after row, d.ShownAt name text w style table before after row := by
  obtain ⟨before, after, rfl, hplace, hchar⟩ := h
  rw [List.append_assoc] at hseg
  have hlimit : handleAt (trace w before) < counterLimit := by
    rw [handle, hplace, Option.getD_some, placeAfter] at hroom
    simp only [capped] at hroom
    omega
  have hposition : d.position? table = some ⟨name, positionAfter w before⟩ := by
    rw [position?, hplace]
    exact expand_placeAfter hfiles hstarts (.inl hlimit)
  have htext : text.toList =
      before.flatMap Segment.chars ++ (after ++ ahead).flatMap Segment.chars := by
    rw [← hseg.chars, List.flatMap_append]
  have hnumber := line_positionAfter w before
  -- the line number counts the line feeds before the place, and so does the list of lines
  have hpart : (text.toList.splitOn '\n')[(positionAfter w before).line - 1]? =
      some (Text.lastPart (before.flatMap Segment.chars) ++
        ((after ++ ahead).flatMap Segment.chars).takeWhile (· ≠ '\n')) := by
    rw [hnumber, Nat.add_sub_cancel, htext]
    exact Text.getElem?_splitOn_append _ _
  have hshown := toText_of_position hsource hposition (by rw [hnumber]; omega) hpart
  have htake : (Text.lastPart (before.flatMap Segment.chars) ++
      ((after ++ ahead).flatMap Segment.chars).takeWhile (· ≠ '\n')).take (offsetAfter before) =
        Text.lastPart (before.flatMap Segment.chars) := List.take_left
  refine ⟨before, after ++ ahead, _, hseg, hplace, hposition, hnumber, hpart, hshown, htake,
    fun htab => column_positionAfter (htake ▸ htab), fun hcode => ?_⟩
  -- an unexpected character is no line feed, so it is still on the row
  obtain ⟨c, rest, rfl, hd⟩ := hchar hcode
  have hnew := (hseg.stands before (.unrecognised c) (rest ++ ahead) rfl).newline_notMem (by simp)
  have hc : c ≠ '\n' := fun heq => hnew (by simp [Segment.chars, heq])
  exact ⟨c, by simp [offsetAfter, Segment.chars, hc], hd⟩

end Diagnostic

/-- Every diagnostic that has a place is shown at it, unless the counters have stuck there. -/
def AllShown (name text : String) (w : Nat) (style : TextStyle) (table : LineTable)
    (ds : List Diagnostic) : Prop :=
  ∀ d ∈ ds, d.location.isSome → d.handle < counterLimit →
    ∃ before after row, d.ShownAt name text w style table before after row

theorem Charts.allShown {name text : String} {w : Nat} {style : TextStyle} {table : LineTable}
    {segments : List Segment} {ds : List Diagnostic} (h : Charts name w segments table ds)
    (hseg : IsSegmentation text.toList segments) (hsource : style.showSource = true) :
    AllShown name text w style table ds := by
  obtain ⟨hfiles, passed, ahead, rfl, hstarts, hall⟩ := h
  exact fun d hd _ hroom => (hall d hd).shownAt hseg hfiles hstarts hroom hsource

theorem AllShown.of_located {name text : String} {w : Nat} {style : TextStyle} {table table' : LineTable}
    {ds ds' : List Diagnostic} (h : AllShown name text w style table ds)
    (hsame : table' = table ∧ ∀ d ∈ ds', d.location.isSome → d ∈ ds) :
    AllShown name text w style table' ds' := by
  obtain ⟨rfl, hmem⟩ := hsame
  exact fun d hd hlocated => h d (hmem d hd hlocated) hlocated

/-- Below a diagnostic that has a place, the source line is shown in which the place lies, with the mark
below its column. This is so for texts, and for readers of bytes that decode to the text, whether they
fail in the end or not. -/
theorem snippets_show_place (name text : String) (w : Nat) (style : TextStyle)
    (hsource : style.showSource = true) :
    AllShown name text w style (tokenizeText name text w).lines (tokenizeText name text w).diagnostics ∧
    AllShown name text w style (parseText name text w).lines (parseText name text w).diagnostics ∧
    ∀ reads bytes failure, Delivers reads bytes failure → text.toList = Utf8.decodeLossy bytes →
      AllShown name text w style (tokenizeReader name { reads } w).lines
        (tokenizeReader name { reads } w).diagnostics ∧
      AllShown name text w style (parseReader name { reads } w).lines
        (parseReader name { reads } w).diagnostics := by
  obtain ⟨segments, hseg⟩ := exists_segmentation text.toList
  have htokenize := (charts_tokenizeText (w := w) name hseg).allShown hseg hsource
  have hparse := (charts_parseText (w := w) name hseg).allShown hseg hsource
  refine ⟨htokenize, hparse, fun reads bytes failure h htext => ?_⟩
  have hspells : (Lookahead.ofSource ({ reads } : Reader)).Spells text.toList :=
    htext ▸ (Reader.holds_start h).spells
  exact ⟨htokenize.of_located (Analysis.tokenize_located hspells name w),
    hparse.of_located (Analysis.parse_located hspells rfl name w)⟩

/-- A carriage return that the line shown does not have any more, and a byte that starts no character, read
in pieces up to a failure. -/
theorem snippets_show_place_of_carriage_return :
    (({} : TextStyle).showSource = true ∧
      (Problem.unexpectedCharacter '\r').diagnose ⟨3⟩ ∈
        (parseText "unit" "1;\r\n\ufffd 2\r\n" 8).diagnostics ∧
      ∃ before after row, ((Problem.unexpectedCharacter '\r').diagnose ⟨3⟩).ShownAt "unit"
        "1;\r\n\ufffd 2\r\n" 8 {} (parseText "unit" "1;\r\n\ufffd 2\r\n" 8).lines
        before after row) ∧
    (Delivers [.bytes [0x31, 0x3B, 0x0D, 0x0A, 0xFF], .interrupted, .bytes [0x20, 0x32, 0x0D, 0x0A],
        .failed "gone"] [0x31, 0x3B, 0x0D, 0x0A, 0xFF, 0x20, 0x32, 0x0D, 0x0A] (some "gone") ∧
      "1;\r\n\ufffd 2\r\n".toList =
        Utf8.decodeLossy [0x31, 0x3B, 0x0D, 0x0A, 0xFF, 0x20, 0x32, 0x0D, 0x0A] ∧
      (Problem.unexpectedCharacter '\ufffd').diagnose ⟨5⟩ ∈ (parseReader "unit"
        { reads := [.bytes [0x31, 0x3B, 0x0D, 0x0A, 0xFF], .interrupted, .bytes [0x20, 0x32, 0x0D, 0x0A],
          .failed "gone"] } 8).diagnostics ∧
      ∃ before after row, ((Problem.unexpectedCharacter '\ufffd').diagnose ⟨5⟩).ShownAt "unit"
        "1;\r\n\ufffd 2\r\n" 8 {} (parseReader "unit"
          { reads := [.bytes [0x31, 0x3B, 0x0D, 0x0A, 0xFF], .interrupted,
            .bytes [0x20, 0x32, 0x0D, 0x0A], .failed "gone"] } 8).lines before after row) := by
  have hreads : Delivers [.bytes [0x31, 0x3B, 0x0D, 0x0A, 0xFF], .interrupted,
      .bytes [0x20, 0x32, 0x0D, 0x0A], .failed "gone"]
      [0x31, 0x3B, 0x0D, 0x0A, 0xFF, 0x20, 0x32, 0x0D, 0x0A] (some "gone") :=
    .piece (List.cons_ne_nil _ _) (.interrupted (.piece (List.cons_ne_nil _ _) (.failed "gone" [])))
  have htext : "1;\r\n\ufffd 2\r\n".toList =
      Utf8.decodeLossy [0x31, 0x3B, 0x0D, 0x0A, 0xFF, 0x20, 0x32, 0x0D, 0x0A] := by decide +kernel
  have hmem : (Problem.unexpectedCharacter '\r').diagnose ⟨3⟩ ∈
      (parseText "unit" "1;\r\n\ufffd 2\r\n" 8).diagnostics := by decide +kernel
  have hmem' : (Problem.unexpectedCharacter '\ufffd').diagnose ⟨5⟩ ∈ (parseReader "unit"
      { reads := [.bytes [0x31, 0x3B, 0x0D, 0x0A, 0xFF], .interrupted, .bytes [0x20, 0x32, 0x0D, 0x0A],
        .failed "gone"] } 8).diagnostics := by decide +kernel
  obtain ⟨-, hparse, hreader⟩ := snippets_show_place "unit" "1;\r\n\ufffd 2\r\n" 8 {} rfl
  exact ⟨⟨rfl, hmem, hparse _ hmem rfl (by decide)⟩, hreads, htext, hmem',
    (hreader _ _ _ hreads htext).2 _ hmem' rfl (by decide)⟩

end SwiftDialect
