import SwiftDialect.Proofs.Reading

/-!
# Exact positions

The line table that a text leaves behind expands every location to the line and column that the
characters before it come to. Main statement: as long as the counters hold, this is so for all tokens
and for all that is reported, and locations increase strictly.
-/

namespace SwiftDialect

variable {w : Nat} {before mid after segments : List Segment} {segment : Segment}

/-- The position of what follows the segments. -/
def positionAfter (w : Nat) (segments : List Segment) : Position where
  line := lineAt (trace w segments)
  column := columnAt (trace w segments)

/-! ### How much the cells take -/

theorem breadth_le {cells : List Cell} {m : Nat} (h : ∀ cell ∈ cells, cell.width ≤ m) :
    breadth cells ≤ cells.length * m := by
  induction cells with
  | nil => exact Nat.zero_le _
  | cons cell cells ih =>
    obtain ⟨hcell, hcells⟩ := List.forall_mem_cons.1 h
    have hrest := ih hcells
    rw [breadth, List.length_cons, Nat.succ_mul]
    omega

theorem Segment.width_cells (w : Nat) (segment : Segment) :
    ∀ cell ∈ segment.cells w, cell.width = 1 ∨ cell.char = '\t' ∧ cell.width = w := by
  intro cell hcell
  cases segment with
  | blank c =>
    rw [List.mem_singleton.1 hcell]
    by_cases hc : c = '\t'
    · exact .inr ⟨hc, if_pos hc⟩
    · exact .inl (if_neg hc)
  | _ =>
    obtain ⟨c, -, rfl⟩ := List.mem_map.1 hcell
    exact .inl rfl

theorem width_trace : ∀ cell ∈ trace w segments,
    cell.width = 1 ∨ cell.char = '\t' ∧ cell.width = w := by
  intro cell hcell
  obtain ⟨segment, -, hmem⟩ := List.mem_flatMap.1 (List.mem_reverse.1 hcell)
  exact segment.width_cells w cell hmem

theorem proper_trace : Proper (trace w segments) := by
  intro cell hcell hnew
  rcases width_trace cell hcell with hone | ⟨htab, -⟩
  · exact hone
  · exact absurd (hnew.symm.trans htab) (by decide)

theorem map_char_trace (w : Nat) (segments : List Segment) :
    (trace w segments).map Cell.char = (segments.flatMap Segment.chars).reverse := by
  rw [trace, List.map_reverse, List.map_flatMap]
  simp only [Segment.map_char_cells]

/-- If the counters can hold the text, then they hold the handle after it. -/
theorem handleAt_trace_le {cs : List Char} (h : IsSegmentation cs segments)
    (hbound : 1 + cs.length * max 1 w ≤ counterLimit) :
    handleAt (trace w segments) ≤ counterLimit := by
  have hwidth : ∀ cell ∈ trace w segments, cell.width ≤ max 1 w := by
    intro cell hcell
    rcases width_trace cell hcell with hone | ⟨-, htab⟩ <;> omega
  have hlength : (trace w segments).length = cs.length := by
    rw [← List.length_map Cell.char, map_char_trace, h.chars, List.length_reverse]
  have hbreadth := breadth_le hwidth
  rw [hlength] at hbreadth
  rw [handleAt]
  omega

/-! ### Positions of places -/

/-- A place between segments is expanded to its position by a line table that has come past it. -/
theorem expand_placeAfter {name : String} {t : LineTable} (hfiles : t.files = [name])
    (ht : t.starts = startsAt (trace w (before ++ after)))
    (hlimit : handleAt (trace w before) < counterLimit ∨
      handleAt (trace w (before ++ after)) ≤ counterLimit) :
    t.expand (placeAfter w before) = some ⟨name, positionAfter w before⟩ := by
  have hproper : Proper (trace w (before ++ after)) := proper_trace
  rw [trace_append] at ht hlimit hproper
  have hle : handleAt (trace w before) ≤ counterLimit := by
    rw [handleAt_append] at hlimit
    omega
  rw [placeAfter, capped_of_le hle]
  exact expand_handleAt hfiles ht hproper hlimit

theorem mem_splits {p : List Segment × Segment} {ahead : List Segment} :
    p ∈ splits before ahead → ∃ mid after, ahead = mid ++ p.2 :: after ∧ p.1 = before ++ mid := by
  induction ahead generalizing before with
  | nil => exact fun h => absurd h List.not_mem_nil
  | cons segment ahead ih =>
    intro h
    rcases List.mem_cons.1 h with rfl | h
    · exact ⟨[], ahead, rfl, (List.append_nil _).symm⟩
    · obtain ⟨mid, after, rfl, hp⟩ := ih h
      exact ⟨segment :: mid, after, rfl, by rw [hp, List.append_assoc]; rfl⟩

theorem pairwise_splits (before ahead : List Segment) : (splits before ahead).Pairwise fun p q =>
    ∃ mid after, before ++ ahead = p.1 ++ p.2 :: (mid ++ q.2 :: after) ∧ q.1 = p.1 ++ p.2 :: mid := by
  induction ahead generalizing before with
  | nil => exact .nil
  | cons segment ahead ih =>
    refine .cons (fun q hq => ?_) ?_
    · obtain ⟨mid, after, rfl, hfst⟩ := mem_splits hq
      exact ⟨mid, after, rfl, by rw [hfst, List.append_assoc]; rfl⟩
    · have hrest := ih (before ++ [segment])
      rwa [List.append_assoc] at hrest

/-! ### The order of places -/

theorem handleAt_trace_append (w : Nat) (before after : List Segment) :
    handleAt (trace w (before ++ after)) = handleAt (trace w before) + breadth (trace w after) := by
  rw [trace_append, handleAt_append]

theorem handleAt_lt_of_cons (h : 0 < breadth (segment.cells w)) :
    handleAt (trace w before) < handleAt (trace w (before ++ segment :: after)) := by
  have hsplit := trace_append w [segment] after
  rw [List.singleton_append] at hsplit
  have hone : breadth (trace w [segment]) = breadth (segment.cells w) := by
    rw [trace, List.flatMap_singleton, breadth_reverse]
  rw [handleAt_trace_append, hsplit, breadth_append, hone]
  omega

/-- Every segment takes a column, unless it is a blank. -/
theorem Segment.Stands.breadth_pos {rest : List Char} (h : segment.Stands rest)
    (hne : ∀ c, segment ≠ .blank c) : 0 < breadth (segment.cells w) := by
  obtain ⟨c, cs, hchars⟩ := h.exists_cons
  rw [breadth_cells hne, hchars]
  exact Nat.succ_pos _

theorem Segment.ne_blank_of_lexeme {x : Lexeme} (h : segment.lexeme? = some x) :
    ∀ c, segment ≠ .blank c := by
  rintro c rfl
  cases h

theorem Segment.ne_blank_of_problem {p : Problem} (h : segment.problem? = some p) :
    ∀ c, segment ≠ .blank c := by
  rintro c rfl
  cases h

/-- What cuts an unended string off is a line end. -/
theorem Segment.Stands.eq_newline {text rest rest' : List Char}
    (hstring : (string text false).Stands (segment.chars ++ rest)) (h : segment.Stands rest') :
    segment = .blank '\n' := by
  refine Decidable.byContradiction fun hne => ?_
  obtain ⟨c, cs, hchars⟩ := h.exists_cons
  have hc : c = '\n' := hstring.2 rfl c (by rw [hchars]; rfl)
  refine h.newline_notMem hne ?_
  rw [hchars, hc]
  exact List.mem_cons_self

theorem handleAt_le_leading (w : Nat) (before : List Segment) (segment : Segment) :
    handleAt (trace w before) ≤ handleAt (trace w (segment.leading before)) := by
  unfold Segment.leading
  split
  · rw [handleAt_trace_append]
    exact Nat.le_add_right _ _
  · exact Nat.le_refl _

/-- Problems show one after the other. -/
theorem IsSegmentation.leading_lt {cs : List Char} {x y : Segment}
    (h : IsSegmentation cs (before ++ x :: (mid ++ y :: after))) {p q : Problem}
    (hx : x.problem? = some p) (hy : y.problem? = some q) :
    handleAt (trace w (x.leading before)) <
      handleAt (trace w (y.leading (before ++ x :: mid))) := by
  refine Nat.lt_of_lt_of_le ?_ (handleAt_le_leading w _ y)
  have hxs := h.stands before x _ rfl
  cases x with
  | unrecognised c => exact handleAt_lt_of_cons (hxs.breadth_pos (Segment.ne_blank_of_problem hx))
  | string text closed =>
    obtain rfl : closed = false := by
      cases closed
      · rfl
      · cases hx
    -- a line end stands between the string and the next problem
    cases mid with
    | nil =>
      have hys := h.stands (before ++ [.string text false]) y after (by simp)
      rw [List.nil_append, List.flatMap_cons] at hxs
      rw [hxs.eq_newline hys] at hy
      cases hy
    | cons z mid =>
      have hzs := h.stands (before ++ [.string text false]) z (mid ++ y :: after) (by simp)
      rw [List.cons_append, List.flatMap_cons] at hxs
      have hnew : 0 < breadth (Segment.cells w (.blank '\n')) := Nat.one_pos
      rw [hxs.eq_newline hzs, List.append_cons before, Segment.leading]
      exact handleAt_lt_of_cons hnew
  | _ => cases hx

/-! ### Everything at its place -/

/-- The number that stands for the place of a diagnostic; zero if it has none. -/
def Diagnostic.handle (d : Diagnostic) : Nat :=
  (d.location.getD .unknown).handle

theorem Segment.exists_leading (before after : List Segment) (segment : Segment) :
    ∃ rest, before ++ segment :: after = segment.leading before ++ rest := by
  unfold leading
  split
  · exact ⟨after, by simp⟩
  · exact ⟨_, rfl⟩

/-- The counters have room for the whole text. -/
def HasRoom (w : Nat) (segments : List Segment) : Prop :=
  handleAt (trace w segments) ≤ counterLimit

theorem HasRoom.handle_placeAfter (h : HasRoom w (before ++ after)) :
    (placeAfter w before).handle = handleAt (trace w before) := by
  rw [HasRoom, handleAt_trace_append] at h
  exact capped_of_le (by omega)

/-- If no token is at the limit, then the counters have room. -/
theorem hasRoom_of_tokens
    (h : ∀ t ∈ (pulls w [] segments).map Pull.token, t.location.handle < counterLimit) :
    HasRoom w segments := by
  have hend : capped (handleAt (trace w segments)) < counterLimit :=
    h (endLexeme.token (placeAfter w segments)) (by rw [map_token_pulls]; simp)
  rw [capped] at hend
  rw [HasRoom]
  omega

/-- The tokens of a text increase strictly. -/
theorem HasRoom.pairwise_tokens {cs : List Char} (h : HasRoom w segments)
    (hseg : IsSegmentation cs segments) : ((pulls w [] segments).map Pull.token).Pairwise
      (fun t u => t.location.handle < u.location.handle) := by
  rw [map_token_pulls, List.pairwise_append]
  refine ⟨?_, List.pairwise_singleton _ _, ?_⟩
  · rw [List.pairwise_filterMap]
    refine (pairwise_splits [] segments).imp ?_
    rintro p q ⟨mid, after, heq, hq⟩ t ht u hu
    obtain ⟨x, hx, rfl⟩ := Option.map_eq_some_iff.1 ht
    obtain ⟨y, -, rfl⟩ := Option.map_eq_some_iff.1 hu
    obtain rfl : segments = p.1 ++ p.2 :: (mid ++ q.2 :: after) := heq
    have hpos := (hseg.stands p.1 p.2 _ rfl).breadth_pos (w := w) (Segment.ne_blank_of_lexeme hx)
    have hroom : HasRoom w ((p.1 ++ p.2 :: mid) ++ q.2 :: after) := by simpa using h
    show (placeAfter w p.1).handle < (placeAfter w q.1).handle
    rw [hq, h.handle_placeAfter, hroom.handle_placeAfter]
    exact handleAt_lt_of_cons hpos
  · -- the end comes behind every segment
    intro t ht u hu
    obtain ⟨p, hp, hpt⟩ := List.mem_filterMap.1 ht
    obtain ⟨x, hx, rfl⟩ := Option.map_eq_some_iff.1 hpt
    obtain ⟨mid, after, rfl, hmid⟩ := mem_splits hp
    have hpos := (hseg.stands mid p.2 _ rfl).breadth_pos (w := w) (Segment.ne_blank_of_lexeme hx)
    have hroom : HasRoom w ((mid ++ p.2 :: after) ++ []) := by simpa using h
    rw [List.mem_singleton.1 hu]
    show (placeAfter w p.1).handle < (placeAfter w (mid ++ p.2 :: after)).handle
    rw [hmid, List.nil_append, h.handle_placeAfter, hroom.handle_placeAfter]
    exact handleAt_lt_of_cons hpos

/-- What is reported about a text comes in strictly increasing places. -/
theorem HasRoom.pairwise_reports {cs : List Char} (h : HasRoom w segments)
    (hseg : IsSegmentation cs segments) : ((pulls w [] segments).flatMap Pull.reports).Pairwise
      (fun d e => d.handle < e.handle) := by
  rw [flatMap_reports_pulls, List.pairwise_filterMap]
  refine (pairwise_splits [] segments).imp ?_
  rintro p q ⟨mid, after, heq, hq⟩ d hd e he
  obtain ⟨x, hx, rfl⟩ := Option.map_eq_some_iff.1 hd
  obtain ⟨y, hy, rfl⟩ := Option.map_eq_some_iff.1 he
  obtain rfl : segments = p.1 ++ p.2 :: (mid ++ q.2 :: after) := heq
  obtain ⟨rest, hrest⟩ := Segment.exists_leading p.1 (mid ++ q.2 :: after) p.2
  obtain ⟨rest', hrest'⟩ := Segment.exists_leading (p.1 ++ p.2 :: mid) after q.2
  have hroom : HasRoom w ((p.1 ++ p.2 :: mid) ++ q.2 :: after) := by simpa using h
  have hlt := hseg.leading_lt (w := w) hx hy
  rw [hrest] at h
  rw [hrest'] at hroom
  show (placeAfter w (p.2.leading p.1)).handle < (placeAfter w (q.2.leading q.1)).handle
  rw [hq, h.handle_placeAfter, hroom.handle_placeAfter]
  exact hlt

/-- As long as the counters can hold the text, every token and everything that is reported is at the
line and column that the characters before it come to, and the locations increase strictly. An unended
string is reported where it is cut off. -/
theorem positions_exact (name text : String) (w : Nat) (h : 1 + text.length * max 1 w < 2 ^ 32) :
    ∃ segments, IsSegmentation text.toList segments ∧
      (tokenizeText name text w).tokens.map
          (fun t => (t.lexeme, (tokenizeText name text w).lines.expand t.location)) =
        (splits [] segments).filterMap
          (fun p => p.2.lexeme?.map (·, some ⟨name, positionAfter w p.1⟩)) ++
          [(⟨.endOfFile, ""⟩, some ⟨name, positionAfter w segments⟩)] ∧
      (tokenizeText name text w).diagnostics.map
          (fun d => (d.unplaced, d.location.bind (tokenizeText name text w).lines.expand)) =
        (splits [] segments).filterMap (fun p => p.2.problem?.map fun q =>
          (q.draft.build, some ⟨name, positionAfter w (p.2.leading p.1)⟩)) ∧
      (tokenizeText name text w).tokens.Pairwise (fun t u => t.location.handle < u.location.handle) ∧
      (tokenizeText name text w).diagnostics.Pairwise (fun d e => d.handle < e.handle) ∧
      (tokenizeText name text w).lines.lineCount = 1 + text.toList.count '\n' := by
  obtain ⟨segments, hseg⟩ := exists_segmentation text.toList
  obtain ⟨htokens, hdiagnostics, hfiles, hstarts⟩ := tokenizeText_eq name w hseg
  have hroom : HasRoom w segments := by
    refine handleAt_trace_le hseg ?_
    rw [String.length_toList, counterLimit]
    omega
  -- the table has come past every place between two segments, and leads back from it
  have hexpand : ∀ {before after : List Segment}, segments = before ++ after →
      (tokenizeText name text w).lines.expand (placeAfter w before) =
        some ⟨name, positionAfter w before⟩ := by
    rintro before after rfl
    exact expand_placeAfter hfiles hstarts (.inr hroom)
  refine ⟨segments, hseg, ?_, ?_, ?_, ?_, ?_⟩
  · rw [htokens, map_token_pulls, List.map_append, List.map_filterMap]
    congr 1
    · refine List.filterMap_congr fun p hp => ?_
      obtain ⟨mid, after, heq, hmid⟩ := mem_splits hp
      rw [Option.map_map, hmid]
      congr 1
      funext x
      simp only [Function.comp_apply, Lexeme.lexeme_token]
      exact congrArg (Prod.mk x) (hexpand heq)
    · simp only [List.map_singleton, Lexeme.lexeme_token]
      exact congrArg (fun e => [(endLexeme, e)]) (hexpand (List.append_nil _).symm)
  · rw [hdiagnostics, flatMap_reports_pulls, List.map_filterMap]
    refine List.filterMap_congr fun p hp => ?_
    obtain ⟨mid, after, heq, hmid⟩ := mem_splits hp
    obtain ⟨rest, hrest⟩ := Segment.exists_leading mid after p.2
    rw [Segment.diagnostic?, Option.map_map, hmid]
    congr 1
    funext q
    exact congrArg (Prod.mk q.draft.build) (hexpand (heq.trans hrest))
  · rw [htokens]
    exact hroom.pairwise_tokens hseg
  · rw [hdiagnostics]
    exact hroom.pairwise_reports hseg
  · have hcount := congrArg (List.count '\n') (map_char_trace w segments)
    rw [hseg.chars, List.count_reverse, List.count, List.countP_map] at hcount
    rw [LineTable.lineCount, hstarts, length_startsAt]
    exact congrArg (1 + ·) hcount

/-- A tab between lexemes and one within a string, which a line end cuts off. -/
theorem positions_exact_of_tabs : 1 + "a\t\"b\tc\n @ d".length * max 1 4 < 2 ^ 32 ∧
    ∃ segments, IsSegmentation "a\t\"b\tc\n @ d".toList segments ∧
      (tokenizeText "unit" "a\t\"b\tc\n @ d" 4).tokens.map (fun t =>
          (t.lexeme, (tokenizeText "unit" "a\t\"b\tc\n @ d" 4).lines.expand t.location)) =
        (splits [] segments).filterMap
          (fun p => p.2.lexeme?.map (·, some ⟨"unit", positionAfter 4 p.1⟩)) ++
          [(⟨.endOfFile, ""⟩, some ⟨"unit", positionAfter 4 segments⟩)] ∧
      (tokenizeText "unit" "a\t\"b\tc\n @ d" 4).lines.lineCount = 2 := by
  have hroom : 1 + "a\t\"b\tc\n @ d".length * max 1 4 < 2 ^ 32 := by decide
  obtain ⟨segments, hseg, htokens, -, -, -, hlines⟩ :=
    positions_exact "unit" "a\t\"b\tc\n @ d" 4 hroom
  exact ⟨hroom, segments, hseg, htokens, hlines⟩

example : (tokenizeText "unit" "a\t\"b\tc\n @ d" 4).tokens.map (fun t =>
      ((tokenizeText "unit" "a\t\"b\tc\n @ d" 4).lines.expand t.location).map (·.position)) =
    [some ⟨1, 1⟩, some ⟨1, 6⟩, some ⟨2, 4⟩, some ⟨2, 5⟩] := by decide +kernel

end SwiftDialect
