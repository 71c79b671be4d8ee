import SwiftDialect.Proofs.Extension
import SwiftDialect.Proofs.Unplaced

/-!
# Layout has no bearing on what a text means

Blanks and comments can be put into a text wherever the scanner looks for the next token. The segments of the
text stay, apart from a comment that may grow: each of them ends before a blank or a comment, unless it goes
on to the end of its line. Blanks and comments are no lexemes, and nothing is wrong with them, so the tokens
and the reports between them differ in their places only. Neither the name of the text nor the columns that a
tab takes have any part in that.

Main statement: a text with more layout, under another name and with tabs of another width, comes to the same
program and the same diagnostics, places apart (`layout_irrelevant`).
-/

namespace SwiftDialect

/-! ### Blanks and comments -/

/-- Spaces, tabs, line ends, and comments that a line end follows. -/
inductive IsTrivia : List Char → Prop where
  | nil : IsTrivia []
  | blank {c : Char} {t : List Char} (hc : c = ' ' ∨ c = '\t' ∨ c = '\n') (h : IsTrivia t) :
      IsTrivia (c :: t)
  | comment {text t : List Char} (htext : '\n' ∉ text) (h : IsTrivia t) :
      IsTrivia ('#' :: (text ++ '\n' :: t))

/-- Is the segment a blank or a comment? -/
def Segment.isLayout : Segment → Bool
  | .blank _ | .comment _ => true
  | _ => false

namespace IsTrivia

variable {t : List Char}

theorem head_mem (h : IsTrivia t) : ∀ c ∈ t.head?, c ∈ layoutStarts := by
  rcases h with _ | ⟨rfl | rfl | rfl, _⟩ | _
  · simp
  all_goals simp [layoutStarts]

/-- The segments of trivia, whatever follows. -/
theorem exists_segments (h : IsTrivia t) : ∃ gs : List Segment, (∀ g ∈ gs, g.isLayout) ∧
    ∀ {rest : List Char} {ys : List Segment}, IsSegmentation rest ys →
      IsSegmentation (t ++ rest) (gs ++ ys) := by
  induction h with
  | nil => exact ⟨[], by simp, fun h => h⟩
  | @blank c t hc _ ih =>
    obtain ⟨gs, hgs, hall⟩ := ih
    exact ⟨.blank c :: gs, by simpa [Segment.isLayout] using hgs,
      fun h => isSegmentation_cons.2 ⟨_, rfl, hc, hall h⟩⟩
  | @comment text t htext _ ih =>
    obtain ⟨gs, hgs, hall⟩ := ih
    refine ⟨.comment text :: .blank '\n' :: gs, by simpa [Segment.isLayout] using hgs,
      fun {rest ys} h => ?_⟩
    -- a comment goes up to its line feed, which is a blank of its own
    have hline : IsSegmentation ('\n' :: (t ++ rest)) (.blank '\n' :: (gs ++ ys)) :=
      isSegmentation_cons.2 ⟨_, rfl, .inr (.inr rfl), hall h⟩
    exact isSegmentation_cons.2 ⟨'\n' :: (t ++ rest), by simp [Segment.chars],
      ⟨htext, fun c hc => (Option.some.inj hc).symm⟩, hline⟩

/-- The rest of the first line, and the trivia on the lines after it. -/
theorem exists_line (h : IsTrivia t) : ∃ u v, t = u ++ v ∧ '\n' ∉ u ∧ IsTrivia v ∧
    ∀ c ∈ v.head?, c = '\n' := by
  induction h with
  | nil => exact ⟨[], [], rfl, List.not_mem_nil, .nil, by simp⟩
  | @blank c t hc h ih =>
    by_cases hline : c = '\n'
    · exact ⟨[], c :: t, rfl, List.not_mem_nil, .blank hc h, fun d hd => Option.some.inj hd ▸ hline⟩
    · obtain ⟨u, v, rfl, hu, hv⟩ := ih
      refine ⟨c :: u, v, rfl, ?_, hv⟩
      simpa [hu] using Ne.symm hline
  | @comment text t htext h _ =>
    refine ⟨'#' :: text, '\n' :: t, rfl, ?_, .blank (.inr (.inr rfl)) h,
      fun d hd => (Option.some.inj hd).symm⟩
    simpa using htext

end IsTrivia

/-! ### Putting layout into a text -/

/-- The segments that are no layout. -/
def visible (segments : List Segment) : List Segment :=
  segments.filter (!·.isLayout)

theorem visible_cons (segment : Segment) (segments : List Segment) :
    visible (segment :: segments) =
      if segment.isLayout then visible segments else segment :: visible segments := by
  cases h : segment.isLayout <;> simp [visible, h]

theorem visible_append (xs ys : List Segment) : visible (xs ++ ys) = visible xs ++ visible ys :=
  List.filter_append ..

theorem visible_layout {gs : List Segment} (h : ∀ g ∈ gs, g.isLayout) : visible gs = [] :=
  List.filter_eq_nil_iff.2 fun g hg => by simp [h g hg]

/-- A comment grows by the rest of its line. -/
theorem IsSegmentation.exists_padded_comment {xs after : List Segment} {text t b : List Char}
    (h : IsSegmentation (xs.flatMap Segment.chars ++ ('#' :: text ++ b)) (xs ++ .comment text :: after))
    (ht : IsTrivia t) : ∃ segments,
      IsSegmentation (xs.flatMap Segment.chars ++ ('#' :: text ++ (t ++ b))) segments ∧
        visible segments = visible (xs ++ .comment text :: after) := by
  obtain ⟨rest, hrest, ⟨htext, hhead⟩, hafter⟩ := isSegmentation_cons.1 h.drop
  obtain rfl : b = rest := List.append_cancel_left hrest
  obtain ⟨u, v, rfl, hu, hv, hline⟩ := ht.exists_line
  obtain ⟨gs, hgs, hall⟩ := hv.exists_segments
  have hgrown : IsSegmentation ('#' :: text ++ (u ++ v ++ b)) (.comment (text ++ u) :: (gs ++ after)) := by
    refine isSegmentation_cons.2 ⟨v ++ b, by simp [Segment.chars], ⟨by simp [htext, hu], ?_⟩, hall hafter⟩
    -- the comment still ends at a line feed, or where it ended before
    cases v with
    | nil => exact hhead
    | cons c v => exact hline
  refine ⟨_, h.extend (fun segment _ hstands => hstands.congr_head rfl) hgrown, ?_⟩
  simp [visible_append, visible_cons, visible_layout hgs, Segment.isLayout]

/-- Trivia can be put behind any segment that is not a string without its closing quote. -/
theorem IsSegmentation.exists_padded {before after : List Segment} {t b : List Char}
    (h : IsSegmentation (before.flatMap Segment.chars ++ b) (before ++ after)) (ht : IsTrivia t)
    (hclosed : ∀ text, before.getLast? ≠ some (.string text false)) :
    ∃ segments, IsSegmentation (before.flatMap Segment.chars ++ (t ++ b)) segments ∧
      visible segments = visible (before ++ after) := by
  by_cases hcomment : ∃ text, before.getLast? = some (.comment text)
  · obtain ⟨text, hlast⟩ := hcomment
    obtain ⟨xs, rfl⟩ := List.getLast?_eq_some_iff.1 hlast
    have hchars : (xs ++ [Segment.comment text]).flatMap Segment.chars =
        xs.flatMap Segment.chars ++ '#' :: text := by simp [Segment.chars]
    simp only [hchars, List.append_assoc] at h ⊢
    exact h.exists_padded_comment ht
  · -- no other segment takes in anything of the trivia
    obtain ⟨gs, hgs, hall⟩ := ht.exists_segments
    refine ⟨before ++ (gs ++ after), h.extend (fun segment hsegment hstands => ?_) (hall h.drop), ?_⟩
    · have hlasts : segment.lasts = false := by
        cases segment with
        | comment text => exact absurd ⟨text, hsegment⟩ hcomment
        | string text closed =>
          cases closed with
          | false => exact absurd hsegment (hclosed text)
          | true => rfl
        | _ => rfl
      cases t with
      | nil => exact hstands
      | cons c t => exact hstands.before_layout (ht.head_mem c rfl) (by simp [hlasts]) _
    · simp [visible_append, visible_layout hgs]

/-! ### Pulls without their places -/

theorem Segment.unplaced_diagnostic? (segment : Segment) (w : Nat) (before : List Segment) :
    (segment.diagnostic? w before).toList.map Diagnostic.unplaced =
      (segment.problem?.map (·.draft.build)).toList := by
  rw [diagnostic?]
  cases segment.problem? <;> rfl

theorem Pull.map_unplaced_after (ds : List Diagnostic) (ps : List Pull) :
    (after ds ps).map unplaced = after (ds.map Diagnostic.unplaced) (ps.map unplaced) := by
  cases ps with
  | nil => rfl
  | cons p ps => simp [after, unplaced]

/-- The pulls depend on the visible segments alone, places apart. -/
theorem unplaced_pulls (w w' : Nat) (before before' ahead : List Segment) :
    (pulls w before ahead).map Pull.unplaced = (pulls w' before' (visible ahead)).map Pull.unplaced := by
  induction ahead generalizing before before' with
  | nil => rfl
  | cons segment ahead ih =>
    by_cases hlayout : segment.isLayout
    · -- layout gives neither a token nor a report
      have hquiet : segment.lexeme? = none ∧ segment.problem? = none := by
        cases segment <;> first | exact ⟨rfl, rfl⟩ | cases hlayout
      rw [pulls, hquiet.1, visible_cons, if_pos hlayout]
      simp only [Pull.map_unplaced_after, Segment.unplaced_diagnostic?, hquiet.2, Option.map_none,
        Option.toList_none, Pull.after_nil]
      exact ih _ _
    · rw [visible_cons, if_neg hlayout, pulls, pulls]
      cases segment.lexeme? with
      | none =>
        simp only [Pull.map_unplaced_after, Segment.unplaced_diagnostic?]
        rw [ih]
      | some x =>
        simp only [List.map_cons, Pull.unplaced, Segment.unplaced_diagnostic?]
        rw [← ih]
        rfl

/-! ### Where the scanner looks for the next token -/

/-- The scanner after some steps. -/
def Scanner.afterSteps {σ : Type} [CharSource σ] (s : Scanner σ) : Nat → Scanner σ
  | 0 => s
  | n + 1 => s.step.2.afterSteps n

/-- When the text is scanned, the scanner comes to look for the next token where these characters are
left. -/
def PausesBefore (name : String) (w : Nat) (text left : List Char) : Prop :=
  ∃ n, ((Scanner.start name text w .empty).afterSteps n).chars.Spells left

/-- If `b` comes after `a`, then `a` ends in a string literal without its closing quote: the scanner starts
on the quote, and neither another quote nor a line end follows in `a`. -/
def EndsInOpenString (name : String) (w : Nat) (a b : List Char) : Prop :=
  ∃ p q, a = p ++ '"' :: q ∧ '"' ∉ q ∧ '\n' ∉ q ∧ PausesBefore name w (a ++ b) ('"' :: q ++ b)

namespace Scanner

variable {σ : Type} [CharSource σ] {s : Scanner σ} {name : String} {w : Nat} {before ahead : List Segment}

/-- After some steps the scanner faces the segments that it has not come past. -/
theorem Faces.afterSteps (n : Nat) (h : s.Faces name w before ahead) :
    (s.afterSteps n).Faces name w (before ++ ahead.take n) (ahead.drop n) := by
  induction n generalizing s before ahead with
  | zero => simpa [Scanner.afterSteps] using h
  | succ n ih =>
    cases ahead with
    | nil => simpa [Scanner.afterSteps] using ih h.step_nil.2.1
    | cons segment ahead => simpa [Scanner.afterSteps] using ih h.step_cons.2.1

end Scanner

/-- The scanner looks for the next token between segments. -/
theorem pausesBefore_iff {text left : List Char} {segments : List Segment}
    (h : IsSegmentation text segments) (name : String) (w : Nat) : PausesBefore name w text left ↔
      ∃ before after, segments = before ++ after ∧ after.flatMap Segment.chars = left := by
  have hfaces (n : Nat) :=
    (Scanner.faces_start name w h (Lookahead.spells_text _) .empty).afterSteps n
  constructor
  · rintro ⟨n, hn⟩
    exact ⟨_, _, (List.take_append_drop n segments).symm, (hfaces n).chars.unique hn⟩
  · rintro ⟨before, after, rfl, rfl⟩
    refine ⟨before.length, ?_⟩
    simpa using (hfaces before.length).chars

/-- Trivia put into a text where the scanner looks for the next token, but not behind a string literal
without its closing quote, change the places only; nor does anything else depend on the name of the text
or on the columns that a tab takes. -/
theorem layout_irrelevant (a t b name name' : String) (w w' : Nat) (ht : IsTrivia t.toList)
    (hpause : PausesBefore name w (a ++ b).toList b.toList)
    (hclosed : ¬ EndsInOpenString name w a.toList b.toList) :
    (parseText name' (a ++ t ++ b) w').program.map Program.erase =
        (parseText name (a ++ b) w).program.map Program.erase ∧
      (parseText name' (a ++ t ++ b) w').diagnostics.map Diagnostic.unplaced =
        (parseText name (a ++ b) w).diagnostics.map Diagnostic.unplaced := by
  obtain ⟨segments, hseg⟩ := exists_segmentation (a ++ b).toList
  obtain ⟨before, after, rfl, hafter⟩ := (pausesBefore_iff hseg name w).1 hpause
  have hbefore : before.flatMap Segment.chars = a.toList := by
    have hchars := hseg.chars
    rw [List.flatMap_append, hafter, String.toList_append] at hchars
    exact List.append_cancel_right hchars
  -- the last segment is no string that lacks its closing quote, or the scanner would pause before it
  have hlast : ∀ text, before.getLast? ≠ some (.string text false) := by
    rintro text hlast
    obtain ⟨xs, rfl⟩ := List.getLast?_eq_some_iff.1 hlast
    have hstands := hseg.stands xs (.string text false) after (by simp)
    refine hclosed ⟨xs.flatMap Segment.chars, text, by simp [← hbefore, Segment.chars], ?_, ?_, ?_⟩
    · exact fun hmem => (hstands.1 _ hmem).1 rfl
    · exact fun hmem => (hstands.1 _ hmem).2 rfl
    · rw [← String.toList_append]
      refine (pausesBefore_iff hseg name w).2 ⟨xs, .string text false :: after, by simp, ?_⟩
      simp [Segment.chars, hafter]
  have hsplit := hseg
  rw [String.toList_append, ← hbefore] at hsplit
  obtain ⟨segments', hseg', hvisible⟩ := hsplit.exists_padded ht hlast
  rw [hbefore, ← List.append_assoc, ← String.toList_append, ← String.toList_append] at hseg'
  refine parseText_congr name name' hseg hseg' ?_
  rw [unplaced_pulls w' w [] [] segments', hvisible, ← unplaced_pulls w w [] []]

/-- A comment that grows, with tabs that take it beyond the last column. -/
theorem layout_irrelevant_behind_comment :
    IsTrivia " \t# twice\n\t".toList ∧
      PausesBefore "unit" 8 ("let x: Int32; x # name" ++ "\n@ + x;").toList "\n@ + x;".toList ∧
      ¬ EndsInOpenString "unit" 8 "let x: Int32; x # name".toList "\n@ + x;".toList ∧
      (parseText "unit" ("let x: Int32; x # name" ++ "\n@ + x;") 8).program.isSome ∧
      (parseText "unit" ("let x: Int32; x # name" ++ "\n@ + x;") 8).diagnostics.length = 1 ∧
      (parseText "copy" ("let x: Int32; x # name" ++ " \t# twice\n\t" ++ "\n@ + x;") 4294967295).program.map
          Program.erase =
        (parseText "unit" ("let x: Int32; x # name" ++ "\n@ + x;") 8).program.map Program.erase ∧
      (parseText "copy" ("let x: Int32; x # name" ++ " \t# twice\n\t" ++ "\n@ + x;")
          4294967295).diagnostics.map Diagnostic.unplaced =
        (parseText "unit" ("let x: Int32; x # name" ++ "\n@ + x;") 8).diagnostics.map
          Diagnostic.unplaced := by
  have htrivia : IsTrivia " \t# twice\n\t".toList :=
    .blank (.inl rfl) (.blank (.inr (.inl rfl))
      (@IsTrivia.comment " twice".toList _ (by decide) (.blank (.inr (.inl rfl)) .nil)))
  have hpause : PausesBefore "unit" 8 ("let x: Int32; x # name" ++ "\n@ + x;").toList "\n@ + x;".toList := by
    refine ⟨11, ?_⟩
    have hleft : "\n@ + x;".toList = ['\n', '@', ' ', '+', ' ', 'x', ';'] := rfl
    simp only [Lookahead.Spells, Lookahead.Yields, hleft, List.map_cons, List.map_nil, List.cons_append,
      List.nil_append]
    decide +kernel
  have hclosed : ¬ EndsInOpenString "unit" 8 "let x: Int32; x # name".toList "\n@ + x;".toList := by
    rintro ⟨p, q, heq, -⟩
    have hquote : '"' ∈ "let x: Int32; x # name".toList := heq ▸ by simp
    exact absurd hquote (by decide)
  exact ⟨htrivia, hpause, hclosed, by decide +kernel, by decide +kernel,
    layout_irrelevant _ _ _ "unit" "copy" 8 4294967295 htrivia hpause hclosed⟩

end SwiftDialect
