import SwiftDialect.Proofs.Places
import SwiftDialect.Proofs.Sources

/-!
# Reading a text token by token

Each time a scanner is asked for a token it passes over segments up to the next lexeme, and reports what
is wrong with them on the way. Such a *pull* is known from the segments alone. A scanner that faces some
segments gives exactly their pulls, one after the other, whatever else is entered into its journal in
between.

Main statement: tokenizing a text cuts it into its segments, and nothing is lost.
-/

namespace SwiftDialect

universe u v

/-! ### Pulls -/

/-- A token, and what was reported since the token before it. -/
structure Pull where
  reports : List Diagnostic
  token : Token

/-- The pulls, with some more reports before those of the first one. -/
def Pull.after (ds : List Diagnostic) : List Pull → List Pull
  | [] => []
  | p :: ps => { p with reports := ds ++ p.reports } :: ps

/-- What ends the lexemes of a text. -/
def endLexeme : Lexeme := ⟨.endOfFile, ""⟩

/-- The pulls of the segments that follow others. -/
def pulls (w : Nat) (before : List Segment) : List Segment → List Pull
  | [] => [⟨[], endLexeme.token (placeAfter w before)⟩]
  | segment :: ahead =>
    let ds := (segment.diagnostic? w before).toList
    match segment.lexeme? with
    | none => Pull.after ds (pulls w (before ++ [segment]) ahead)
    | some x => ⟨ds, x.token (placeAfter w before)⟩ :: pulls w (before ++ [segment]) ahead

@[simp] theorem Pull.map_token_after (ds : List Diagnostic) (ps : List Pull) :
    (after ds ps).map token = ps.map token := by
  cases ps <;> rfl

theorem Pull.flatMap_reports_after (ds : List Diagnostic) {ps : List Pull} (h : ps ≠ []) :
    (after ds ps).flatMap reports = ds ++ ps.flatMap reports := by
  obtain ⟨p, ps, rfl⟩ := List.exists_cons_of_ne_nil h
  simp [after]

theorem pulls_ne_nil (w : Nat) (before ahead : List Segment) : pulls w before ahead ≠ [] := by
  induction ahead generalizing before with
  | nil => exact List.cons_ne_nil _ _
  | cons segment ahead ih =>
    rw [pulls]
    split
    · obtain ⟨p, ps, hps⟩ := List.exists_cons_of_ne_nil (ih (before ++ [segment]))
      rw [hps]
      exact List.cons_ne_nil _ _
    · exact List.cons_ne_nil _ _

/-! ### Scanners that face segments -/

namespace Scanner

variable {σ : Type u} [CharSource σ] {s : Scanner σ} {name : String} {w : Nat}
  {before ahead : List Segment}

/-- These segments lie ahead of the scanner, after those that it has counted. -/
structure Faces (name : String) (w : Nat) (before ahead : List Segment) (s : Scanner σ) : Prop where
  past : s.Past name w before
  stands : IsSegmentation (ahead.flatMap Segment.chars) ahead
  chars : s.chars.Spells (ahead.flatMap Segment.chars)

/-- A step at the end stays there. -/
theorem Faces.step_nil (h : s.Faces name w before []) :
    s.step.1 = some (endLexeme.token (placeAfter w before)) ∧ s.step.2.Faces name w before [] ∧
      s.step.2.journal.diagnostics = s.journal.diagnostics := by
  obtain ⟨hplace, hpast, -⟩ := h.past.here
  unfold step
  rw [← Prod.eta s.chars.pop, Lookahead.spells_nil.1 h.chars, ← hplace]
  exact ⟨rfl, ⟨⟨hpast.counts.withChars _, hpast.tabWidth⟩, isSegmentation_nil,
    Lookahead.spells_unread_none _⟩, rfl⟩

/-- A step goes past the first segment ahead. -/
theorem Faces.step_cons {segment : Segment} (h : s.Faces name w before (segment :: ahead)) :
    s.step.1 = segment.lexeme?.map (·.token (placeAfter w before)) ∧
      s.step.2.Faces name w (before ++ [segment]) ahead ∧
      s.step.2.journal.diagnostics =
        s.journal.diagnostics ++ (segment.diagnostic? w before).toList := by
  obtain ⟨rest, htext, hstands, hahead⟩ := isSegmentation_cons.1 h.stands
  obtain rfl : ahead.flatMap Segment.chars = rest :=
    List.append_cancel_left ((List.flatMap_cons ..).symm.trans htext)
  -- the step asks for the place first, so the line table has come past it before the segment is read
  obtain ⟨hplace, hpast, hhighest⟩ := h.past.here
  have hpasses := step_passes hstands (List.flatMap_cons .. ▸ h.chars)
  rw [hplace] at hpasses
  obtain ⟨hleave, hjournal⟩ := hpast.leave hhighest hstands
  refine ⟨hpasses.token, ⟨?_, hahead, hpasses.chars⟩, ?_⟩
  · rw [hpasses.leave]
    exact ⟨hleave.counts.withChars _, hleave.tabWidth⟩
  · rw [hpasses.leave]
    exact hjournal

/-- The next tokens of the scanner, and what it reports on the way to each of them. -/
def Gives (s : Scanner σ) : List Pull → Prop
  | [] => True
  | p :: ps => (Producer.next s).1 = p.token ∧
      (Producer.next s).2.journal.diagnostics = s.journal.diagnostics ++ p.reports ∧
      (Producer.next s).2.Gives ps

/-- The scanner after some tokens. -/
def afterTokens (s : Scanner σ) : Nat → Scanner σ
  | 0 => s
  | n + 1 => (Producer.next s).2.afterTokens n

theorem Faces.record (h : s.Faces name w before ahead) (e : Event) :
    (s.record e).Faces name w before ahead :=
  ⟨⟨h.past.counts.record e, h.past.tabWidth⟩, h.stands, h.chars⟩

theorem next_of_some {t : Token} (h : s.step.1 = some t) :
    Producer.next s = (t, s.step.2.record (.scanned t.kind t.text)) := by
  simp only [Producer.next, scan_of_some h]

theorem next_of_none (h : s.step.1 = none) : Producer.next s = Producer.next s.step.2 := by
  simp only [Producer.next, scan_of_none h]

omit [CharSource σ] in
theorem diagnostics_scanned (s : Scanner σ) (t : Token) :
    (s.record (.scanned t.kind t.text)).journal.diagnostics = s.journal.diagnostics :=
  (Journal.diagnostics_record _ _).trans (List.append_nil _)

/-- Segments that lie ahead are pulled one after the other, and then they all lie behind. -/
theorem Faces.gives (h : s.Faces name w before ahead) :
    s.Gives (pulls w before ahead) ∧
      (s.afterTokens (pulls w before ahead).length).Faces name w (before ++ ahead) [] := by
  induction ahead generalizing s before with
  | nil =>
    obtain ⟨hstep, hfaces, hjournal⟩ := h.step_nil
    simp only [pulls, Gives, List.length_singleton, afterTokens, next_of_some hstep,
      diagnostics_scanned, hjournal, List.append_nil, and_self, true_and]
    exact hfaces.record _
  | cons segment ahead ih =>
    obtain ⟨hstep, hfaces, hjournal⟩ := h.step_cons
    obtain ⟨hgives, hlast⟩ := ih hfaces
    rw [List.append_assoc, List.singleton_append] at hlast
    cases hx : segment.lexeme? with
    | none =>
      -- nothing is pulled yet, so the reports wait for the next token
      rw [hx] at hstep
      obtain ⟨p, ps, hps⟩ := List.exists_cons_of_ne_nil (pulls_ne_nil w (before ++ [segment]) ahead)
      rw [pulls, hx]
      simp only [hps, Pull.after, Gives, afterTokens, List.length_cons, next_of_none hstep] at hgives hlast ⊢
      obtain ⟨htoken, hreports, hrest⟩ := hgives
      exact ⟨⟨htoken, by rw [hreports, hjournal, List.append_assoc], hrest⟩, hlast⟩
    | some x =>
      rw [hx] at hstep
      have hrecord := hfaces.record (.scanned x.kind x.text)
      obtain ⟨hgives, hlast⟩ := ih hrecord
      rw [List.append_assoc, List.singleton_append] at hlast
      rw [pulls, hx]
      simp only [Gives, List.length_cons, afterTokens, next_of_some hstep]
      exact ⟨⟨trivial, (diagnostics_scanned _ (x.token _)).trans hjournal, hgives⟩, hlast⟩

/-- Alike scanners give the same pulls. -/
theorem Alike.gives {σ' : Type v} [CharSource σ'] {j₁ j₂ : Journal} {ps : List Pull} :
    ∀ {s₁ : Scanner σ} {s₂ : Scanner σ'}, Alike j₁ j₂ s₁ s₂ → s₁.Gives ps → s₂.Gives ps := by
  induction ps with
  | nil => exact fun _ _ => trivial
  | cons p ps ih =>
    rintro s₁ s₂ h ⟨htoken, hreports, hrest⟩
    obtain ⟨heq, hnext⟩ := h.next
    obtain ⟨es, h₁, h₂⟩ := h.events
    obtain ⟨es', h₁', h₂'⟩ := hnext.events
    refine ⟨heq.symm.trans htoken, ?_, ih hnext hrest⟩
    -- both journals have grown by the same events
    rw [h₁, h₁', Journal.diagnostics_recordAll, Journal.diagnostics_recordAll, List.append_assoc] at hreports
    rw [h₂, h₂', Journal.diagnostics_recordAll, Journal.diagnostics_recordAll, List.append_assoc,
      List.append_cancel_left hreports]

theorem Gives.record {ps : List Pull} (h : s.Gives ps) (e : Event) : (s.record e).Gives ps :=
  (s.alike_record e).gives h

theorem Gives.yields {ps : List Pull} (h : s.Gives ps) :
    (Lookahead.ofSource s).Yields (ps.map Pull.token) := by
  induction ps generalizing s with
  | nil => trivial
  | cons p ps ih => exact ⟨h.1, ih h.2.2⟩

theorem Gives.diagnostics_afterTokens {ps : List Pull} (h : s.Gives ps) :
    (s.afterTokens ps.length).journal.diagnostics =
      s.journal.diagnostics ++ ps.flatMap Pull.reports := by
  induction ps generalizing s with
  | nil => exact (List.append_nil _).symm
  | cons p ps ih =>
    rw [List.length_cons, afterTokens, ih h.2.2, h.2.1, List.append_assoc, List.flatMap_cons]

theorem play_skips (n : Nat) : ∀ s : Scanner σ,
    (Lookahead.ofSource s : Lexer σ).play (List.replicate n .skip) = .ofSource (s.afterTokens n) := by
  induction n with
  | zero => exact fun _ => rfl
  | succ n ih => exact fun s => ih (Producer.next s).2

theorem faces_start (name : String) (w : Nat) {cs : List Char} {segments : List Segment}
    (h : IsSegmentation cs segments) {source : σ} (hspells : (Lookahead.ofSource source).Spells cs)
    (journal : Journal) :
    (start name source w journal).Faces name w [] segments := by
  refine ⟨⟨counts_start name source w journal, rfl⟩, ?_, ?_⟩
  · rw [h.chars]
    exact h
  · rw [h.chars]
    exact hspells

end Scanner

/-! ### The lexemes of segments -/

theorem TokenKind.ofKeyword?_ne {text : String} {k : TokenKind} (h : ofKeyword? text = some k) :
    k ≠ .endOfFile := by
  obtain ⟨before, after, heq, -⟩ := List.lookup_eq_some_iff.1 h
  have hall : ∀ p ∈ keywords, p.2 ≠ .endOfFile := by decide
  exact hall (text, k) (by rw [heq]; simp)

theorem Segment.Stands.kind_ne {segment : Segment} {rest : List Char} (h : segment.Stands rest) :
    ∀ x ∈ segment.lexeme?, x.kind ≠ .endOfFile := by
  intro x hx
  cases segment with
  | word first more =>
    obtain rfl := Option.some.inj hx
    rw [Lexeme.ofWord]
    split
    · next hkey => exact TokenKind.ofKeyword?_ne hkey
    · exact TokenKind.noConfusion
  | number text =>
    obtain rfl := Option.some.inj hx
    dsimp only
    split <;> decide
  | string text closed =>
    obtain rfl := Option.some.inj hx
    exact TokenKind.noConfusion
  | sign kind =>
    obtain rfl := Option.some.inj hx
    have hsigns : ∀ k ∈ CharClass.signKinds, k ≠ .endOfFile := by decide
    exact hsigns kind h.1
  | _ => cases hx

/-- Each segment together with all the segments before it. -/
def splits (before : List Segment) : List Segment → List (List Segment × Segment)
  | [] => []
  | segment :: ahead => (before, segment) :: splits (before ++ [segment]) ahead

theorem map_snd_splits (before ahead : List Segment) : (splits before ahead).map Prod.snd = ahead := by
  induction ahead generalizing before with
  | nil => rfl
  | cons segment ahead ih => rw [splits, List.map_cons, ih]

theorem filterMap_snd_splits {α : Type u} (f : Segment → Option α) (before ahead : List Segment) :
    (splits before ahead).filterMap (fun p => f p.2) = ahead.filterMap f := by
  rw [← Function.comp_def f, ← List.filterMap_map, map_snd_splits]

/-- The tokens of a text are its lexemes and the end, each at its place. -/
theorem map_token_pulls (w : Nat) (before ahead : List Segment) :
    (pulls w before ahead).map Pull.token =
      (splits before ahead).filterMap (fun p => p.2.lexeme?.map (·.token (placeAfter w p.1))) ++
        [endLexeme.token (placeAfter w (before ++ ahead))] := by
  induction ahead generalizing before with
  | nil => simp [pulls, splits]
  | cons segment ahead ih =>
    have hrest := ih (before ++ [segment])
    rw [List.append_assoc, List.singleton_append] at hrest
    rw [pulls, splits, List.filterMap_cons]
    cases hx : segment.lexeme? with
    | none => simp [hrest]
    | some x => simp [hrest]

/-- The last token of a text is its end. -/
theorem kind_of_last_pull {w : Nat} {segments : List Segment} {last : List Pull} {p : Pull}
    (h : pulls w [] segments = last ++ [p]) : p.token.kind = .endOfFile := by
  have htokens := map_token_pulls w [] segments
  rw [h, List.map_append] at htokens
  rw [List.singleton_inj.1 (List.append_inj' htokens rfl).2]
  rfl

/-- What is reported about a text is what is wrong with its segments, each at its place. -/
theorem flatMap_reports_pulls (w : Nat) (before ahead : List Segment) :
    (pulls w before ahead).flatMap Pull.reports =
      (splits before ahead).filterMap (fun p => p.2.diagnostic? w p.1) := by
  induction ahead generalizing before with
  | nil => rfl
  | cons segment ahead ih =>
    have hrest := ih (before ++ [segment])
    rw [pulls, splits, List.filterMap_cons]
    cases hx : segment.lexeme? with
    | none =>
      simp only [Pull.flatMap_reports_after _ (pulls_ne_nil _ _ _), hrest]
      cases segment.diagnostic? w before <;> rfl
    | some x =>
      simp only [List.flatMap_cons, hrest]
      cases segment.diagnostic? w before <;> rfl

/-- What is reported with a pull is what is wrong with a segment. -/
theorem exists_problem_of_mem_pulls {w : Nat} {segments : List Segment} {p : Pull}
    (hp : p ∈ pulls w [] segments) {d : Diagnostic} (hd : d ∈ p.reports) :
    ∃ segment : Segment, ∃ problem place, segment.problem? = some problem ∧
      d = problem.diagnose place := by
  have hmem : d ∈ (pulls w [] segments).flatMap Pull.reports := List.mem_flatMap.2 ⟨p, hp, hd⟩
  rw [flatMap_reports_pulls] at hmem
  obtain ⟨⟨before, segment⟩, -, hd⟩ := List.mem_filterMap.1 hmem
  obtain ⟨problem, hproblem, rfl⟩ := Option.map_eq_some_iff.1 hd
  exact ⟨segment, problem, _, hproblem, rfl⟩

/-- What the scanner reports are unexpected characters and strings that do not end. -/
theorem code_of_mem_pulls {w : Nat} {segments : List Segment} {p : Pull} (hp : p ∈ pulls w [] segments)
    {d : Diagnostic} (hd : d ∈ p.reports) : d.code = "E0001" ∨ d.code = "E0002" := by
  obtain ⟨segment, problem, place, hproblem, rfl⟩ := exists_problem_of_mem_pulls hp hd
  revert hproblem
  unfold Segment.problem?
  split <;> rintro ⟨⟩
  · exact .inl rfl
  · exact .inr rfl

theorem IsSegmentation.kind_ne {text : List Char} {segments : List Segment}
    (h : IsSegmentation text segments) (w : Nat) : ∀ t ∈ (splits [] segments).filterMap
      (fun p => p.2.lexeme?.map (·.token (placeAfter w p.1))), t.kind ≠ .endOfFile := by
  intro t ht
  obtain ⟨p, hp, hpt⟩ := List.mem_filterMap.1 ht
  obtain ⟨x, hx, rfl⟩ := Option.map_eq_some_iff.1 hpt
  have hmem : p.2 ∈ segments := by
    rw [← map_snd_splits [] segments]
    exact List.mem_map_of_mem hp
  obtain ⟨before, after, heq⟩ := List.append_of_mem hmem
  exact (h.stands before p.2 after heq).kind_ne x hx

/-! ### Tokenizing a text -/

/-- The tokens of a unit are those of the pulls of its text. -/
theorem Lexer.toEnd_pulls {σ : Type} [CharSource σ] {source : σ} {cs : List Char}
    {segments : List Segment} (h : IsSegmentation cs segments)
    (hspells : (Lookahead.ofSource source).Spells cs) (name : String) (w : Nat) (journal : Journal) :
    ∃ body eof, (pulls w [] segments).map Pull.token = body ++ [eof] ∧
      (Lexer.start name source w journal).readAll.1 = body ++ [eof] ∧
      (Lexer.start name source w journal).ToEnd body eof := by
  obtain ⟨body, eof, hread, hend⟩ := Lookahead.readAll_spec (Lexer.start name source w journal)
  have hyields := (Scanner.faces_start name w h hspells journal).gives.1.yields
  rw [map_token_pulls] at hyields ⊢
  obtain ⟨rfl, rfl⟩ := hend.eq_of_yields hyields (h.kind_ne w) rfl
  exact ⟨_, _, rfl, hread, hend⟩

/-- The outcome of tokenizing a text, in terms of its segments. -/
theorem tokenizeText_eq (name : String) (w : Nat) {text : String} {segments : List Segment}
    (h : IsSegmentation text.toList segments) :
    (tokenizeText name text w).tokens = (pulls w [] segments).map Pull.token ∧
      (tokenizeText name text w).diagnostics = (pulls w [] segments).flatMap Pull.reports ∧
      (tokenizeText name text w).lines.files = [name] ∧
      (tokenizeText name text w).lines.starts = startsAt (trace w segments) := by
  have hfaces := Scanner.faces_start name w h (Lookahead.spells_text _) .empty
  obtain ⟨hgives, hlast⟩ := hfaces.gives
  have htokens : (Lexer.start name text.toList w .empty).readAll.1 =
      (pulls w [] segments).map Pull.token := by
    obtain ⟨body, eof, hpulls, hread, -⟩ :=
      Lexer.toEnd_pulls h (Lookahead.spells_text _) name w .empty
    rw [hread, hpulls]
  -- reading to the end skips as many tokens as it returns, so the scanner ends behind all segments
  have hsnd := Lookahead.readToEnd_snd (Lexer.start name text.toList w .empty).tokensLeft
    (Lexer.start name text.toList w .empty)
  have hquiet := Lexer.takeFailure_of_quiet (Lexer.quiet_play
    (List.replicate (pulls w [] segments).length .skip)
    (q := Lexer.start name text.toList w .empty) (quiet_text _))
  rw [← Lookahead.readAll, htokens, List.length_map] at hsnd
  rw [← hsnd] at hquiet
  rw [Lexer.start, Scanner.play_skips, ← Lexer.start] at hsnd
  have hdiagnostics := hgives.diagnostics_afterTokens
  simp only [tokenizeText, Analysis.tokenize, Tokenized.diagnostics, htokens, hquiet,
    Analysis.reportFailure, Journal.diagnostics_record]
  rw [hsnd]
  refine ⟨trivial, ?_, hlast.past.counts.files, hlast.past.counts.starts⟩
  exact (List.append_nil _).trans hdiagnostics

/-- The diagnostic without its place. -/
def Diagnostic.unplaced (d : Diagnostic) : Diagnostic :=
  { d with location := none }

/-- Every text can be cut into segments in exactly one way, and tokenizing does so: the tokens are the
lexemes among the segments, in order, and then the end, and what is reported is what is wrong with the
segments, in order. -/
theorem tokenizeText_cuts_into_segments (name text : String) (tabWidth : Nat) :
    ∃ segments, (∀ segments', IsSegmentation text.toList segments' ↔ segments' = segments) ∧
      (tokenizeText name text tabWidth).tokens.map Token.lexeme =
        segments.filterMap Segment.lexeme? ++ [⟨.endOfFile, ""⟩] ∧
      (tokenizeText name text tabWidth).diagnostics.map Diagnostic.unplaced =
        (segments.filterMap Segment.problem?).map (·.draft.build) := by
  obtain ⟨segments, h⟩ := exists_segmentation text.toList
  obtain ⟨htokens, hdiagnostics, -⟩ := tokenizeText_eq name tabWidth h
  refine ⟨segments, fun segments' => ⟨fun h' => h'.unique h, fun heq => heq ▸ h⟩, ?_, ?_⟩
  · -- without its place, a token is the lexeme of its segment, and a report is its problem
    have hlexeme : ∀ p : List Segment × Segment,
        (p.2.lexeme?.map (·.token (placeAfter tabWidth p.1))).map Token.lexeme = p.2.lexeme? := by
      intro p
      cases p.2.lexeme? <;> rfl
    rw [htokens, map_token_pulls, List.map_append, List.map_filterMap]
    simp only [hlexeme, filterMap_snd_splits]
    rfl
  · have hproblem : ∀ p : List Segment × Segment, (p.2.diagnostic? tabWidth p.1).map
        Diagnostic.unplaced = p.2.problem?.map (·.draft.build) := by
      intro p
      rw [Segment.diagnostic?]
      cases p.2.problem? <;> rfl
    rw [hdiagnostics, flatMap_reports_pulls, List.map_filterMap, List.map_filterMap]
    simp only [hproblem, filterMap_snd_splits fun s => s.problem?.map (·.draft.build)]

end SwiftDialect
