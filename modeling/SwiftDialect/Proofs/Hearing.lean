import SwiftDialect.Proofs.Reading
import SwiftDialect.Proofs.RoundTrip

/-!
# What is reported while a text is parsed

Tokens are scanned when the parser first looks at them, so what the scanner reports and what the parser
reports come out interleaved. A parser never looks past the token that it consumes next: by the end of a
statement exactly its tokens have been scanned, and by the time of a rejection exactly those up to the
rejected one.

Main statement: the diagnostics of a text, statement by statement (`parseText_heard`).
-/

namespace SwiftDialect

/-! ### Looking and consuming -/

/-- Is a token waiting after the moves? -/
def waits : Bool → List Move → Bool
  | b, [] => b
  | _, .peek :: moves => waits true moves
  | _, .skip :: moves => waits false moves
  | b, .record _ :: moves => waits b moves

@[simp] theorem waits_append (ms ns : List Move) : ∀ b, waits b (ms ++ ns) = waits (waits b ms) ns := by
  induction ms with
  | nil => exact fun _ => rfl
  | cons m ms ih =>
    intro b
    cases m with
    | peek => exact ih true
    | skip => exact ih false
    | record e => exact ih b

/-- How many tokens have been consumed or looked at after the moves. -/
def reach (b : Bool) (moves : List Move) : Nat :=
  skipCount moves + (waits b moves).toNat

@[simp] theorem reach_nil (b : Bool) : reach b [] = b.toNat :=
  Nat.zero_add _

@[simp] theorem reach_peek (b : Bool) (moves : List Move) :
    reach b (.peek :: moves) = reach true moves := by
  simp [reach, skipCount, waits]

@[simp] theorem reach_skip (b : Bool) (moves : List Move) :
    reach b (.skip :: moves) = reach false moves + 1 := by
  simp [reach, skipCount, waits, Nat.add_right_comm]

@[simp] theorem reach_record (b : Bool) (e : Event) (moves : List Move) :
    reach b (.record e :: moves) = reach b moves := by
  simp [reach, skipCount, waits]

theorem reach_append (b : Bool) (ms ns : List Move) :
    reach b (ms ++ ns) = skipCount ms + reach (waits b ms) ns := by
  rw [reach, skipCount_append, waits_append, Nat.add_assoc, reach]

/-- A token that waits goes on waiting, or is consumed. -/
theorem one_le_reach (moves : List Move) : 1 ≤ reach true moves := by
  induction moves with
  | nil => exact Nat.le_refl _
  | cons m moves ih => cases m <;> simp [ih]

theorem Tree.waits_moves {f : Phrase} (t : Tree f) : ∀ b, waits b t.moves = false := by
  induction t with
  | leaf t => exact fun _ => rfl
  | sign t e ih => exact fun _ => ih false
  | group l e r ih =>
    intro b
    have hsplit : (group l e r).moves = [.skip, .record .parsingExpression] ++ (e.moves ++ [.skip]) :=
      rfl
    rw [hsplit, waits_append, waits_append]
    rfl
  | single e ih => exact ih
  | chain l op r ihl ihr =>
    intro b
    have hsplit : (chain l op r).moves = l.moves ++ ([.skip] ++ r.moves) := rfl
    rw [hsplit, waits_append, waits_append, ihr]

theorem Tree.reach_moves_append {f : Phrase} (t : Tree f) (b : Bool) (moves : List Move) :
    reach b (t.moves ++ moves) = t.tokens.length + reach false moves := by
  rw [reach_append, t.skipCount_moves, t.waits_moves]

/-- A stuck parser has looked at the token that it rejects, and at none after it. -/
theorem Stuck.reach_moves {scopes : Scopes} {f : Phrase} {room : Nat} {used : List Token} {bad : Token}
    {pr : Problem} {moves : List Move} (h : Stuck scopes f room used bad pr moves) :
    ∀ b, reach b moves = used.length + 1 := by
  induction h with
  | sign t _ ih => exact fun b => by simp [ih]
  | inside l _ ih => exact fun b => by simp [ih]
  | @unclosed l room e he bad hop hk => exact fun b => by simp [e.reach_moves_append]
  | first _ ih => exact ih
  | @later room e he op used bad pr moves _ ih =>
    exact fun b => by simp [e.reach_moves_append, ih, Nat.add_assoc]
  | _ => exact fun b => by simp

theorem Stuck.reports_moves {scopes : Scopes} {f : Phrase} {room : Nat} {used : List Token}
    {bad : Token} {pr : Problem} {moves : List Move} (h : Stuck scopes f room used bad pr moves) :
    reports moves = [] := by
  induction h with
  | sign t _ ih => exact ih
  | inside l _ ih => exact ih
  | @unclosed l room e he bad hop hk =>
    have hsplit : Move.skip :: .record .parsingExpression :: (e.moves ++ [.peek]) =
        [.skip, .record .parsingExpression] ++ (e.moves ++ [.peek]) := rfl
    rw [hsplit, reports_append, reports_append, e.reports_moves]
    rfl
  | first _ ih => exact ih
  | @later room e he op used bad pr moves _ ih =>
    rw [reports_append, e.reports_moves]
    exact ih
  | _ => rfl

theorem StuckSentence.reach_moves {scopes : Scopes} {used : List Token} {bad : Token} {pr : Problem}
    {moves : List Move} (h : StuckSentence scopes used bad pr moves) (b : Bool) :
    reach b moves = used.length + 1 := by
  cases h with
  | inside _ h => simp [h.reach_moves]
  | @unfinished e he _ _ _ => simp [e.reach_moves_append]
  | _ => simp

theorem StuckSentence.reports_moves {scopes : Scopes} {used : List Token} {bad : Token} {pr : Problem}
    {moves : List Move} (h : StuckSentence scopes used bad pr moves) : reports moves = [] := by
  cases h with
  | inside _ h => exact h.reports_moves
  | @unfinished e he _ _ _ =>
    have hsplit : Move.record .parsingStatement :: .peek :: .record .parsingExpression ::
        (e.moves ++ [.peek]) =
          [.record .parsingStatement, .peek, .record .parsingExpression] ++ (e.moves ++ [.peek]) := rfl
    rw [hsplit, reports_append, reports_append, e.reports_moves]
    rfl
  | _ => rfl

/-! ### Hearing -/

variable {σ : Type} [CharSource σ]

/-- A token is waiting or not, and these are the pulls to come. -/
structure Lexer.Hears (q : Lexer σ) (b : Bool) (ps : List Pull) : Prop where
  buffer : q.buffer.length = b.toNat
  gives : q.source.Gives ps

namespace Lexer

variable {q : Lexer σ} {b : Bool} {p : Pull} {ps taken rest : List Pull}

theorem Hears.record (h : q.Hears b ps) (e : Event) :
    Hears (Lookahead.move q (.record e)) b ps ∧
      (Lookahead.move q (.record e)).source.journal.diagnostics =
        q.source.journal.diagnostics ++ e.diagnostic?.toList :=
  ⟨⟨h.buffer, h.gives.record e⟩, Journal.diagnostics_record _ e⟩

/-- A token that is waiting need not be pulled. -/
theorem Hears.pop_true (h : q.Hears true ps) : Hears (Lookahead.pop q).2 false ps ∧
    (Lookahead.pop q).2.source = q.source := by
  obtain ⟨buffer, s⟩ := q
  obtain ⟨t, rfl⟩ := List.length_eq_one_iff.1 h.buffer
  exact ⟨⟨rfl, h.gives⟩, rfl⟩

/-- The first look at a token pulls it. -/
theorem Hears.pop_false (h : q.Hears false (p :: ps)) : Hears (Lookahead.pop q).2 false ps ∧
    (Lookahead.pop q).2.source.journal.diagnostics = q.source.journal.diagnostics ++ p.reports := by
  obtain ⟨buffer, s⟩ := q
  obtain rfl := List.length_eq_zero_iff.1 h.buffer
  exact ⟨⟨rfl, h.gives.2.2⟩, h.gives.2.1⟩

theorem Hears.unread (h : q.Hears false ps) (t : Token) : Hears (q.unread t) true ps :=
  ⟨congrArg Nat.succ h.buffer, h.gives⟩

/-- Moves that report nothing themselves let the reports be heard of the tokens that they reach. -/
theorem Hears.play (moves : List Move) : ∀ {q : Lexer σ} {b : Bool} {taken : List Pull},
    reports moves = [] → q.Hears b (taken ++ rest) → reach b moves = b.toNat + taken.length →
      Hears (Lookahead.play q moves) (waits b moves) rest ∧
        (Lookahead.play q moves).source.journal.diagnostics =
          q.source.journal.diagnostics ++ taken.flatMap Pull.reports := by
  induction moves with
  | nil =>
    intro q b taken _ h hreach
    rw [reach_nil] at hreach
    obtain rfl : taken = [] := List.eq_nil_of_length_eq_zero (by omega)
    exact ⟨h, (List.append_nil _).symm⟩
  | cons m moves ih =>
    intro q b taken hreports h hreach
    cases m with
    | record e =>
      -- the event reports nothing, so the journal says the same as before
      obtain ⟨hnone, hrest⟩ : e.diagnostic? = none ∧ reports moves = [] := by
        cases hd : e.diagnostic? <;> simp_all [reports]
      obtain ⟨hrecord, hjournal⟩ := h.record e
      rw [hnone, Option.toList_none, List.append_nil] at hjournal
      rw [← hjournal]
      exact ih hrest hrecord (by simpa using hreach)
    | peek =>
      rw [reach_peek] at hreach
      cases b with
      | true =>
        obtain ⟨hpop, hsource⟩ := h.pop_true
        -- the token waits already: its reports have been heard when it was first looked at
        obtain ⟨hplay, hjournal⟩ := ih hreports (hpop.unread (Lookahead.pop q).1) hreach
        exact ⟨hplay, hjournal.trans (by simp [Lookahead.unread, hsource])⟩
      | false =>
        -- the token is pulled now, with its reports
        have hone := one_le_reach moves
        obtain ⟨p, taken, rfl⟩ : ∃ p ps, taken = p :: ps :=
          List.exists_cons_of_length_pos (by simp at hreach; omega)
        obtain ⟨hpop, hpull⟩ := h.pop_false
        obtain ⟨hplay, hjournal⟩ := ih hreports (hpop.unread (Lookahead.pop q).1) (by
          simp only [Bool.toNat_false, Bool.toNat_true, List.length_cons] at hreach ⊢
          omega)
        refine ⟨hplay, hjournal.trans ?_⟩
        rw [List.flatMap_cons, ← List.append_assoc, ← hpull]
        rfl
    | skip =>
      rw [reach_skip] at hreach
      cases b with
      | true =>
        obtain ⟨hpop, hsource⟩ := h.pop_true
        obtain ⟨hplay, hjournal⟩ := ih hreports hpop (by
          simp only [Bool.toNat_false, Bool.toNat_true] at hreach ⊢
          omega)
        rw [hsource] at hjournal
        exact ⟨hplay, hjournal⟩
      | false =>
        obtain ⟨p, taken, rfl⟩ : ∃ p ps, taken = p :: ps :=
          List.exists_cons_of_length_pos (by simp at hreach; omega)
        obtain ⟨hpop, hpull⟩ := h.pop_false
        obtain ⟨hplay, hjournal⟩ := ih hreports hpop (by
          simp only [Bool.toNat_false, List.length_cons] at hreach ⊢
          omega)
        refine ⟨hplay, hjournal.trans ?_⟩
        rw [hpull, List.flatMap_cons, List.append_assoc]

end Lexer

/-! ### Statements -/

namespace Sentence

/-- The warning that a statement draws. -/
def warned (scopes : Scopes) : Sentence → List Diagnostic
  | .declaration _ ident .. =>
    if scopes.knows ident.1.text then
      [(Problem.redeclaredName ident.1.text).diagnose ident.1.location]
    else []
  | .evaluation .. => []

/-- What is reported while statements are read whose tokens are pulled like this. -/
def heard (scopes : Scopes) : List Sentence → List Pull → List Diagnostic
  | [], _ => []
  | s :: ss, ps => (ps.take s.tokens.length).flatMap Pull.reports ++
      (s.warned scopes ++ heard (s.effect scopes) ss (ps.drop s.tokens.length))

/-- A warning is about a name in its statement. -/
theorem exists_of_warned {s : Sentence} {scopes : Scopes} {d : Diagnostic} (h : d ∈ s.warned scopes) :
    ∃ t ∈ s.tokens, t.kind = .identifier ∧ d = (Problem.redeclaredName t.text).diagnose t.location := by
  cases s with
  | evaluation e semicolon => cases h
  | declaration intro ident colon type semicolon =>
    rw [warned] at h
    split at h
    · exact ⟨ident.1, by simp [tokens], List.mem_singleton.1 ident.2, List.mem_singleton.1 h⟩
    · cases h

/-- What is heard of statements was reported on the way to one of their tokens, or warns about a name. -/
theorem mem_heard {d : Diagnostic} (ss : List Sentence) : ∀ {scopes : Scopes} {ps : List Pull},
    ps.map Pull.token = ss.flatMap tokens → d ∈ heard scopes ss ps →
      ∃ p ∈ ps, d ∈ p.reports ∨ p.token.kind = .identifier ∧
        d = (Problem.redeclaredName p.token.text).diagnose p.token.location := by
  induction ss with
  | nil => exact fun _ hd => absurd hd List.not_mem_nil
  | cons s ss ih =>
    intro scopes ps htokens hd
    rw [List.flatMap_cons] at htokens
    obtain ⟨first, others, rfl, hfirst, hothers⟩ := List.map_eq_append_iff.1 htokens
    have hlength : first.length = s.tokens.length := by rw [← hfirst, List.length_map]
    rw [heard, List.take_left' hlength, List.drop_left' hlength, List.mem_append, List.mem_append,
      List.mem_flatMap] at hd
    rcases hd with ⟨p, hp, hdp⟩ | hd | hd
    · exact ⟨p, List.mem_append_left _ hp, .inl hdp⟩
    · -- a warning is about the identifier of the statement, which is one of its tokens
      obtain ⟨t, ht, hk, rfl⟩ := exists_of_warned hd
      rw [← hfirst] at ht
      obtain ⟨p, hp, rfl⟩ := List.mem_map.1 ht
      exact ⟨p, List.mem_append_left _ hp, .inr ⟨hk, rfl⟩⟩
    · obtain ⟨p, hp, hdp⟩ := ih hothers hd
      exact ⟨p, List.mem_append_right _ hp, hdp⟩

/-- While a statement is read the reports of its tokens are heard, and its warning comes last. -/
theorem hears (s : Sentence) (scopes : Scopes) {q : Lexer σ} {taken rest : List Pull}
    (h : q.Hears false (taken ++ rest)) (hlength : taken.length = s.tokens.length) :
    Lexer.Hears (Lookahead.play q (.peek :: s.moves scopes)) false rest ∧
      (Lookahead.play q (.peek :: s.moves scopes)).source.journal.diagnostics =
        q.source.journal.diagnostics ++ (taken.flatMap Pull.reports ++ s.warned scopes) := by
  cases s with
  | declaration intro ident colon type semicolon =>
    -- five tokens are consumed before the name is declared, so a warning comes after their reports
    obtain ⟨hread, hjournal⟩ := h.play
      (.peek :: .record .parsingStatement :: List.replicate 5 .skip) rfl
      (by rw [hlength]; rfl)
    have hsplit : Move.peek :: moves scopes (declaration intro ident colon type semicolon) =
        (.peek :: .record .parsingStatement :: List.replicate 5 .skip) ++ warning scopes ident.1 := rfl
    rw [hsplit, Lookahead.play, List.foldl_append, ← Lookahead.play, ← List.append_assoc, ← hjournal,
      warning, warned]
    split
    · exact hread.record _
    · exact ⟨hread, (List.append_nil _).symm⟩
  | evaluation e semicolon =>
    have hsplit : Move.peek :: moves scopes (evaluation e semicolon) =
        [.peek, .record .parsingStatement, .peek, .record .parsingExpression] ++
          (e.moves ++ [.skip]) := rfl
    have hreports : reports (.peek :: moves scopes (evaluation e semicolon)) = [] := by
      rw [hsplit, reports_append, reports_append, e.reports_moves]
      rfl
    have hreach : reach false (.peek :: moves scopes (evaluation e semicolon)) =
        false.toNat + taken.length := by
      simp [hsplit, e.reach_moves_append, hlength, tokens]
    have hwaits : waits false (.peek :: moves scopes (evaluation e semicolon)) = false := by
      rw [hsplit, waits_append, waits_append]
      rfl
    obtain ⟨hread, hjournal⟩ := h.play _ hreports hreach
    rw [hwaits] at hread
    exact ⟨hread, by rw [hjournal, warned, List.append_nil]⟩

/-- What is heard up to the look at the token after some statements. -/
theorem hears_all (ss : List Sentence) : ∀ (scopes : Scopes) {q : Lexer σ} {taken rest : List Pull}
    {p : Pull}, q.Hears false (taken ++ p :: rest) →
      taken.length = (ss.flatMap tokens).length →
      Lexer.Hears (Lookahead.play q (allMoves scopes ss)) true rest ∧
        (Lookahead.play q (allMoves scopes ss)).source.journal.diagnostics =
          q.source.journal.diagnostics ++ (heard scopes ss taken ++ p.reports) := by
  induction ss with
  | nil =>
    intro scopes q taken rest p h hlength
    obtain rfl := List.eq_nil_of_length_eq_zero hlength
    obtain ⟨hpop, hpull⟩ := h.pop_false
    exact ⟨hpop.unread _, hpull⟩
  | cons s ss ih =>
    intro scopes q taken rest p h hlength
    rw [List.flatMap_cons, List.length_append] at hlength
    have hfirst : (taken.take s.tokens.length).length = s.tokens.length := by
      rw [List.length_take]
      omega
    have hothers : (taken.drop s.tokens.length).length = (ss.flatMap tokens).length := by
      rw [List.length_drop]
      omega
    rw [← List.take_append_drop s.tokens.length taken, List.append_assoc] at h
    -- each statement takes its own pulls, and the next one goes on behind them
    obtain ⟨hread, hjournal⟩ := s.hears scopes h hfirst
    obtain ⟨hall, hjournals⟩ := ih (s.effect scopes) hread hothers
    have hsplit : allMoves scopes (s :: ss) =
        (.peek :: s.moves scopes) ++ allMoves (s.effect scopes) ss := rfl
    rw [hsplit, Lookahead.play, List.foldl_append, ← Lookahead.play, ← Lookahead.play]
    refine ⟨hall, ?_⟩
    rw [hjournals, hjournal, heard]
    simp only [List.append_assoc]

end Sentence

/-! ### Texts -/

theorem Lexer.diagnostics_records (events : List Event) : ∀ q : Lexer σ,
    (Lookahead.play q (events.map .record)).source.journal.diagnostics =
      q.source.journal.diagnostics ++ events.filterMap Event.diagnostic? := by
  induction events with
  | nil => exact fun q => (List.append_nil _).symm
  | cons e events ih =>
    intro q
    have hrecord : (Lookahead.move q (.record e)).source.journal.diagnostics =
        q.source.journal.diagnostics ++ e.diagnostic?.toList := Journal.diagnostics_record _ e
    rw [List.map_cons, Lookahead.play, List.foldl_cons, ← Lookahead.play, ih, hrecord,
      List.append_assoc, List.filterMap_cons]
    cases e.diagnostic? <;> rfl

/-- Opening and closing the scope of a program reports nothing. -/
theorem Parse.diagnostics_programMoves (q : Lexer σ) (depth : Nat) (body : List Move)
    (events : List Event) (h : events.filterMap Event.diagnostic? = []) :
    (Lookahead.play q (programMoves depth body (events.map .record))).source.journal.diagnostics =
      (Lookahead.play (Lookahead.play q [.record .parsingProgram, .record (.scopeOpened (depth + 1))])
        body).source.journal.diagnostics := by
  have hsplit : programMoves depth body (events.map .record) =
      [.record .parsingProgram, .record (.scopeOpened (depth + 1))] ++
        (body ++ (Event.scopeClosed depth :: events).map .record) := rfl
  rw [hsplit, Lookahead.play, List.foldl_append, List.foldl_append, ← Lookahead.play,
    ← Lookahead.play, ← Lookahead.play, Lexer.diagnostics_records, List.filterMap_cons]
  simp only [Event.diagnostic?, h, List.append_nil]

section Texts

variable {w : Nat} {text : String} {segments : List Segment} {ss : List Sentence} {last : List Pull}

/-- The run of the parser on a text whose tokens form statements that fit. -/
theorem Parse.program_of_fit (name : String) (hseg : IsSegmentation text.toList segments) {p : Pull}
    (hpulls : pulls w [] segments = last ++ [p]) (hlast : last.map Pull.token = ss.flatMap Sentence.tokens)
    (hfit : Sentence.AllFit (Scopes.push {}) ss) (journal : Journal) :
    program { tokens := Lexer.start name text.toList w journal } =
      (.ok ⟨Sentence.stmts (Scopes.push {}) ss⟩,
        ({ tokens := Lexer.start name text.toList w journal } : Parser (Scanner (List Char))).play
          (programMoves (Scopes.depth {}) (Sentence.allMoves (Scopes.push {}) ss)
            [.record (.parsedProgram ss.length)])) := by
  obtain ⟨body, eof, heq, -, hend⟩ := Lexer.toEnd_pulls hseg (Lookahead.spells_text _) name w journal
  rw [hpulls, List.map_append, hlast] at heq
  rw [← (List.append_inj' heq rfl).1] at hend
  exact program_ok (p := { tokens := Lexer.start name text.toList w journal }) rfl hend hfit

/-- The run of the parser on a text in which a statement is stuck. -/
theorem Parse.program_of_stuck (name : String) (hseg : IsSegmentation text.toList segments)
    {final rest : List Pull} {used : List Token} {bad : Token} {pr : Problem} {moves : List Move}
    (hpulls : pulls w [] segments = last ++ (final ++ rest))
    (hlast : last.map Pull.token = ss.flatMap Sentence.tokens)
    (hfinal : final.map Pull.token = used ++ [bad])
    (hst : ProgramStuck (Scopes.push {}) ss used bad pr moves) (journal : Journal) :
    program { tokens := Lexer.start name text.toList w journal } =
      (.error .rejected,
        ({ tokens := Lexer.start name text.toList w journal } : Parser (Scanner (List Char))).play
          (programMoves (Scopes.depth {}) (Sentence.allMoves (Scopes.push {}) ss ++
            (moves ++ [blame pr bad])) [])) := by
  obtain ⟨body, eof, heq, -, hend⟩ := Lexer.toEnd_pulls hseg (Lookahead.spells_text _) name w journal
  rw [hpulls, List.map_append, List.map_append, hlast, hfinal, List.append_assoc] at heq
  exact program_stuck (p := { tokens := Lexer.start name text.toList w journal }) rfl hend heq.symm hst

/-- Before the first statement nothing has been heard. -/
theorem Lexer.hears_opened (name : String) (w : Nat) (hseg : IsSegmentation text.toList segments)
    (depth : Nat) (journal : Journal) (hjournal : journal.diagnostics = []) :
    Hears (Lookahead.play (start name text.toList w journal)
        [.record .parsingProgram, .record (.scopeOpened depth)]) false (pulls w [] segments) ∧
      (Lookahead.play (start name text.toList w journal)
        [.record .parsingProgram, .record (.scopeOpened depth)]).source.journal.diagnostics = [] := by
  have hgives := (Scanner.faces_start name w hseg (Lookahead.spells_text _) journal).gives.1
  have hhears : Hears (start name text.toList w journal) false ([] ++ pulls w [] segments) :=
    ⟨rfl, hgives⟩
  obtain ⟨hopen, hnone⟩ := hhears.play [.record .parsingProgram, .record (.scopeOpened depth)] rfl rfl
  exact ⟨hopen, hnone.trans ((List.append_nil _).trans hjournal)⟩

/-- A text whose tokens form statements that fit is a program, and all of its tokens are heard. -/
theorem parseText_of_fit (name : String) (hseg : IsSegmentation text.toList segments) {p : Pull}
    (hpulls : pulls w [] segments = last ++ [p]) (hlast : last.map Pull.token = ss.flatMap Sentence.tokens)
    (hfit : Sentence.AllFit (Scopes.push {}) ss) :
    (parseText name text w).program = some ⟨Sentence.stmts (Scopes.push {}) ss⟩ ∧
      (parseText name text w).diagnostics =
        Sentence.heard (Scopes.push {}) ss last ++ p.reports := by
  let journal := Journal.empty.record (.parsingText name text.utf8ByteSize)
  obtain ⟨hprogram, hdiagnostics, -⟩ := Analysis.parse_of_run
    (Parse.program_of_fit name hseg hpulls hlast hfit journal) (Lexer.takeFailure_text name _ w journal _)
  obtain ⟨hopen, hnone⟩ := Lexer.hears_opened name w hseg 1 journal rfl
  rw [hpulls] at hopen
  have hall := (Sentence.hears_all ss (Scopes.push {}) hopen (by rw [← hlast, List.length_map])).2
  rw [hnone, List.nil_append] at hall
  refine ⟨hprogram, hdiagnostics.trans ?_⟩
  rw [← hall]
  exact Parse.diagnostics_programMoves _ _ _ [.parsedProgram ss.length] rfl

/-- A text in which a statement is stuck is rejected at a token, and the tokens up to that one are heard,
with the rejection after them. -/
theorem parseText_of_stuck (name : String) (hseg : IsSegmentation text.toList segments)
    {final rest : List Pull} {used : List Token} {bad : Token} {pr : Problem} {moves : List Move}
    (hpulls : pulls w [] segments = last ++ (final ++ rest))
    (hlast : last.map Pull.token = ss.flatMap Sentence.tokens)
    (hfinal : final.map Pull.token = used ++ [bad])
    (hst : ProgramStuck (Scopes.push {}) ss used bad pr moves) :
    (parseText name text w).program = none ∧
      (parseText name text w).diagnostics = Sentence.heard (Scopes.push {}) ss last ++
        (final.flatMap Pull.reports ++ [pr.diagnose bad.location]) := by
  let journal := Journal.empty.record (.parsingText name text.utf8ByteSize)
  obtain ⟨hprogram, hdiagnostics, -⟩ := Analysis.parse_of_run
    (Parse.program_of_stuck name hseg hpulls hlast hfinal hst journal)
    (Lexer.takeFailure_text name _ w journal _)
  have hlength := congrArg List.length hfinal
  rw [List.length_map, List.length_append, List.length_singleton] at hlength
  -- the look at the token behind the last statement pulls the first token of the one that is stuck
  obtain ⟨p, more, rfl⟩ := List.exists_cons_of_length_pos (by omega : 0 < final.length)
  obtain ⟨hopen, hnone⟩ := Lexer.hears_opened name w hseg 1 journal rfl
  rw [hpulls, List.cons_append] at hopen
  obtain ⟨hall, hbefore⟩ :=
    Sentence.hears_all ss (Scopes.push {}) hopen (by rw [← hlast, List.length_map])
  obtain ⟨hstuck, hup⟩ := hall.play moves hst.stuck.reports_moves (by
    rw [hst.stuck.reach_moves, ← hlength, List.length_cons, Nat.add_comm]
    rfl)
  have hblame := (hstuck.record (.reported (pr.diagnose bad.location))).2
  rw [hup, hbefore, hnone, List.nil_append, List.append_assoc, List.append_assoc] at hblame
  refine ⟨hprogram, hdiagnostics.trans ((Parse.diagnostics_programMoves _ _ _ [] rfl).trans ?_)⟩
  rw [Lookahead.play, List.foldl_append, List.foldl_append, ← Lookahead.play, ← Lookahead.play]
  rw [List.flatMap_cons, List.append_assoc]
  exact hblame

end Texts

/-- The diagnostics of a text. Either it is a program, and all of its tokens are heard; or it is
rejected at a token, and the tokens up to that one are heard, with the rejection after them. -/
theorem parseText_heard (name : String) (w : Nat) {text : String} {segments : List Segment}
    (hseg : IsSegmentation text.toList segments) :
    (∃ ss last p, pulls w [] segments = last ++ [p] ∧
      last.map Pull.token = ss.flatMap Sentence.tokens ∧
      Sentence.AllFit (Scopes.push {}) ss ∧
      (parseText name text w).program = some ⟨Sentence.stmts (Scopes.push {}) ss⟩ ∧
      (parseText name text w).diagnostics =
        Sentence.heard (Scopes.push {}) ss last ++ p.reports) ∨
    (∃ ss last final rest used bad pr moves, pulls w [] segments = last ++ (final ++ rest) ∧
      last.map Pull.token = ss.flatMap Sentence.tokens ∧ final.map Pull.token = used ++ [bad] ∧
      ProgramStuck (Scopes.push {}) ss used bad pr moves ∧
      (parseText name text w).program = none ∧
      (parseText name text w).diagnostics = Sentence.heard (Scopes.push {}) ss last ++
        (final.flatMap Pull.reports ++ [pr.diagnose bad.location])) := by
  obtain ⟨body, eof, hpulls, -, hend⟩ :=
    Lexer.toEnd_pulls hseg (Lookahead.spells_text _) name w .empty
  rcases Parse.program_cases (p := { tokens := Lexer.start name text.toList w .empty }) rfl hend
    (Scanner.named_of_toEnd hend) with ⟨ss, rfl, hfit, -⟩ | ⟨ss, used, bad, rest, pr, moves, heq, hst, -⟩
  · obtain ⟨last, ps, hsplit, hlast, hps⟩ := List.map_eq_append_iff.1 hpulls
    obtain ⟨p, rfl, -⟩ := List.map_eq_singleton_iff.1 hps
    exact .inl ⟨ss, last, p, hsplit, hlast, hfit, parseText_of_fit name hseg hsplit hlast hfit⟩
  · -- cut the pulls where the tokens are cut: behind the statements, and behind the rejected token
    rw [heq, List.append_cons used] at hpulls
    obtain ⟨last, ps, hsplit, hlast, hps⟩ := List.map_eq_append_iff.1 hpulls
    obtain ⟨final, ps, rfl, hfinal, -⟩ := List.map_eq_append_iff.1 hps
    exact .inr ⟨ss, last, final, ps, used, bad, pr, moves, hsplit, hlast, hfinal, hst,
      parseText_of_stuck name hseg hsplit hlast hfinal hst⟩

end SwiftDialect
