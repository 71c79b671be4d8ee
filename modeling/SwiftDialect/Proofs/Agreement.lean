import SwiftDialect.Proofs.Explanation
import SwiftDialect.Proofs.Frames

/-!
# Parsing and tokenizing

A parser has its tokens scanned one at a time, when it first looks at them, and it may stop before the
text ends. So what parsing finds out about the characters of a text is the beginning of what tokenizing
finds out. If the text is a program, then parsing has come to the end of it, and it might as well have read
the tokens from a list.

Main statement: parsing and tokenizing agree on every text (`parsing_agrees_with_tokenizing`).
-/

namespace SwiftDialect

/-! ### What the scanner reports -/

/-- The codes of the problems that the scanner reports. -/
def lexicalCodes : List String :=
  ["E0001", "E0002"]

/-- What was reported about the characters of the text. -/
def Parsed.lexical (p : Parsed) : List Diagnostic :=
  p.diagnostics.filter (·.code ∈ lexicalCodes)

theorem filter_reports_of_pulls {w : Nat} {segments : List Segment} {ps : List Pull}
    (hps : ∀ p ∈ ps, p ∈ pulls w [] segments) :
    (ps.flatMap Pull.reports).filter (·.code ∈ lexicalCodes) = ps.flatMap Pull.reports := by
  refine List.filter_eq_self.2 fun d hd => ?_
  obtain ⟨p, hp, hdp⟩ := List.mem_flatMap.1 hd
  rcases code_of_mem_pulls (hps p hp) hdp with hcode | hcode <;> rw [hcode] <;> decide

/-- Apart from warnings, what is heard of statements is what the scanner reports about their tokens. -/
theorem Sentence.filter_lexical_heard {w : Nat} {segments : List Segment} (ss : List Sentence) :
    ∀ {scopes : Scopes} {ps : List Pull}, (∀ p ∈ ps, p ∈ pulls w [] segments) →
      ps.length = (ss.flatMap tokens).length →
      (heard scopes ss ps).filter (·.code ∈ lexicalCodes) = ps.flatMap Pull.reports := by
  induction ss with
  | nil =>
    intro scopes ps _ hlength
    rw [List.eq_nil_of_length_eq_zero hlength]
    rfl
  | cons s ss ih =>
    intro scopes ps hps hlength
    rw [List.flatMap_cons, List.length_append] at hlength
    have hfirst : ∀ p ∈ ps.take s.tokens.length, p ∈ pulls w [] segments :=
      fun p hp => hps p (List.mem_of_mem_take hp)
    have hlater : ∀ p ∈ ps.drop s.tokens.length, p ∈ pulls w [] segments :=
      fun p hp => hps p (List.mem_of_mem_drop hp)
    -- what a statement adds of its own is a warning, which no scanner reports
    have hwarned : (s.warned scopes).filter (·.code ∈ lexicalCodes) = [] := by
      refine List.filter_eq_nil_iff.2 fun d hd => ?_
      obtain ⟨t, -, -, rfl⟩ := exists_of_warned hd
      have hwarning : "W0021" ∉ lexicalCodes := by decide
      exact mt of_decide_eq_true hwarning
    rw [heard, List.filter_append, List.filter_append, filter_reports_of_pulls hfirst, hwarned,
      ih hlater (by rw [List.length_drop]; omega), List.nil_append, ← List.flatMap_append,
      List.take_append_drop]

/-! ### Line starts -/

/-- Lines that have started stay. -/
theorem startsAt_suffix (cells past : List Cell) :
    startsAt past <:+ startsAt (cells ++ past) := by
  induction cells with
  | nil => exact List.suffix_rfl
  | cons cell cells ih =>
    rw [List.cons_append, startsAt]
    split
    · exact ih.trans (List.suffix_cons _ _)
    · exact ih

/-- A scanner that is asked for a token goes past some of the segments ahead, and past all of them if the
token is the end. -/
theorem Scanner.Faces.next {σ : Type} [CharSource σ] {name : String} {w : Nat} {s : Scanner σ}
    {before ahead : List Segment} (h : s.Faces name w before ahead) :
    ∃ passed rest, ahead = passed ++ rest ∧ (Producer.next s).2.Faces name w (before ++ passed) rest ∧
      ((Producer.next s).1.kind = .endOfFile → rest = []) := by
  induction ahead generalizing s before with
  | nil =>
    obtain ⟨hstep, hfaces, -⟩ := h.step_nil
    rw [next_of_some hstep]
    exact ⟨[], [], rfl, by simpa using hfaces.record _, fun _ => rfl⟩
  | cons segment ahead ih =>
    obtain ⟨rest, -, hstands, -⟩ := isSegmentation_cons.1 h.stands
    obtain ⟨hstep, hfaces, -⟩ := h.step_cons
    cases hx : segment.lexeme? with
    | none =>
      rw [hx] at hstep
      -- the segment gives no token, so the scanner goes on behind it
      obtain ⟨passed, rest, rfl, hnext, hend⟩ := ih hfaces
      rw [next_of_none hstep]
      exact ⟨segment :: passed, rest, rfl, by simpa using hnext, hend⟩
    | some x =>
      rw [hx] at hstep
      rw [next_of_some hstep]
      exact ⟨[segment], ahead, rfl, hfaces.record _, fun hk => absurd hk (hstands.kind_ne x hx)⟩

namespace Lexer

variable {σ : Type} [CharSource σ] {name : String} {w : Nat} {segments : List Segment} {q : Lexer σ}

/-- The scanner is somewhere in the text, and it is at the end if an end token is waiting. -/
def Within (name : String) (w : Nat) (segments : List Segment) (q : Lexer σ) : Prop :=
  ∃ before ahead, segments = before ++ ahead ∧ q.source.Faces name w before ahead ∧
    ((∃ t ∈ q.buffer, t.kind = .endOfFile) → ahead = [])

theorem Within.pop (h : q.Within name w segments) :
    Within name w segments ((Lookahead.pop q).2.unread (Lookahead.pop q).1) ∧
      Within name w segments (Lookahead.pop q).2 := by
  obtain ⟨buffer, s⟩ := q
  obtain ⟨before, ahead, hsplit, hfaces, hend⟩ := h
  cases buffer with
  | cons t waiting =>
    refine ⟨⟨before, ahead, hsplit, hfaces, hend⟩, before, ahead, hsplit, hfaces, fun ht => ?_⟩
    obtain ⟨t', ht', hk⟩ := ht
    exact hend ⟨t', List.mem_cons_of_mem _ ht', hk⟩
  | nil =>
    -- nothing waits, so the scanner is asked for a token
    obtain ⟨passed, rest, rfl, hnext, hlast⟩ := Scanner.Faces.next hfaces
    rw [← List.append_assoc] at hsplit
    refine ⟨⟨_, rest, hsplit, hnext, fun ht => ?_⟩, _, rest, hsplit, hnext, fun ht => ?_⟩
    · obtain ⟨t, ht, hk⟩ := ht
      rw [List.mem_singleton.1 ht] at hk
      exact hlast hk
    · obtain ⟨t, ht, -⟩ := ht
      exact absurd ht List.not_mem_nil

theorem Within.play (moves : List Move) : ∀ {q : Lexer σ}, q.Within name w segments →
    Within name w segments (Lookahead.play q moves) := by
  induction moves with
  | nil => exact fun h => h
  | cons m moves ih =>
    intro q h
    refine ih ?_
    cases m with
    | peek => exact h.pop.1
    | skip => exact h.pop.2
    | record e =>
      obtain ⟨before, ahead, hsplit, hfaces, hend⟩ := h
      exact ⟨before, ahead, hsplit, hfaces.record e, hend⟩

/-- The text is the one file that has been entered. -/
theorem Within.files (h : q.Within name w segments) : q.source.lines.files = [name] := by
  obtain ⟨_, _, -, hfaces, -⟩ := h
  exact hfaces.past.counts.files

/-- Every line that has started is among those of the whole text. -/
theorem Within.starts (h : q.Within name w segments) :
    q.source.lines.starts <:+ startsAt (trace w segments) := by
  obtain ⟨before, ahead, rfl, hfaces, -⟩ := h
  rw [hfaces.past.counts.starts, trace_append]
  exact startsAt_suffix _ _

/-- Once an end token is waiting, all lines have started. -/
theorem Within.starts_of_end (h : q.Within name w segments) {t : Token} (ht : t ∈ q.buffer)
    (hk : t.kind = .endOfFile) : q.source.lines.starts = startsAt (trace w segments) := by
  obtain ⟨before, ahead, rfl, hfaces, hend⟩ := h
  rw [hfaces.past.counts.starts, hend ⟨t, ht, hk⟩, List.append_nil]

end Lexer

/-! ### What has been scanned -/

/-- The lexeme of the token that the event speaks of, if it speaks of one. -/
def Event.lexeme? : Event → Option Lexeme
  | .scanned kind text => some ⟨kind, text⟩
  | _ => none

/-- The lexemes of the tokens scanned so far, in order. -/
def Journal.scanned (j : Journal) : List Lexeme :=
  j.events.toList.filterMap Event.lexeme?

theorem Journal.scanned_record (j : Journal) (e : Event) :
    (j.record e).scanned = j.scanned ++ e.lexeme?.toList := by
  cases h : e.lexeme? <;> simp [scanned, record, h]

theorem Scanner.Reaches.scanned_eq {σ : Type} [CharSource σ] {s s' : Scanner σ}
    (h : s.Reaches Event.IsReport s') : s'.journal.scanned = s.journal.scanned := by
  induction h with
  | record he _ ih =>
    obtain ⟨problem, place, rfl⟩ := he
    exact (Journal.scanned_record _ _).trans ((List.append_nil _).trans ih)
  | refl => rfl
  | _ => assumption

/-- A scanner that is asked for a token scans that token and no other. -/
theorem Scanner.scanned_next {σ : Type} [CharSource σ] (s : Scanner σ) :
    (Producer.next s).2.journal.scanned = s.journal.scanned ++ [(Producer.next s).1.lexeme] := by
  have hscan := s.reaches_scan.scanned_eq
  have hrecord := Journal.scanned_record s.scan.2.journal (.scanned s.scan.1.kind s.scan.1.text)
  rw [hscan] at hrecord
  exact hrecord

namespace Lexer

variable {σ : Type} [CharSource σ] {q : Lexer σ} {used coming : List Token} {b : Bool} {t : Token}

/-- The tokens in `used` have been consumed, those in `coming` come next, and the first of them is waiting
if `b` says so. Nothing else has been scanned. -/
structure Stands (q : Lexer σ) (used : List Token) (b : Bool) (coming : List Token) : Prop where
  buffer : q.buffer = coming.take b.toNat
  scanned : q.source.journal.scanned = (used ++ coming.take b.toNat).map Token.lexeme
  ahead : (Lookahead.ofSource q.source).Yields (coming.drop b.toNat)

theorem Stands.record (h : q.Stands used b coming) {e : Event} (he : e.lexeme? = none) :
    Stands (Lookahead.move q (.record e)) used b coming := by
  refine ⟨h.buffer, ?_, LawfulTokenSource.yields_record e _ _ h.ahead⟩
  refine (Journal.scanned_record _ e).trans ?_
  rw [he, Option.toList_none, List.append_nil, h.scanned]

theorem Stands.pop (h : q.Stands used b (t :: coming)) :
    (Lookahead.pop q).1 = t ∧ Stands (Lookahead.pop q).2 (used ++ [t]) false coming := by
  obtain ⟨buffer, s⟩ := q
  obtain ⟨hbuffer, hscanned, hahead⟩ := h
  cases b with
  | true =>
    obtain rfl : buffer = [t] := hbuffer
    exact ⟨rfl, rfl, hscanned.trans (by simp), hahead⟩
  | false =>
    obtain rfl : buffer = [] := hbuffer
    obtain ⟨rfl, hrest⟩ := hahead
    refine ⟨rfl, rfl, ?_, hrest⟩
    refine (Scanner.scanned_next s).trans ?_
    rw [hscanned]
    simp [Lookahead.pop, Lookahead.ofSource]

theorem Stands.unread (h : q.Stands (used ++ [t]) false coming) :
    Stands (q.unread t) used true (t :: coming) := by
  refine ⟨congrArg (t :: ·) h.buffer, ?_, h.ahead⟩
  simpa [Lookahead.unread] using h.scanned

end Lexer

/-- The lexeme of the token whose scan the move enters, if it enters one. -/
def Move.lexeme? : Move → Option Lexeme
  | .record e => e.lexeme?
  | _ => none

/-- Do the moves enter no scans? Only the scanner does. -/
def Unscanned (moves : List Move) : Prop :=
  ∀ m ∈ moves, m.lexeme? = none

/-- Moves consume tokens and look at tokens, and have no others scanned. -/
theorem Lexer.Stands.play {σ : Type} [CharSource σ] (moves : List Move) :
    ∀ {q : Lexer σ} {used coming : List Token} {b : Bool}, Unscanned moves →
      q.Stands used b coming → reach b moves ≤ coming.length →
      ∃ taken rest, coming = taken ++ rest ∧ taken.length = skipCount moves ∧
        Stands (Lookahead.play q moves) (used ++ taken) (waits b moves) rest := by
  induction moves with
  | nil =>
    intro q used coming b _ h _
    exact ⟨[], coming, rfl, rfl, (List.append_nil used).symm ▸ h⟩
  | cons m moves ih =>
    intro q used coming b hscan h hreach
    obtain ⟨hm, hmoves⟩ := List.forall_mem_cons.1 hscan
    cases m with
    | record e => exact ih hmoves (h.record hm) (by simpa using hreach)
    | peek =>
      rw [reach_peek] at hreach
      have hone := one_le_reach moves
      obtain ⟨t, coming, rfl⟩ := List.exists_cons_of_length_pos (by omega : 0 < coming.length)
      obtain ⟨rfl, hpop⟩ := h.pop
      -- the token is put back, and waits for the move that consumes it
      exact ih hmoves hpop.unread hreach
    | skip =>
      rw [reach_skip] at hreach
      obtain ⟨t, coming, rfl⟩ := List.exists_cons_of_length_pos (by omega : 0 < coming.length)
      obtain ⟨taken, rest, rfl, hlength, hplay⟩ := ih hmoves h.pop.2 (by simpa using hreach)
      rw [List.append_assoc] at hplay
      exact ⟨t :: taken, rest, rfl, by simp [skipCount] at hlength ⊢; omega, hplay⟩

/-! ### The moves of a parser -/

@[simp] theorem unscanned_nil : Unscanned [] :=
  fun _ h => absurd h List.not_mem_nil

@[simp] theorem unscanned_cons {m : Move} {moves : List Move} :
    Unscanned (m :: moves) ↔ m.lexeme? = none ∧ Unscanned moves :=
  List.forall_mem_cons

@[simp] theorem unscanned_append {ms ns : List Move} :
    Unscanned (ms ++ ns) ↔ Unscanned ms ∧ Unscanned ns :=
  List.forall_mem_append

theorem Tree.unscanned {f : Phrase} (t : Tree f) : Unscanned t.moves := by
  induction t <;> simp_all [moves, Move.lexeme?, Event.lexeme?]

theorem Stuck.unscanned {scopes : Scopes} {f : Phrase} {room : Nat} {used : List Token} {bad : Token}
    {pr : Problem} {moves : List Move} (h : Stuck scopes f room used bad pr moves) :
    Unscanned moves := by
  induction h <;> simp_all [Tree.unscanned, Move.lexeme?, Event.lexeme?]

theorem StuckSentence.unscanned {scopes : Scopes} {used : List Token} {bad : Token} {pr : Problem}
    {moves : List Move} (h : StuckSentence scopes used bad pr moves) : Unscanned moves := by
  cases h with
  | inside _ h => simp [h.unscanned, Move.lexeme?, Event.lexeme?]
  | _ => simp [Tree.unscanned, Move.lexeme?, Event.lexeme?]

/-- A stuck parser has the rejected token waiting, unless it is a name. -/
theorem Stuck.waits_or {scopes : Scopes} {f : Phrase} {room : Nat} {used : List Token} {bad : Token}
    {pr : Problem} {moves : List Move} (h : Stuck scopes f room used bad pr moves) :
    (∀ b, waits b moves = true) ∨ bad.kind = .identifier := by
  induction h with
  | unresolved room hk _ => exact .inr hk
  | sign t _ ih => exact ih.imp_left fun h _ => h _
  | inside l _ ih => exact ih.imp_left fun h _ => h _
  | unclosed l he hop hk => exact .inl fun b => by simp [waits]
  | first _ ih => exact ih
  | later he op _ ih => exact ih.imp_left fun h b => by simp [waits, h]
  | _ => exact .inl fun _ => rfl

theorem StuckSentence.waits_or {scopes : Scopes} {used : List Token} {bad : Token} {pr : Problem}
    {moves : List Move} (h : StuckSentence scopes used bad pr moves) (b : Bool) :
    waits b moves = true ∨ bad.kind = .identifier := by
  cases h with
  | inside _ h => exact h.waits_or.imp_left fun h => h _
  | unfinished he hop hk => exact .inl (by simp [waits])
  | _ => exact .inl rfl

namespace Sentence

theorem unscanned (scopes : Scopes) (s : Sentence) : Unscanned (s.moves scopes) := by
  cases s with
  | declaration intro ident colon type semicolon =>
    rw [moves, warning]
    split <;> simp [blame, Move.lexeme?, Event.lexeme?, List.replicate]
  | evaluation e semicolon => simp [moves, e.unscanned, Move.lexeme?, Event.lexeme?]

/-- The moves over some statements consume their tokens and look at the token after them. -/
theorem allMoves_shape (ss : List Sentence) : ∀ (scopes : Scopes),
    Unscanned (allMoves scopes ss) ∧ skipCount (allMoves scopes ss) = (ss.flatMap tokens).length ∧
      ∀ b, waits b (allMoves scopes ss) = true := by
  induction ss with
  | nil => exact fun _ => ⟨by simp [allMoves, Move.lexeme?], rfl, fun _ => rfl⟩
  | cons s ss ih =>
    intro scopes
    obtain ⟨hscan, hskip, hwait⟩ := ih (s.effect scopes)
    refine ⟨by simp [allMoves, s.unscanned, hscan, Move.lexeme?], ?_, fun b => ?_⟩
    · have hfirst := s.skipCount_moves scopes
      rw [allMoves, List.flatMap_cons, List.length_append, ← hskip, ← hfirst, ← skipCount_append]
      rfl
    · simp [allMoves, waits, hwait]

end Sentence

/-! ### What parsers have scanned -/

/-- Tokens before another one are no end tokens. -/
theorem kind_ne_of_append_cons {body before rest : List Token} {eof bad : Token}
    (hbody : ∀ t ∈ body, t.kind ≠ .endOfFile) (h : body ++ [eof] = before ++ bad :: rest) :
    ∀ t ∈ before, t.kind ≠ .endOfFile := by
  intro t ht hk
  obtain ⟨xs, ys, rfl⟩ := List.append_of_mem ht
  obtain ⟨rfl, -⟩ := eq_of_append_end hbody hk (by simpa using h)
  have hlength := congrArg List.length h
  simp only [List.length_append, List.length_cons, List.length_nil] at hlength
  omega

/-- A parser that gives up has looked at the token that it rejects, and at none after it. -/
theorem ProgramStuck.reach_programMoves {scopes : Scopes} {ss : List Sentence} {used : List Token}
    {bad : Token} {pr : Problem} {moves : List Move} (h : ProgramStuck scopes ss used bad pr moves)
    (depth : Nat) :
    reach false (Parse.programMoves depth (Sentence.allMoves scopes ss ++ (moves ++ [blame pr bad])) []) =
      (ss.flatMap Sentence.tokens ++ used).length + 1 := by
  obtain ⟨-, hskip, hwait⟩ := Sentence.allMoves_shape ss scopes
  have hlast : reach true (moves ++ [blame pr bad, .record (.scopeClosed depth)]) = used.length + 1 := by
    rw [← h.stuck.reach_moves true]
    simp [reach, blame, skipCount, waits]
  simp [Parse.programMoves, reach_append, hskip, hwait, hlast, Nat.add_assoc]

namespace Lexer.Stands

variable {σ : Type} [CharSource σ] {q : Lexer σ} {eof : Token}

/-- A parser that accepts a program has consumed its tokens, and looks at the end token. -/
theorem accepted {ss : List Sentence} (h : q.Stands [] false (ss.flatMap Sentence.tokens ++ [eof]))
    (depth n : Nat) (scopes : Scopes) :
    Stands (Lookahead.play q (Parse.programMoves depth (Sentence.allMoves scopes ss)
      [.record (.parsedProgram n)])) (ss.flatMap Sentence.tokens) true [eof] := by
  obtain ⟨hscan, hskip, hwait⟩ := Sentence.allMoves_shape ss scopes
  generalize hmoves : Parse.programMoves depth _ _ = moves
  have hunscanned : Unscanned moves := by
    simp [← hmoves, Parse.programMoves, hscan, Move.lexeme?, Event.lexeme?]
  have hcount : skipCount moves = (ss.flatMap Sentence.tokens).length := by
    rw [← hmoves, ← hskip]
    simp [Parse.programMoves, skipCount]
  have hwaits : waits false moves = true := by
    simp [← hmoves, Parse.programMoves, waits, hwait]
  obtain ⟨taken, left, hsplit, htaken, hstands⟩ :=
    h.play moves hunscanned (by rw [reach, hcount, hwaits]; simp)
  -- as many tokens are taken as the statements have
  obtain ⟨rfl, rfl⟩ := List.append_inj hsplit (hcount.symm.trans htaken.symm)
  rw [hwaits] at hstands
  exact hstands

/-- A parser that gives up has consumed no end token, and it has scanned the tokens up to the one that it
rejects. -/
theorem rejected {body : List Token} (h : q.Stands [] false (body ++ [eof]))
    (hbody : ∀ t ∈ body, t.kind ≠ .endOfFile) {scopes : Scopes} {ss : List Sentence}
    {used rest : List Token} {bad : Token} {pr : Problem} {moves : List Move}
    (heq : body ++ [eof] = ss.flatMap Sentence.tokens ++ (used ++ bad :: rest))
    (hst : ProgramStuck scopes ss used bad pr moves) (depth : Nat) :
    ∃ taken b coming, Stands (Lookahead.play q (Parse.programMoves depth
        (Sentence.allMoves scopes ss ++ (moves ++ [blame pr bad])) [])) taken b coming ∧
      body ++ [eof] = taken ++ coming ∧ (∀ t ∈ taken, t.kind ≠ .endOfFile) ∧
      taken ++ coming.take b.toNat = (ss.flatMap Sentence.tokens ++ used) ++ [bad] := by
  obtain ⟨hscan, -, hwait⟩ := Sentence.allMoves_shape ss scopes
  have hreach := hst.reach_programMoves depth
  generalize hmoves : Parse.programMoves depth _ _ = all at hreach ⊢
  have hunscanned : Unscanned all := by
    simp [← hmoves, Parse.programMoves, hscan, hst.stuck.unscanned, blame, Move.lexeme?,
      Event.lexeme?]
  have hwaits : waits false all = true ∨ bad.kind = .identifier := by
    simpa [← hmoves, Parse.programMoves, waits, hwait, blame] using hst.stuck.waits_or true
  rw [← List.append_assoc] at heq
  obtain ⟨taken, coming, hsplit, htaken, hstands⟩ :=
    h.play all hunscanned (by rw [hreach, heq]; simp)
  rw [List.nil_append] at hstands
  -- the tokens that were scanned are as many as those up to the rejected one
  have hpulled : taken ++ coming.take (waits false all).toNat =
      (ss.flatMap Sentence.tokens ++ used) ++ [bad] := by
    have htake : (body ++ [eof]).take (reach false all) =
        taken ++ coming.take (waits false all).toNat := by
      rw [hsplit, reach, ← htaken, List.take_length_add_append]
    rw [← htake, hreach, heq, List.take_length_add_append]
    rfl
  have hbefore := kind_ne_of_append_cons hbody heq
  refine ⟨taken, _, coming, hstands, hsplit, ?_, hpulled⟩
  rcases hwaits with hwaits | hbad
  · -- the rejected token still waits, so all that was taken comes before it
    have hlength : taken.length = (ss.flatMap Sentence.tokens ++ used).length := by
      rw [reach, hwaits] at hreach
      exact htaken.trans (Nat.succ.inj hreach)
    rw [(List.append_inj hpulled hlength).1]
    exact hbefore
  · -- a name is consumed before it is looked up, so the rejected token may be taken too
    intro t ht
    have hmem : t ∈ (ss.flatMap Sentence.tokens ++ used) ++ [bad] :=
      hpulled ▸ List.mem_append_left _ ht
    rcases List.mem_append.1 hmem with ht | ht
    · exact hbefore t ht
    · rw [List.mem_singleton.1 ht, hbad]
      decide

end Lexer.Stands

/-! ### Agreement -/

/-- The lexer that is left when a text has been parsed. -/
def lexerAfter (name text : String) (tabWidth : Nat) : Lexer (List Char) :=
  let journal := Journal.empty.record (.parsingText name text.utf8ByteSize)
  (Parse.program { tokens := Lexer.start name text.toList tabWidth journal }).2.tokens

theorem Analysis.scanned_reportFailure (name : String) (failure : Option String) (j : Journal) :
    (reportFailure name failure j).scanned = j.scanned := by
  cases failure with
  | none => rfl
  | some reason => exact (Journal.scanned_record _ _).trans (List.append_nil _)

/-- Parsing has scanned what its lexer has scanned. -/
theorem scanned_parseText (name text : String) (tabWidth : Nat) :
    (parseText name text tabWidth).journal.scanned =
      (lexerAfter name text tabWidth).source.journal.scanned := by
  simp [parseText, parseTextAfter, Analysis.parse, lexerAfter, Journal.scanned_record,
    Analysis.scanned_reportFailure, Event.lexeme?]

/-- The scanner's reports on a text, heard of by parsing and by tokenizing. -/
theorem lexical_parseText (name text : String) (tabWidth : Nat) :
    (parseText name text tabWidth).lexical <+: (tokenizeText name text tabWidth).diagnostics ∧
      ∀ program, (parseText name text tabWidth).program = some program →
        (parseText name text tabWidth).lexical = (tokenizeText name text tabWidth).diagnostics := by
  obtain ⟨segments, hseg⟩ := exists_segmentation text.toList
  rw [(tokenizeText_eq name tabWidth hseg).2.1]
  rcases parseText_heard name tabWidth hseg with
    ⟨ss, last, p, hpulls, hlast, -, -, hdiagnostics⟩ |
    ⟨ss, last, final, rest, used, bad, pr, moves, hpulls, hlast, -, hst, hnone, hdiagnostics⟩
  · -- a program: the end token was pulled as well, so all reports have been heard
    have hmem : ∀ q ∈ last ++ [p], q ∈ pulls tabWidth [] segments := hpulls ▸ fun _ hq => hq
    obtain ⟨hfirst, hp⟩ := List.forall_mem_append.1 hmem
    have hall : (parseText name text tabWidth).lexical =
        (pulls tabWidth [] segments).flatMap Pull.reports := by
      have hend := filter_reports_of_pulls hp
      rw [Parsed.lexical, hdiagnostics, List.filter_append,
        Sentence.filter_lexical_heard ss hfirst (by rw [← hlast, List.length_map]), hpulls,
        List.flatMap_append, ← hend]
      simp
    exact ⟨hall ▸ List.prefix_rfl, fun _ _ => hall⟩
  · -- a rejection: what comes behind the rejected token was never pulled
    have hmem : ∀ q ∈ (last ++ final) ++ rest, q ∈ pulls tabWidth [] segments := by
      rw [List.append_assoc, ← hpulls]
      exact fun _ hq => hq
    obtain ⟨hscanned, -⟩ := List.forall_mem_append.1 hmem
    obtain ⟨hfirst, hfinal⟩ := List.forall_mem_append.1 hscanned
    have hcode : ((pr.diagnose bad.location).code ∈ lexicalCodes) = False := by
      have hall : ∀ code ∈ rejectionCodes, code ∉ lexicalCodes := by decide
      exact eq_false (hall _ hst.stuck.code_mem)
    have hup : (parseText name text tabWidth).lexical = (last ++ final).flatMap Pull.reports := by
      rw [Parsed.lexical, hdiagnostics, List.filter_append, List.filter_append,
        Sentence.filter_lexical_heard ss hfirst (by rw [← hlast, List.length_map]),
        filter_reports_of_pulls hfinal, List.flatMap_append]
      simp [hcode]
    refine ⟨?_, fun program hsome => ?_⟩
    · rw [hup, hpulls, ← List.append_assoc]
      exact (List.prefix_append _ _).flatMap _
    · rw [hnone] at hsome
      cases hsome

/-- The file and the lines of a text, entered by parsing and by tokenizing. -/
theorem lines_parseText (name text : String) (tabWidth : Nat) :
    (parseText name text tabWidth).lines.files = (tokenizeText name text tabWidth).lines.files ∧
      (parseText name text tabWidth).lines.starts <:+ (tokenizeText name text tabWidth).lines.starts ∧
      ∀ eof ∈ (lexerAfter name text tabWidth).buffer, eof.kind = .endOfFile →
        (parseText name text tabWidth).lines.starts =
          (tokenizeText name text tabWidth).lines.starts := by
  let journal := Journal.empty.record (.parsingText name text.utf8ByteSize)
  obtain ⟨segments, hseg⟩ := exists_segmentation text.toList
  have hstart : Lexer.Within name tabWidth segments (Lexer.start name text.toList tabWidth journal) :=
    ⟨[], segments, rfl, Scanner.faces_start name tabWidth hseg (Lookahead.spells_text _) journal,
      fun ⟨_, ht, _⟩ => absurd ht List.not_mem_nil⟩
  -- all that a parser does to its lexer is to make moves
  obtain ⟨moves, -, hrun, -⟩ :=
    Parse.runs_program { tokens := Lexer.start name text.toList tabWidth journal }
  have hafter : lexerAfter name text tabWidth = _ := hrun
  have hwithin : Lexer.Within name tabWidth segments (lexerAfter name text tabWidth) :=
    hafter ▸ hstart.play moves
  obtain ⟨-, -, hfiles, hstarts⟩ := tokenizeText_eq name tabWidth hseg
  rw [hfiles, hstarts]
  exact ⟨hwithin.files, hwithin.starts, fun eof heof hk => hwithin.starts_of_end heof hk⟩

/-- What is left when a text has been parsed. Either it is a program, and the end token waits; or it is
rejected, and the last token that was scanned is the one it is rejected for. -/
theorem parseText_stands (name text : String) (tabWidth : Nat) :
    ∃ used b coming, (lexerAfter name text tabWidth).Stands used b coming ∧
      (tokenizeText name text tabWidth).tokens = used ++ coming ∧
      (∀ t ∈ used, t.kind ≠ .endOfFile) ∧
      (parseText name text tabWidth).program = Analysis.programOf (Parse.program
        { tokens := .ofSource (tokenizeText name text tabWidth).tokens }).1 ∧
      ((∃ eof program, (parseText name text tabWidth).program = some program ∧
          eof ∈ (lexerAfter name text tabWidth).buffer ∧ eof.kind = .endOfFile) ∨
        ∃ (problem : Problem) (last : Token), (parseText name text tabWidth).program = none ∧
          (used ++ coming.take b.toNat).getLast? = some last ∧ problem.entry.code ∈ rejectionCodes ∧
          (parseText name text tabWidth).diagnostics.getLast? =
            some (problem.diagnose last.location)) := by
  let journal := Journal.empty.record (.parsingText name text.utf8ByteSize)
  obtain ⟨segments, hseg⟩ := exists_segmentation text.toList
  obtain ⟨body, eof, hpulls, -, hend⟩ :=
    Lexer.toEnd_pulls hseg (Lookahead.spells_text _) name tabWidth journal
  have htokens : (tokenizeText name text tabWidth).tokens = body ++ [eof] :=
    (tokenizeText_eq name tabWidth hseg).1.trans hpulls
  have hstart : Lexer.Stands (Lexer.start name text.toList tabWidth journal) [] false
      (body ++ [eof]) := ⟨rfl, rfl, hend.yields⟩
  -- a text does not fail to be read, and the list of its tokens comes to the same end
  have hquiet := Lexer.takeFailure_text name text.toList tabWidth journal
  have hlist := toEnd_list hend.eof_kind hend.body_kind
  rw [htokens]
  rcases Parse.program_cases (p := { tokens := Lexer.start name text.toList tabWidth journal }) rfl
    hend (Scanner.named_of_toEnd hend) with
    ⟨ss, rfl, hfit, hrun⟩ | ⟨ss, used, bad, rest, pr, moves, heq, hst, hrun⟩
  · obtain ⟨hprogram, -, -⟩ := Analysis.parse_of_run hrun (hquiet _)
    have hafter : lexerAfter name text tabWidth = _ := congrArg (·.2.tokens) hrun
    have hstands : (lexerAfter name text tabWidth).Stands (ss.flatMap Sentence.tokens) true [eof] :=
      hafter ▸ hstart.accepted _ _ _
    refine ⟨_, true, [eof], hstands, rfl, hend.body_kind, ?_,
      .inl ⟨eof, _, hprogram, ?_, hend.eof_kind⟩⟩
    · rw [Parse.program_ok (p := { tokens := .ofSource _ }) rfl hlist hfit]
      exact hprogram
    · rw [hstands.buffer]
      exact List.mem_cons_self
  · obtain ⟨hprogram, hdiagnostics, -⟩ := Analysis.parse_of_run hrun (hquiet _)
    have hafter : lexerAfter name text tabWidth = _ := congrArg (·.2.tokens) hrun
    obtain ⟨taken, b, coming, hstands, hsplit, hused, hpulled⟩ :=
      hstart.rejected hend.body_kind heq hst (Scopes.depth {})
    have hlast : (taken ++ coming.take b.toNat).getLast? = some bad := by
      rw [hpulled, List.getLast?_concat]
    rw [← List.append_assoc] at hdiagnostics
    refine ⟨taken, b, coming, hafter ▸ hstands, hsplit, hused, ?_,
      .inr ⟨pr, bad, hprogram, hlast, hst.stuck.code_mem, ?_⟩⟩
    · rw [Parse.program_stuck (p := { tokens := .ofSource _ }) rfl hlist heq hst]
      exact hprogram
    · exact (congrArg List.getLast? hdiagnostics).trans (getLast_blame _ _ _ pr bad)

/-- What parsing reports about the characters of a text, and the lines that it enters, are the first of
those that tokenizing finds, and all of them if the text is a program. Parsing has the same outcome as
reading the list of the tokens. It consumes no end token, and scans the consumed tokens and the one that
waits and no others; if it gives up, then the last of these is where it says that the text is wrong. -/
theorem parsing_agrees_with_tokenizing (name text : String) (tabWidth : Nat) :
    (parseText name text tabWidth).lexical <+: (tokenizeText name text tabWidth).diagnostics ∧
      (parseText name text tabWidth).lines.files = (tokenizeText name text tabWidth).lines.files ∧
      (parseText name text tabWidth).lines.starts.reverse <+:
        (tokenizeText name text tabWidth).lines.starts.reverse ∧
      (∀ program, (parseText name text tabWidth).program = some program →
        (parseText name text tabWidth).lexical = (tokenizeText name text tabWidth).diagnostics ∧
        (parseText name text tabWidth).lines.starts =
          (tokenizeText name text tabWidth).lines.starts) ∧
      (parseText name text tabWidth).program = Analysis.programOf (Parse.program
        { tokens := .ofSource (tokenizeText name text tabWidth).tokens }).1 ∧
      ∃ used rest, (tokenizeText name text tabWidth).tokens =
          used ++ ((lexerAfter name text tabWidth).buffer ++ rest) ∧
        (parseText name text tabWidth).journal.scanned =
          (used ++ (lexerAfter name text tabWidth).buffer).map Token.lexeme ∧
        (∀ t ∈ used, t.kind ≠ .endOfFile) ∧
        ((parseText name text tabWidth).program = none → ∃ (problem : Problem) (last : Token),
          (used ++ (lexerAfter name text tabWidth).buffer).getLast? = some last ∧
          problem.entry.code ∈ rejectionCodes ∧
          (parseText name text tabWidth).diagnostics.getLast? =
            some (problem.diagnose last.location)) := by
  obtain ⟨used, b, coming, hstands, htokens, hused, hprogram, hcases⟩ :=
    parseText_stands name text tabWidth
  obtain ⟨hlexical, hlexical'⟩ := lexical_parseText name text tabWidth
  obtain ⟨hfiles, hstarts, hstarts'⟩ := lines_parseText name text tabWidth
  refine ⟨hlexical, hfiles, List.reverse_prefix.2 hstarts, ?_, hprogram, used, coming.drop b.toNat, ?_, ?_,
    hused, ?_⟩
  · intro program hsome
    rcases hcases with ⟨eof, _, _, heof, hk⟩ | ⟨_, _, hnone, _⟩
    · exact ⟨hlexical' program hsome, hstarts' eof heof hk⟩
    · rw [hsome] at hnone
      cases hnone
  · rw [htokens, hstands.buffer, List.take_append_drop]
  · rw [scanned_parseText, hstands.buffer, hstands.scanned]
  · intro hnone
    rcases hcases with ⟨_, program, hsome, _⟩ | ⟨problem, last, _, hlast, hcode, hdiagnostic⟩
    · rw [hnone] at hsome
      cases hsome
    · exact ⟨problem, last, by rw [hstands.buffer, hlast], hcode, hdiagnostic⟩

/-- Parsing stops at the semicolon, and does not hear of the character after it. -/
theorem parsing_stops_before_tokenizing :
    (parseText "unit" "@ 1 + ;\n@ 2;" 8).lexical.length = 1 ∧
      (tokenizeText "unit" "@ 1 + ;\n@ 2;" 8).diagnostics.length = 2 ∧
      (parseText "unit" "@ 1 + ;\n@ 2;" 8).lexical <+:
        (tokenizeText "unit" "@ 1 + ;\n@ 2;" 8).diagnostics ∧
      (parseText "unit" "@ 1 + ;\n@ 2;" 8).program = none ∧
      ∃ (problem : Problem) (last : Token),
        (lexerAfter "unit" "@ 1 + ;\n@ 2;" 8).buffer.getLast? = some last ∧
        problem.entry.code ∈ rejectionCodes ∧
        (parseText "unit" "@ 1 + ;\n@ 2;" 8).diagnostics.getLast? =
          some (problem.diagnose last.location) := by
  have hnone : (parseText "unit" "@ 1 + ;\n@ 2;" 8).program = none := by decide +kernel
  obtain ⟨hlexical, -, -, -, -, used, rest, -, -, -, hlast⟩ :=
    parsing_agrees_with_tokenizing "unit" "@ 1 + ;\n@ 2;" 8
  obtain ⟨problem, last, hwaiting, hcode, hdiagnostic⟩ := hlast hnone
  have hbuffer : (lexerAfter "unit" "@ 1 + ;\n@ 2;" 8).buffer ≠ [] := by decide +kernel
  rw [List.getLast?_append_of_ne_nil _ hbuffer] at hwaiting
  exact ⟨by decide +kernel, by decide +kernel, hlexical, hnone, problem, last, hwaiting, hcode,
    hdiagnostic⟩

end SwiftDialect
