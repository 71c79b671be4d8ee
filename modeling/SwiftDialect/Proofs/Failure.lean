import SwiftDialect.Proofs.Agreement
import SwiftDialect.Proofs.Positions

/-!
# Reading that fails

A reader that fails part way through has spelled a text by then. What is found in the text stands, and the
failure is reported after it, once it has come to light. It comes to light no later than the end of the
text: a scanner that gives out an end token has asked the reader for more and got nothing.

Main statement: a unit whose reading fails is no program, and apart from the failure it is reported what
would be reported of the text before it (`reading_fails_once`).
-/

namespace SwiftDialect

universe u

/-! ### Taking characters and putting them back -/

/-- Taking the next character, if there is one, keeps the property, and so does looking at what comes. -/
structure Lookahead.Stable {σ : Type u} [CharSource σ] (P : Lookahead σ (Option Char) → Prop) : Prop where
  pop : ∀ {q c}, q.pop.1 = some c → P q → P q.pop.2
  look : ∀ {q}, P q → P (q.pop.2.unread q.pop.1)

namespace Lookahead.Stable

variable {σ : Type u} [CharSource σ] {P : Lookahead σ (Option Char) → Prop} {s : Scanner σ}

theorem takeWhile (h : Stable P) (test : Char → Bool) {q : Lookahead σ (Option Char)} (hq : P q) :
    P (q.takeWhile test).2 := by
  fun_induction Lookahead.takeWhile test q with
  | case1 q hpop => exact hpop ▸ h.look hq
  | case2 q c hpop _ _ taken rest heq ih =>
    rw [heq] at ih
    exact ih (h.pop hpop hq)
  | case3 q c hpop _ _ => exact hpop ▸ h.look hq

theorem eat (h : Stable P) (c : Char) {q : Lookahead σ (Option Char)} (hq : P q) : P (q.eat c).2 := by
  unfold Lookahead.eat
  split
  · next hpop => exact h.pop hpop hq
  · exact h.look hq

theorem number (h : Stable P) (c : Char) (l : Location) (hs : P s.chars) : P (s.number c l).2.chars := by
  have hdigits := h.takeWhile Char.isDigit hs
  by_cases hc : c = '.'
  · simp only [Scanner.number, hc, if_true, Bool.false_eq_true, if_false]
    exact hdigits
  · simp only [Scanner.number, hc, if_false]
    split
    · exact h.takeWhile Char.isDigit (h.eat '.' hdigits)
    · exact h.eat '.' hdigits

theorem string (h : Stable P) (l : Location) (hs : P s.chars) : P (s.string l).2.chars := by
  have hquote := h.eat '"' (h.takeWhile (fun c => c != '"' && c != '\n') hs)
  unfold Scanner.string
  dsimp only
  split <;> exact hquote

theorem stepFrom (h : Stable P) (c : Char) (l : Location) (hs : P s.chars) :
    P (s.stepFrom c l).2.chars := by
  unfold Scanner.stepFrom
  split
  · exact hs
  · exact hs
  · exact hs
  · exact h.takeWhile _ hs
  · exact h.string l hs
  · exact h.takeWhile _ hs
  · exact h.number c l hs
  · exact hs
  · have heat := h.eat '=' hs
    split
    · next heq =>
      rw [heq] at heat
      exact heat
    · next heq =>
      rw [heq] at heat
      split <;> exact heat
  · exact hs

theorem step (h : Stable P) (hs : P s.chars) : P s.step.2.chars := by
  have hlook := h.look hs
  unfold Scanner.step
  split
  · next heq =>
    rw [heq] at hlook
    exact hlook
  · next c chars heq =>
    have hpop := h.pop (c := c) (by rw [heq]) hs
    rw [heq] at hpop
    exact h.stepFrom _ _ hpop

theorem scan (h : Stable P) (hs : P s.chars) : P s.scan.2.chars := by
  obtain ⟨s', hs', -, heq⟩ := Scanner.exists_last_step (P := fun s => P s.chars)
    (fun s hs _ => h.step hs) s hs
  rw [heq]
  exact h.step hs'

end Lookahead.Stable

/-- A step that yields an end token has found no character. -/
theorem Scanner.pop_of_step_end {σ : Type u} [CharSource σ] {s : Scanner σ} {t : Token}
    (h : s.step.1 = some t) (hk : t.kind = .endOfFile) : s.chars.pop.1 = none := by
  obtain ⟨cs, hspells⟩ := Lookahead.exists_spells s.chars
  obtain ⟨segments, hseg⟩ := exists_segmentation cs
  cases segments with
  | nil =>
    rw [← hseg.chars] at hspells
    exact Lookahead.spells_nil.1 hspells
  | cons segment ahead =>
    obtain ⟨rest, rfl, hstands, -⟩ := isSegmentation_cons.1 hseg
    obtain ⟨x, hx, rfl⟩ := Option.map_eq_some_iff.1 ((step_passes hstands hspells).token.symm.trans h)
    exact absurd hk (hstands.kind_ne x hx)

/-! ### Readers that fail -/

/-- A reader stands behind the lookahead, and once an end waits, the reader is done. -/
structure Reader.Feeds (failure : Option String) (q : Lookahead Reader (Option Char)) : Prop where
  holds : ∃ bytes, q.source.Holds bytes failure
  ended : none ∈ q.buffer → q.source.Done failure

namespace Reader

variable {failure : Option String}

theorem Feeds.pop {q : Lookahead Reader (Option Char)} (h : Feeds failure q) :
    Feeds failure q.pop.2 ∧ (q.pop.1 = none → q.pop.2.source.Done failure) := by
  obtain ⟨buffer, r⟩ := q
  obtain ⟨⟨bytes, hholds⟩, hended⟩ := h
  cases buffer with
  | cons a rest =>
    refine ⟨⟨⟨bytes, hholds⟩, fun hmem => hended (List.mem_cons_of_mem a hmem)⟩, fun hnone => hended ?_⟩
    exact List.mem_cons.2 (.inl hnone.symm)
  | nil =>
    cases bytes with
    | nil =>
      -- the last byte is gone, so the reader has come to its end
      obtain ⟨-, hpending, hdone⟩ := hholds.next_nil
      exact ⟨⟨⟨[], .inr ⟨rfl, hpending, hdone⟩⟩, fun _ => hdone⟩, fun _ => hdone⟩
    | cons b bytes =>
      obtain ⟨hsome, hrest⟩ := hholds.next_cons
      refine ⟨⟨⟨_, hrest⟩, fun hmem => absurd hmem List.not_mem_nil⟩, fun hnone => ?_⟩
      cases hsome.symm.trans hnone

theorem stable_feeds (failure : Option String) : Lookahead.Stable (Feeds failure) where
  pop _ h := h.pop.1
  look {q} h := by
    refine ⟨h.pop.1.holds, fun hmem => ?_⟩
    rcases List.mem_cons.1 hmem with hnone | hmem
    · exact h.pop.2 hnone.symm
    · exact h.pop.1.ended hmem

/-- A scanner that gives out an end token has brought the failure to light. -/
theorem Feeds.next {s : Scanner Reader} (h : Feeds failure s.chars) :
    Feeds failure (Producer.next s).2.chars ∧
      ((Producer.next s).1.kind = .endOfFile → (Producer.next s).2.chars.source.Done failure) := by
  obtain ⟨s', hs', hstep, heq⟩ := Scanner.exists_last_step (P := fun s => Feeds failure s.chars)
    (fun s hs _ => (stable_feeds failure).step hs) s h
  have hkept := (stable_feeds failure).step hs'
  rw [← heq] at hkept
  refine ⟨hkept, fun hk => hkept.ended ?_⟩
  have hpop := Scanner.pop_of_step_end hstep hk
  have hchars : s'.step.2.chars = s'.chars.pop.2.unread none := by
    rw [Scanner.step, ← Prod.eta s'.chars.pop, hpop]
  show none ∈ s.scan.2.chars.buffer
  rw [heq, hchars]
  exact List.mem_cons_self

/-- What a reader that has come so far has to hand over. -/
theorem Holds.takeFailure {r : Reader} {bytes : List UInt8} (h : r.Holds bytes failure) :
    r.takeFailure.1 = none ∨ r.takeFailure.1 = failure := by
  rcases h with hlive | ⟨-, -, hdone⟩
  · exact .inl hlive.noFailure
  · exact .inr hdone.kept

end Reader

namespace Lexer

variable {failure : Option String} {q : Lexer Reader}

/-- A reader stands behind the lexer, and once an end token waits, the reader is done. -/
structure Fed (failure : Option String) (q : Lexer Reader) : Prop where
  feeds : Reader.Feeds failure q.source.chars
  ended : ∀ t ∈ q.buffer, t.kind = .endOfFile → q.source.chars.source.Done failure

theorem Fed.pop (h : q.Fed failure) : Fed failure (Lookahead.pop q).2 ∧
    ((Lookahead.pop q).1.kind = .endOfFile →
      (Lookahead.pop q).2.source.chars.source.Done failure) := by
  obtain ⟨buffer, s⟩ := q
  obtain ⟨hfeeds, hended⟩ := h
  cases buffer with
  | nil => exact ⟨⟨hfeeds.next.1, fun t ht => absurd ht List.not_mem_nil⟩, hfeeds.next.2⟩
  | cons t rest =>
    obtain ⟨hfirst, hrest⟩ := List.forall_mem_cons.1 hended
    exact ⟨⟨hfeeds, hrest⟩, hfirst⟩

theorem Fed.play (moves : List Move) : ∀ {q : Lexer Reader}, q.Fed failure →
    Fed failure (Lookahead.play q moves) := by
  induction moves with
  | nil => exact fun h => h
  | cons m moves ih =>
    intro q h
    refine ih ?_
    cases m with
    | peek => exact ⟨h.pop.1.feeds, List.forall_mem_cons.2 ⟨h.pop.2, h.pop.1.ended⟩⟩
    | skip => exact h.pop.1
    | record e => exact ⟨h.feeds, h.ended⟩

/-- By the time all tokens have been read the failure has come to light. -/
theorem Fed.readToEnd (bound : Nat) : ∀ {q : Lexer Reader}, q.Fed failure → q.tokensLeft ≤ bound →
    (Lookahead.readToEnd bound q).2.source.chars.source.Done failure := by
  induction bound with
  | zero =>
    intro q h hle
    -- no token is left but the end
    refine h.pop.2 (Decidable.byContradiction fun hne => ?_)
    have hlt := Lookahead.tokensLeft_pop_lt hne
    omega
  | succ bound ih =>
    intro q h hle
    by_cases hend : (Lookahead.pop q).1.kind = .endOfFile
    · simp only [Lookahead.readToEnd, hend, if_true]
      exact h.pop.2 hend
    · have hlt := Lookahead.tokensLeft_pop_lt hend
      simp only [Lookahead.readToEnd, hend, if_false]
      exact ih h.pop.1 (by omega)

theorem fed_start {reads : List Read} {bytes : List UInt8} (h : Delivers reads bytes failure)
    (name : String) (w : Nat) (journal : Journal) :
    Fed failure (start name { reads } w journal) :=
  ⟨⟨⟨bytes, Reader.holds_start h⟩, fun hmem => absurd hmem List.not_mem_nil⟩,
    fun _ hmem => absurd hmem List.not_mem_nil⟩

end Lexer

/-! ### Outcomes -/

/-- The report that reading has failed. -/
def readFailure (name reason : String) : Diagnostic :=
  (Problem.readFailed name reason).draft.build

namespace Analysis

theorem diagnostics_reportFailure (name : String) (failure : Option String) (j : Journal) :
    (reportFailure name failure j).diagnostics =
      j.diagnostics ++ failure.toList.map (readFailure name) := by
  cases failure with
  | none => exact (List.append_nil _).symm
  | some reason => exact Journal.diagnostics_record _ _

/-- The outcome of parsing a unit, whether or not a failure has come to light. -/
theorem parse_of_failing_run {σ : Type} [CharSource σ] {source : σ} {name : String} {w : Nat}
    {journal : Journal} {outcome : Except Stop Program} {moves : List Move}
    (hrun : Parse.program { tokens := Lexer.start name source w journal } = (outcome,
      ({ tokens := Lexer.start name source w journal } : Parser (Scanner σ)).play moves)) :
    (parse name source w journal).program = (if (Lexer.takeFailure (Lookahead.play
        (Lexer.start name source w journal) moves)).1.isSome then none else programOf outcome) ∧
      (parse name source w journal).diagnostics =
        (Lookahead.play (Lexer.start name source w journal) moves).source.journal.diagnostics ++
          (Lexer.takeFailure (Lookahead.play (Lexer.start name source w journal)
            moves)).1.toList.map (readFailure name) ∧
      (parse name source w journal).lines =
        (Lookahead.play (Lexer.start name source w journal) moves).source.lines := by
  simp only [parse, hrun, Parser.play, Parsed.diagnostics, Journal.diagnostics_record,
    diagnostics_reportFailure, Event.diagnostic?, Option.toList_none, List.append_nil, and_self]

variable {reads : List Read} {bytes : List UInt8} {reason : String}

/-- Tokenizing finds the tokens of the text, and then the failure. -/
theorem tokenize_failing (h : Delivers reads bytes (some reason)) (name : String) (w : Nat) :
    (tokenize name ({ reads } : Reader) w).tokens = (tokenize name (Utf8.decodeLossy bytes) w).tokens ∧
      (tokenize name ({ reads } : Reader) w).lines = (tokenize name (Utf8.decodeLossy bytes) w).lines ∧
      (tokenize name ({ reads } : Reader) w).diagnostics =
        (tokenize name (Utf8.decodeLossy bytes) w).diagnostics ++ [readFailure name reason] := by
  obtain ⟨htokens, halike⟩ := readAll_alike (Reader.holds_start h).spells
    (Lookahead.spells_text (Utf8.decodeLossy bytes)) name w
  have hdone : (Lexer.takeFailure (Lexer.start name ({ reads } : Reader) w .empty).readAll.2).1 =
      some reason := ((Lexer.fed_start h name w .empty).readToEnd _ (Nat.le_refl _)).kept
  -- a text has no failure to take; the reader has kept one
  have hquiet : (Lexer.takeFailure
      (Lexer.start name (Utf8.decodeLossy bytes) w .empty).readAll.2).1 = none := by
    rw [Lookahead.readAll, Lookahead.readToEnd_snd]
    exact Lexer.takeFailure_text name _ w .empty _
  obtain ⟨es, he₁, he₂⟩ := halike.source.events
  refine ⟨htokens, halike.source.lines, ?_⟩
  simp only [tokenize, Tokenized.diagnostics, Journal.diagnostics_record, diagnostics_reportFailure,
    hdone, hquiet, he₁, he₂, Event.diagnostic?]
  simp

/-- Parsing takes the course that it takes for the text, and then the failure is reported if it has come to
light by then. -/
theorem parse_failing (h : Delivers reads bytes (some reason)) {text : String}
    (htext : text.toList = Utf8.decodeLossy bytes) (name : String) (w : Nat) :
    ∃ failure, (failure = none ∨ failure = some reason) ∧
      ((∃ eof ∈ (lexerAfter name text w).buffer, eof.kind = .endOfFile) → failure = some reason) ∧
      (parseReader name { reads } w).program =
        (if failure.isSome then none else (parseText name text w).program) ∧
      (parseReader name { reads } w).diagnostics =
        (parseText name text w).diagnostics ++ failure.toList.map (readFailure name) := by
  let j₁ := Journal.empty.record (.parsingReader name)
  let j₂ := Journal.empty.record (.parsingText name text.utf8ByteSize)
  have hspells : (Lookahead.ofSource text.toList).Spells (Utf8.decodeLossy bytes) :=
    htext ▸ Lookahead.spells_text _
  have halike := alike_start (Reader.holds_start h).spells hspells name w j₁ j₂
  -- both runs make the same moves, so they differ only in the failure that is taken at the end
  obtain ⟨outcome, moves, hrun₁, hrun₂⟩ := program_alike halike
  have hplay := halike.play moves
  have hfed := (Lexer.fed_start h name w j₁).play moves
  obtain ⟨left, hholds⟩ := hfed.feeds.holds
  have hafter : lexerAfter name text w = _ := congrArg (·.2.tokens) hrun₂
  have hquiet := Lexer.takeFailure_text name text.toList w j₂ moves
  obtain ⟨hprogram₁, hdiagnostics₁, -⟩ := parse_of_failing_run hrun₁
  obtain ⟨hprogram₂, hdiagnostics₂, -⟩ := parse_of_run hrun₂ hquiet
  obtain ⟨es, he₁, he₂⟩ := hplay.source.events
  refine ⟨(Lexer.takeFailure (Lookahead.play (Lexer.start name ({ reads } : Reader) w j₁) moves)).1,
    hholds.takeFailure, ?_, ?_, ?_⟩
  · rintro ⟨eof, hmem, hk⟩
    rw [hafter] at hmem
    exact (hfed.ended eof (hplay.buffer ▸ hmem) hk).kept
  · rw [parseText, parseTextAfter, hprogram₂]
    exact hprogram₁
  · have hsame : (j₁.recordAll es).diagnostics = (j₂.recordAll es).diagnostics := by
      rw [Journal.diagnostics_recordAll, Journal.diagnostics_recordAll]
      rfl
    rw [he₁, hsame] at hdiagnostics₁
    rw [parseText, parseTextAfter, hdiagnostics₂, he₂]
    exact hdiagnostics₁

end Analysis

/-! ### Rejections at the end -/

/-- The unit is rejected, and the token at which it is rejected, the last one that was scanned, is its
end. -/
def Parsed.RejectedAtEnd (p : Parsed) : Prop :=
  p.program = none ∧ p.journal.scanned.getLast? = some endLexeme

/-- A rejection at the place of the end is a rejection at the end, unless the counters have run out. -/
theorem rejectedAtEnd_of_location {name text : String} {w : Nat} {eof : Token} {d : Diagnostic}
    (heof : (tokenizeText name text w).tokens.getLast? = some eof)
    (hroom : eof.location.handle < counterLimit)
    (hprogram : (parseText name text w).program = none)
    (hd : (parseText name text w).diagnostics.getLast? = some d) (hplace : d.location = some eof.location) :
    (parseText name text w).RejectedAtEnd := by
  obtain ⟨segments, hseg⟩ := exists_segmentation text.toList
  obtain ⟨used, b, coming, hstands, htokens, -, -,
      ⟨-, program, hsome, -⟩ | ⟨problem, last, -, hlast, -, hlastd⟩⟩ :=
    parseText_stands name text w
  · cases hprogram.symm.trans hsome
  -- the tokens are in order, so the one that is rejected can only be the last one
  have hends : eof = endLexeme.token (placeAfter w segments) := by
    rw [(tokenizeText_eq name w hseg).1, map_token_pulls] at heof
    simpa using heof.symm
  have hplaces : last.location = eof.location := by
    rw [hlastd] at hd
    obtain rfl := Option.some.inj hd
    exact Option.some.inj hplace
  -- with room for the handle of the end, no two tokens share a place
  have hhas : HasRoom w segments := by
    rw [hends] at hroom
    have hcapped : capped (handleAt (trace w segments)) < counterLimit := hroom
    rw [capped] at hcapped
    rw [HasRoom]
    omega
  have hpairs := hhas.pairwise_tokens hseg
  rw [← (tokenizeText_eq name w hseg).1] at hpairs
  have hmem : last ∈ (tokenizeText name text w).tokens := by
    rw [htokens, ← List.take_append_drop b.toNat coming, ← List.append_assoc]
    exact List.mem_append_left _ (List.mem_of_getLast? hlast)
  obtain ⟨init, hinit⟩ := List.getLast?_eq_some_iff.1 heof
  have heq : last = eof := by
    rw [hinit] at hmem hpairs
    rcases List.mem_append.1 hmem with hbefore | hlast
    · have hlt := (List.pairwise_append.1 hpairs).2.2 last hbefore eof List.mem_cons_self
      rw [hplaces] at hlt
      exact absurd hlt (Nat.lt_irrefl _)
    · exact List.mem_singleton.1 hlast
  refine ⟨hprogram, ?_⟩
  rw [scanned_parseText, hstands.scanned, List.getLast?_map, hlast, heq, hends]
  rfl

/-- If a text is a program or is rejected at its end, then the parser has looked at the end token. -/
theorem end_waits {name text : String} {w : Nat}
    (h : (parseText name text w).program ≠ none ∨ (parseText name text w).RejectedAtEnd) :
    ∃ eof ∈ (lexerAfter name text w).buffer, eof.kind = .endOfFile := by
  obtain ⟨used, b, coming, hstands, -, hused, -, ⟨eof, -, -, hmem, hk⟩ | ⟨-, last, hnone, hlast, -, -⟩⟩ :=
    parseText_stands name text w
  · exact ⟨eof, hmem, hk⟩
  obtain ⟨-, hend⟩ := h.resolve_left fun hne => hne hnone
  rw [scanned_parseText, hstands.scanned, List.getLast?_map, hlast] at hend
  have hk : last.kind = .endOfFile := congrArg Lexeme.kind (Option.some.inj hend)
  refine ⟨last, ?_, hk⟩
  rw [hstands.buffer]
  exact (List.mem_append.1 (List.mem_of_getLast? hlast)).resolve_left fun hmem => hused last hmem hk

/-- However the bytes before a failure arrive, tokenizing finds the tokens and the lines of the text that
they spell and reports what is wrong with it, and then reports the failure. Parsing comes to no program;
it reports what is wrong with the text, and after it the failure at most once, and once if the text is a
program or is rejected at its end. So there is never a result. -/
theorem reading_fails_once {reads : List Read} {bytes : List UInt8} {reason : String}
    (h : Delivers reads bytes (some reason)) {text : String}
    (htext : text.toList = Utf8.decodeLossy bytes) (name : String) (w : Nat) :
    ((readFailure name reason).code = "E7002" ∧ (readFailure name reason).severity = .fatal) ∧
      ((tokenizeReader name { reads } w).tokens = (tokenizeText name text w).tokens ∧
        (tokenizeReader name { reads } w).lines = (tokenizeText name text w).lines ∧
        (tokenizeReader name { reads } w).diagnostics =
          (tokenizeText name text w).diagnostics ++ [readFailure name reason]) ∧
      (parseReader name { reads } w).program = none ∧
      (∃ failures, (failures = [] ∨ failures = [readFailure name reason]) ∧
        (parseReader name { reads } w).diagnostics =
          (parseText name text w).diagnostics ++ failures ∧
        ((parseText name text w).program ≠ none → failures = [readFailure name reason]) ∧
        ((parseText name text w).RejectedAtEnd → failures = [readFailure name reason]) ∧
        (∀ eof d, (tokenizeText name text w).tokens.getLast? = some eof →
          eof.location.handle < counterLimit → (parseText name text w).program = none →
          (parseText name text w).diagnostics.getLast? = some d → d.location = some eof.location →
            failures = [readFailure name reason])) ∧
      ∃ e, (parseReader name { reads } w).result = .error e := by
  obtain ⟨failure, hcases, hend, hprogram, hdiagnostics⟩ := Analysis.parse_failing h htext name w
  have hone : (parseText name text w).program ≠ none ∨ (parseText name text w).RejectedAtEnd →
      failure.toList.map (readFailure name) = [readFailure name reason] := fun hat => by
    rw [hend (end_waits hat)]
    rfl
  have hnone : (parseReader name { reads } w).program = none := by
    rw [hprogram]
    split
    · rfl
    · next hquiet =>
      -- a program would have brought the failure to light
      refine Classical.byContradiction fun hne => hquiet ?_
      rw [hend (end_waits (.inl hne))]
      rfl
  refine ⟨⟨rfl, rfl⟩, ?_, hnone, ⟨_, ?_, hdiagnostics, fun hne => hone (.inl hne),
    fun hat => hone (.inr hat), fun eof d heof hroom hrejected hd hplace =>
      hone (.inr (rejectedAtEnd_of_location heof hroom hrejected hd hplace))⟩, ?_⟩
  · rw [tokenizeReader, tokenizeText, htext]
    exact Analysis.tokenize_failing h name w
  · rcases hcases with rfl | rfl
    · exact .inl rfl
    · exact .inr rfl
  · rw [Parsed.result, hnone]
    exact ⟨_, rfl⟩

/-- A program whose last character is cut off by an interruption, and a text that ends where an operand is
missing; the reading of both fails in the end. -/
theorem reading_fails_behind_program :
    (Delivers [.bytes [0x31], .interrupted, .bytes [0x3B], .failed "gone"] [0x31, 0x3B] (some "gone") ∧
      "1;".toList = Utf8.decodeLossy [0x31, 0x3B] ∧
      (parseText "unit" "1;" 8).program ≠ none ∧
      (parseReader "unit" { reads := [.bytes [0x31], .interrupted, .bytes [0x3B], .failed "gone"] }
        8).diagnostics = (parseText "unit" "1;" 8).diagnostics ++ [readFailure "unit" "gone"]) ∧
    (Delivers [.bytes [0x31, 0x2B], .failed "gone"] [0x31, 0x2B] (some "gone") ∧
      "1+".toList = Utf8.decodeLossy [0x31, 0x2B] ∧
      (parseText "unit" "1+" 8).RejectedAtEnd ∧
      (parseReader "unit" { reads := [.bytes [0x31, 0x2B], .failed "gone"] } 8).diagnostics =
        (parseText "unit" "1+" 8).diagnostics ++ [readFailure "unit" "gone"]) := by
  have hprogram : Delivers [.bytes [0x31], .interrupted, .bytes [0x3B], .failed "gone"] [0x31, 0x3B]
      (some "gone") :=
    .piece (List.cons_ne_nil _ _) (.interrupted (.piece (List.cons_ne_nil _ _) (.failed "gone" [])))
  have hoperand : Delivers [.bytes [0x31, 0x2B], .failed "gone"] [0x31, 0x2B] (some "gone") :=
    .piece (List.cons_ne_nil _ _) (.failed "gone" [])
  have htext : "1;".toList = Utf8.decodeLossy [0x31, 0x3B] := by decide +kernel
  have htext' : "1+".toList = Utf8.decodeLossy [0x31, 0x2B] := by decide +kernel
  have hsome : (parseText "unit" "1;" 8).program ≠ none := by decide +kernel
  have hat : (parseText "unit" "1+" 8).RejectedAtEnd := ⟨by decide +kernel, by decide +kernel⟩
  obtain ⟨-, -, -, ⟨failures, -, hfailures, hone, -⟩, -⟩ := reading_fails_once hprogram htext "unit" 8
  obtain ⟨-, -, -, ⟨failures', -, hfailures', -, hone', -⟩, -⟩ :=
    reading_fails_once hoperand htext' "unit" 8
  exact ⟨⟨hprogram, htext, hsome, hone hsome ▸ hfailures⟩, hoperand, htext', hat,
    hone' hat ▸ hfailures'⟩

end SwiftDialect
