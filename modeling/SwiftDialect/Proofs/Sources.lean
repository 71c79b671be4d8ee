import SwiftDialect.Analysis
import SwiftDialect.Proofs.Acceptance
import SwiftDialect.Proofs.Decoding
import SwiftDialect.Proofs.Reachable

/-!
# The same text from different sources

What is found in a unit depends on its text alone: two sources that spell the same text, and that
never fail, lead to the same tokens, the same program, the same diagnostics and the same line table.
Together with the decoding of bytes this says what it means to read a unit piece by piece.
-/

namespace SwiftDialect

universe u v

/-! ### Failures -/

section Quiet

variable {σ : Type u} [CharSource σ]

/-- No failure comes to light, however often the source is asked for a character. -/
def Quiet (source : σ) : Prop :=
  ∀ k, (CharSource.takeFailure (Nat.iterate (fun s => (Producer.next s).2) k source)).1 = none

theorem Quiet.next {source : σ} (h : Quiet source) : Quiet (Producer.next source).2 :=
  fun k => h (k + 1)

theorem Scanner.quiet_next {s : Scanner σ} (h : Quiet s.chars.source) :
    Quiet (Producer.next s).2.chars.source :=
  s.reaches_next.kept (fun _ => Quiet.next) h

end Quiet

/-! ### Lexers that are alike -/

namespace Lexer

/-- The same tokens are waiting, and the scanners behind them are alike. -/
structure Alike {σ : Type u} {σ' : Type v} [CharSource σ] [CharSource σ'] (j₁ j₂ : Journal)
    (q₁ : Lexer σ) (q₂ : Lexer σ') : Prop where
  buffer : q₁.buffer = q₂.buffer
  source : Scanner.Alike j₁ j₂ q₁.source q₂.source

variable {σ : Type u} {σ' : Type v} [CharSource σ] [CharSource σ'] {j₁ j₂ : Journal}

theorem Alike.pop {q₁ : Lexer σ} {q₂ : Lexer σ'} (h : Alike j₁ j₂ q₁ q₂) :
    (Lookahead.pop q₁).1 = (Lookahead.pop q₂).1 ∧
      Alike j₁ j₂ (Lookahead.pop q₁).2 (Lookahead.pop q₂).2 := by
  obtain ⟨buffer, s₁⟩ := q₁
  obtain ⟨buffer', s₂⟩ := q₂
  obtain ⟨rfl, hs⟩ : buffer = buffer' ∧ Scanner.Alike j₁ j₂ s₁ s₂ := ⟨h.buffer, h.source⟩
  cases buffer with
  | nil => exact ⟨hs.next.1, rfl, hs.next.2⟩
  | cons t rest => exact ⟨rfl, rfl, hs⟩

theorem Alike.move {q₁ : Lexer σ} {q₂ : Lexer σ'} (h : Alike j₁ j₂ q₁ q₂) (m : Move) :
    Alike j₁ j₂ (Lookahead.move q₁ m) (Lookahead.move q₂ m) := by
  obtain ⟨heq, hpop⟩ := h.pop
  cases m with
  | peek => exact ⟨congrArg₂ List.cons heq hpop.buffer, hpop.source⟩
  | skip => exact hpop
  | record e => exact ⟨h.buffer, h.source.record e⟩

theorem Alike.play (moves : List Move) : ∀ {q₁ : Lexer σ} {q₂ : Lexer σ'}, Alike j₁ j₂ q₁ q₂ →
    Alike j₁ j₂ (Lookahead.play q₁ moves) (Lookahead.play q₂ moves) := by
  induction moves with
  | nil => exact fun h => h
  | cons m moves ih => exact fun h => ih (h.move m)

theorem Alike.yields {ts : List Token} : ∀ {q₁ : Lexer σ} {q₂ : Lexer σ'}, Alike j₁ j₂ q₁ q₂ →
    Lookahead.Yields q₁ ts → Lookahead.Yields q₂ ts := by
  induction ts with
  | nil => exact fun _ _ => trivial
  | cons t ts ih => exact fun h hy => ⟨h.pop.1.symm.trans hy.1, ih h.pop.2 hy.2⟩

theorem quiet_play (moves : List Move) : ∀ {q : Lexer σ}, Quiet q.source.chars.source →
    Quiet (Lookahead.play q moves).source.chars.source := by
  induction moves with
  | nil => exact fun h => h
  | cons m moves ih =>
    intro q h
    have hpop : Quiet (Lookahead.pop q).2.source.chars.source := by
      obtain ⟨buffer, s⟩ := q
      cases buffer with
      | nil => exact Scanner.quiet_next h
      | cons t rest => exact h
    refine ih ?_
    cases m with
    | peek => exact hpop
    | skip => exact hpop
    | record e => exact h

/-- A quiet lexer has no failure to report. -/
theorem takeFailure_of_quiet {q : Lexer σ} (h : Quiet q.source.chars.source) :
    (Lexer.takeFailure q).1 = none :=
  h 0

/-- Alike lexers come to the end with the same tokens. -/
theorem Alike.toEnd {q₁ : Lexer σ} {q₂ : Lexer σ'} (h : Alike j₁ j₂ q₁ q₂) {body₁ body₂ : List Token}
    {eof₁ eof₂ : Token} (h₁ : Lookahead.ToEnd q₁ body₁ eof₁) (h₂ : Lookahead.ToEnd q₂ body₂ eof₂) :
    body₁ = body₂ ∧ eof₁ = eof₂ := by
  obtain ⟨rfl, rfl⟩ := h₂.eq_of_yields (h.yields h₁.yields) h₁.body_kind h₁.eof_kind
  exact ⟨rfl, rfl⟩

end Lexer

/-! ### Outcomes -/

namespace Analysis

variable {σ σ' : Type} [CharSource σ] [CharSource σ'] {source₁ : σ} {source₂ : σ'} {cs : List Char}

theorem alike_start (h₁ : (Lookahead.ofSource source₁).Spells cs)
    (h₂ : (Lookahead.ofSource source₂).Spells cs) (name : String) (tabWidth : Nat)
    (j₁ j₂ : Journal) : Lexer.Alike j₁ j₂ (Lexer.start name source₁ tabWidth j₁)
      (Lexer.start name source₂ tabWidth j₂) :=
  ⟨rfl, ⟨cs, h₁, h₂⟩, ⟨[], rfl, rfl⟩, rfl, rfl, rfl, rfl⟩

/-- Sources that spell the same text come to the end with the same tokens, and are alike there. -/
theorem readAll_alike (h₁ : (Lookahead.ofSource source₁).Spells cs)
    (h₂ : (Lookahead.ofSource source₂).Spells cs) (name : String) (tabWidth : Nat) :
    (Lexer.start name source₁ tabWidth .empty).readAll.1 =
        (Lexer.start name source₂ tabWidth .empty).readAll.1 ∧
      Lexer.Alike .empty .empty (Lexer.start name source₁ tabWidth .empty).readAll.2
        (Lexer.start name source₂ tabWidth .empty).readAll.2 := by
  have halike := alike_start h₁ h₂ name tabWidth .empty .empty
  obtain ⟨body₁, eof₁, hread₁, hend₁⟩ :=
    Lookahead.readAll_spec (Lexer.start name source₁ tabWidth .empty)
  obtain ⟨body₂, eof₂, hread₂, hend₂⟩ :=
    Lookahead.readAll_spec (Lexer.start name source₂ tabWidth .empty)
  -- alike lexers give out the same tokens up to the end, which is the first end token of both
  obtain ⟨rfl, rfl⟩ := halike.toEnd hend₁ hend₂
  have hsnd₁ := Lookahead.readToEnd_snd (Lexer.start name source₁ tabWidth .empty).tokensLeft
    (Lexer.start name source₁ tabWidth .empty)
  have hsnd₂ := Lookahead.readToEnd_snd (Lexer.start name source₂ tabWidth .empty).tokensLeft
    (Lexer.start name source₂ tabWidth .empty)
  rw [← Lookahead.readAll, hread₁] at hsnd₁
  rw [← Lookahead.readAll, hread₂] at hsnd₂
  refine ⟨hread₁.trans hread₂.symm, ?_⟩
  rw [hsnd₁, hsnd₂]
  exact halike.play _

/-- Sources that spell the same text and never fail are tokenized alike. -/
theorem tokenize_congr (h₁ : (Lookahead.ofSource source₁).Spells cs)
    (h₂ : (Lookahead.ofSource source₂).Spells cs) (hq₁ : Quiet source₁) (hq₂ : Quiet source₂)
    (name : String) (tabWidth : Nat) :
    tokenize name source₁ tabWidth = tokenize name source₂ tabWidth := by
  obtain ⟨htokens, halike⟩ := readAll_alike h₁ h₂ name tabWidth
  have hquiet₁ : Quiet (Lexer.start name source₁ tabWidth .empty).readAll.2.source.chars.source := by
    rw [Lookahead.readAll, Lookahead.readToEnd_snd]
    exact Lexer.quiet_play _ hq₁
  have hquiet₂ : Quiet (Lexer.start name source₂ tabWidth .empty).readAll.2.source.chars.source := by
    rw [Lookahead.readAll, Lookahead.readToEnd_snd]
    exact Lexer.quiet_play _ hq₂
  obtain ⟨es, he₁, he₂⟩ := halike.source.events
  simp only [tokenize, htokens, Lexer.takeFailure_of_quiet hquiet₁,
    Lexer.takeFailure_of_quiet hquiet₂, reportFailure, he₁, he₂, halike.source.lines]

/-- Parsers on alike lexers come to the same outcome by the same moves. -/
theorem program_alike {j₁ j₂ : Journal} {s₁ : Scanner σ} {s₂ : Scanner σ'}
    (h : Lexer.Alike j₁ j₂ (.ofSource s₁) (.ofSource s₂)) :
    ∃ outcome moves,
      Parse.program { tokens := .ofSource s₁ } =
        (outcome, ({ tokens := .ofSource s₁ } : Parser (Scanner σ)).play moves) ∧
      Parse.program { tokens := .ofSource s₂ } =
        (outcome, ({ tokens := .ofSource s₂ } : Parser (Scanner σ')).play moves) := by
  obtain ⟨body₁, eof₁, -, hend₁⟩ := Lookahead.readAll_spec (.ofSource s₁)
  obtain ⟨body₂, eof₂, -, hend₂⟩ := Lookahead.readAll_spec (.ofSource s₂)
  obtain ⟨rfl, rfl⟩ := h.toEnd hend₁ hend₂
  -- the tokens decide the moves, whatever source they come from
  rcases Parse.program_cases (p := { tokens := .ofSource s₁ }) rfl hend₁
    (Scanner.named_of_toEnd hend₁) with
    ⟨ss, rfl, hfit, hrun⟩ | ⟨ss, used, bad, rest, pr, moves, heq, hst, hrun⟩
  · exact ⟨_, _, hrun, Parse.program_ok (p := { tokens := .ofSource s₂ }) rfl hend₂ hfit⟩
  · exact ⟨_, _, hrun, Parse.program_stuck (p := { tokens := .ofSource s₂ }) rfl hend₂ heq hst⟩

/-- The outcome of parsing a unit that does not fail, in terms of the moves of the parser. -/
theorem parse_of_run {source : σ} {name : String} {tabWidth : Nat} {journal : Journal}
    {outcome : Except Stop Program} {moves : List Move}
    (hrun : Parse.program { tokens := Lexer.start name source tabWidth journal } = (outcome,
      ({ tokens := Lexer.start name source tabWidth journal } : Parser (Scanner σ)).play moves))
    (hfail : (Lexer.takeFailure
      (Lookahead.play (Lexer.start name source tabWidth journal) moves)).1 = none) :
    (parse name source tabWidth journal).program = programOf outcome ∧
      (parse name source tabWidth journal).diagnostics =
        (Lookahead.play (Lexer.start name source tabWidth journal) moves).source.journal.diagnostics ∧
      (parse name source tabWidth journal).lines =
        (Lookahead.play (Lexer.start name source tabWidth journal) moves).source.lines := by
  simp only [parse, hrun, Parser.play, hfail, reportFailure, Parsed.diagnostics,
    Journal.diagnostics_record, Event.diagnostic?]
  simp

/-- Sources that spell the same text and never fail are parsed alike. -/
theorem parse_congr (h₁ : (Lookahead.ofSource source₁).Spells cs)
    (h₂ : (Lookahead.ofSource source₂).Spells cs) (hq₁ : Quiet source₁) (hq₂ : Quiet source₂)
    {j₁ j₂ : Journal} (hj : j₁.diagnostics = j₂.diagnostics) (name : String) (tabWidth : Nat) :
    (parse name source₁ tabWidth j₁).program = (parse name source₂ tabWidth j₂).program ∧
      (parse name source₁ tabWidth j₁).diagnostics = (parse name source₂ tabWidth j₂).diagnostics ∧
      (parse name source₁ tabWidth j₁).lines = (parse name source₂ tabWidth j₂).lines := by
  have halike := alike_start h₁ h₂ name tabWidth j₁ j₂
  obtain ⟨outcome, moves, hrun₁, hrun₂⟩ := program_alike halike
  have hplay := halike.play moves
  have hfail₁ := Lexer.takeFailure_of_quiet
    (Lexer.quiet_play moves (q := Lexer.start name source₁ tabWidth j₁) hq₁)
  have hfail₂ := Lexer.takeFailure_of_quiet
    (Lexer.quiet_play moves (q := Lexer.start name source₂ tabWidth j₂) hq₂)
  obtain ⟨es, he₁, he₂⟩ := hplay.source.events
  -- both journals go on with the same events after starts that report the same
  have hdiag : (j₁.recordAll es).diagnostics = (j₂.recordAll es).diagnostics := by
    rw [Journal.diagnostics_recordAll, Journal.diagnostics_recordAll, hj]
  have hparse₁ := parse_of_run hrun₁ hfail₁
  have hparse₂ := parse_of_run hrun₂ hfail₂
  rw [he₁] at hparse₁
  rw [he₂] at hparse₂
  refine ⟨hparse₁.1.trans hparse₂.1.symm, ?_, ?_⟩
  · rw [hparse₁.2.1, hparse₂.2.1, hdiag]
  · rw [hparse₁.2.2, hparse₂.2.2, hplay.source.lines]

end Analysis

/-! ### Reading piece by piece -/

theorem quiet_text (cs : List Char) : Quiet cs :=
  fun _ => rfl

/-- No failure is met in a text. -/
theorem Lexer.takeFailure_text (name : String) (cs : List Char) (tabWidth : Nat) (journal : Journal)
    (moves : List Move) :
    (takeFailure (Lookahead.play (start name cs tabWidth journal) moves)).1 = none :=
  takeFailure_of_quiet (quiet_play moves (quiet_text cs))

namespace Reader

theorem Holds.next {r : Reader} {bytes : List UInt8} {failure : Option String}
    (h : r.Holds bytes failure) : ∃ rest, r.next.2.Holds rest failure := by
  cases bytes with
  | nil =>
    obtain ⟨-, hp, hdone⟩ := h.next_nil
    exact ⟨[], .inr ⟨rfl, hp, hdone⟩⟩
  | cons b bytes => exact ⟨_, h.next_cons.2⟩

/-- A reader that meets no failure never has one to hand over. -/
theorem Holds.quiet {r : Reader} {bytes : List UInt8} (h : r.Holds bytes none) : Quiet r := by
  intro k
  induction k generalizing r bytes with
  | zero =>
    rcases h with hlive | ⟨-, -, hdone⟩
    · exact hlive.noFailure
    · exact hdone.kept
  | succ k ih =>
    obtain ⟨rest, hrest⟩ := h.next
    exact ih hrest

end Reader

/-- However the bytes are cut into pieces and however often a read is interrupted, a reader gives out
the lossy decoding of the bytes and then the end for ever. The failure that cut the input short, if
there was one, can be collected once. A unit that is read without a failure is the unit of the decoded
text: its tokens, program, diagnostics and line table are the same. -/
theorem reader_decodes_lossily {reads : List Read} {bytes : List UInt8} {failure : Option String}
    (h : Delivers reads bytes failure) :
    (∀ k, (({ reads } : Reader).after k).next.1 = (Utf8.decodeLossy bytes)[k]?) ∧
    (∀ k, (Utf8.decodeLossy bytes).length < k →
      (({ reads } : Reader).after k).takeFailure.1 = failure ∧
      ∀ m, ((({ reads } : Reader).after k).takeFailure.2.after m).next.1 = none ∧
        ((({ reads } : Reader).after k).takeFailure.2.after m).takeFailure.1 = none) ∧
    (∀ cs, Utf8.Lossy bytes cs ↔ cs = Utf8.decodeLossy bytes) ∧
    (∀ text, Utf8.decodeLossy (Utf8.encode text) = text.toList) ∧
    (failure = none → ∀ name tabWidth,
      tokenizeReader name { reads } tabWidth =
        tokenizeText name (String.ofList (Utf8.decodeLossy bytes)) tabWidth ∧
      (parseReader name { reads } tabWidth).program =
        (parseText name (String.ofList (Utf8.decodeLossy bytes)) tabWidth).program ∧
      (parseReader name { reads } tabWidth).diagnostics =
        (parseText name (String.ofList (Utf8.decodeLossy bytes)) tabWidth).diagnostics ∧
      (parseReader name { reads } tabWidth).lines =
        (parseText name (String.ofList (Utf8.decodeLossy bytes)) tabWidth).lines) := by
  have hholds := Reader.holds_start h
  refine ⟨fun k => hholds.next_after k, fun k hlt => ?_, fun cs => Utf8.lossy_iff,
    Utf8.decodeLossy_encode, ?_⟩
  · obtain ⟨htake, hdone⟩ := (hholds.done_after k hlt).takeFailure
    refine ⟨htake, fun m => ?_⟩
    rw [hdone.after, hdone.next]
    exact ⟨rfl, hdone.kept⟩
  · rintro rfl name tabWidth
    have htext : (String.ofList (Utf8.decodeLossy bytes)).toList = Utf8.decodeLossy bytes :=
      String.toList_ofList
    refine ⟨?_, ?_⟩
    · rw [tokenizeReader, tokenizeText, htext]
      exact Analysis.tokenize_congr hholds.spells (Lookahead.spells_text _) hholds.quiet
        (quiet_text _) name tabWidth
    · rw [parseReader, parseText, parseTextAfter, htext]
      refine Analysis.parse_congr hholds.spells (Lookahead.spells_text _) hholds.quiet (quiet_text _)
        ?_ name tabWidth
      rw [Journal.diagnostics_record, Journal.diagnostics_record]
      rfl

/-- A character that arrives in two pieces with interruptions between them, a byte that starts no
character, and then a failure; and the same without the failure. -/
theorem reader_decodes_euro_sign :
    (Delivers [.interrupted, .bytes [0xE2, 0x82], .interrupted, .bytes [0xAC, 0xFF], .failed "gone"]
      [0xE2, 0x82, 0xAC, 0xFF] (some "gone") ∧
     (({ reads := [.interrupted, .bytes [0xE2, 0x82], .interrupted, .bytes [0xAC, 0xFF],
        .failed "gone"] } : Reader).after 1).next.1 =
      (Utf8.decodeLossy [0xE2, 0x82, 0xAC, 0xFF])[1]?) ∧
    (Delivers [.bytes [0xE2], .interrupted, .bytes [0x82, 0xAC, 0xFF]] [0xE2, 0x82, 0xAC, 0xFF] none ∧
     tokenizeReader "unit" { reads := [.bytes [0xE2], .interrupted, .bytes [0x82, 0xAC, 0xFF]] } 8 =
      tokenizeText "unit" (String.ofList (Utf8.decodeLossy [0xE2, 0x82, 0xAC, 0xFF])) 8) := by
  have hfail : Delivers [.interrupted, .bytes [0xE2, 0x82], .interrupted, .bytes [0xAC, 0xFF],
      .failed "gone"] [0xE2, 0x82, 0xAC, 0xFF] (some "gone") :=
    .interrupted (.piece (List.cons_ne_nil _ _) (.interrupted
      (.piece (List.cons_ne_nil _ _) (.failed "gone" []))))
  have hend : Delivers [.bytes [0xE2], .interrupted, .bytes [0x82, 0xAC, 0xFF]]
      [0xE2, 0x82, 0xAC, 0xFF] none :=
    .piece (List.cons_ne_nil _ _) (.interrupted (.piece (List.cons_ne_nil _ _) .nil))
  exact ⟨⟨hfail, (reader_decodes_lossily hfail).1 1⟩,
    ⟨hend, ((reader_decodes_lossily hend).2.2.2.2 rfl "unit" 8).1⟩⟩

end SwiftDialect
