import SwiftDialect.Proofs.Acceptance
import SwiftDialect.Proofs.Bounds
import SwiftDialect.Proofs.Cursor
import SwiftDialect.Proofs.Messages
import SwiftDialect.Proofs.OpenEnded

/-!
# Nothing is used where it must not be

Many operations are meant for some arguments only: a scope must be open for a name to be looked up, a counter
must not leave its range, a text must not be cut inside a character, a message must have values for its
holes. The facts that make them safe are spread over the whole of a run.

Main statement: on every text and every reader, tokenizing and parsing use each operation where it is meant
to be used (`operations_used_safely`).
-/

namespace SwiftDialect

variable {σ : Type} [CharSource σ]

/-- The moves of a lexer are operations of its scanner. -/
theorem Lexer.reaches_play (moves : List Move) : ∀ {q : Lexer σ}, (∀ move ∈ moves, move.Proper) →
    q.source.Reaches Event.Proper (Lookahead.play q moves).source := by
  induction moves with
  | nil => exact fun _ => .refl
  | cons move moves ih =>
    intro q h
    obtain ⟨hmove, hmoves⟩ := List.forall_mem_cons.1 h
    -- a token that waits in the buffer is taken without the scanner
    have hpop : q.source.Reaches Event.Proper (Lookahead.pop q).2.source := by
      obtain ⟨buffer, s⟩ := q
      cases buffer with
      | nil => exact s.reaches_next
      | cons t rest => exact .refl
    refine Scanner.Reaches.trans ?_ (ih hmoves)
    cases move with
    | peek => exact hpop
    | skip => exact hpop
    | record e => exact .record hmove .refl

theorem Journal.mem_diagnostics_record {j : Journal} {e : Event} {d : Diagnostic}
    (h : d ∈ (j.record e).diagnostics) : d ∈ j.diagnostics ∨ e.diagnostic? = some d := by
  rw [diagnostics_record, List.mem_append] at h
  exact h.imp_right Option.mem_toList.1

/-- Whatever a scanner reports is registered. -/
theorem Scanner.Reaches.registered {s s' : Scanner σ} (h : s.Reaches Event.Proper s') :
    ∀ d ∈ s'.journal.diagnostics, d ∈ s.journal.diagnostics ∨ d.Registered := by
  induction h with
  | refl => exact fun d hd => .inl hd
  | record he _ ih =>
    intro d hd
    rcases Journal.mem_diagnostics_record hd with hd | hd
    · exact ih d hd
    · rcases he with ⟨problem, place, rfl⟩ | hnone
      · obtain rfl := Option.some.inj hd
        exact .inr (problem.registered (some place))
      · rw [hnone] at hd
        cases hd
  | _ => assumption

namespace Analysis

theorem registered_reportFailure (name : String) (failure : Option String) (j : Journal) :
    ∀ d ∈ (reportFailure name failure j).diagnostics, d ∈ j.diagnostics ∨ d.Registered := by
  intro d hd
  cases failure with
  | none => exact .inl hd
  | some reason =>
    rcases Journal.mem_diagnostics_record hd with hd | hd
    · exact .inl hd
    · obtain rfl := Option.some.inj hd
      exact .inr ((Problem.readFailed name reason).registered none)

/-- What must hold on a unit for its runs to use each operation where it is meant to be used. -/
structure Safe (name : String) (source : σ) (tabWidth : Nat) (journal : Journal) : Prop where
  /-- A scope is open wherever one is closed, a name is declared or a name is looked up; every symbol has a
  name, and only variables are given declarations. -/
  scopes : ∀ v, (Parse.program { tokens := Lexer.start name source tabWidth journal }).1 ≠
    .error (.violated v)
  /-- The counter of nesting stays between zero and its limit, and powers fit into a byte: a run that is
  aborted where they do not comes to the same. -/
  counters : OpenEnded.ComesTo (OpenEnded.program · { depth := some maxNesting, power := some 255 })
    { tokens := Lexer.start name source tabWidth journal }
    (Parse.program { tokens := Lexer.start name source tabWidth journal })
  /-- The scanner is in a sound state whatever it does: it has a line, its bases are in order, and its
  counters are within their limit. -/
  states : ∀ s, (Scanner.start name source tabWidth journal).Reaches Event.Proper s → s.Sound name
  /-- In every such state known handles can be looked up. -/
  handles : ∀ s, (Scanner.start name source tabWidth journal).Reaches Event.Proper s →
    ∀ l : Location, l.isUnknown = false → l.handle ≤ counterLimit → s.lines.LooksUp l
  /-- Parsing ends in such a state. -/
  parsed : (Scanner.start name source tabWidth journal).Reaches Event.Proper
    (Parse.program { tokens := Lexer.start name source tabWidth journal }).2.tokens.source
  /-- Tokenizing ends in such a state. -/
  tokenized : (Scanner.start name source tabWidth journal).Reaches Event.Proper
    (Lexer.start name source tabWidth journal).readAll.2.source
  /-- Whatever is reported has the registered code of a problem, and a message without open holes. -/
  registered : ∀ d ∈ (parse name source tabWidth journal).diagnostics ++
    (tokenize name source tabWidth).diagnostics, d ∈ journal.diagnostics ∨ d.Registered

theorem reaches_parsed (name : String) (source : σ) (tabWidth : Nat) (journal : Journal) :
    (Scanner.start name source tabWidth journal).Reaches Event.Proper
      (Parse.program { tokens := Lexer.start name source tabWidth journal }).2.tokens.source := by
  obtain ⟨moves, hmoves, hplay, -⟩ :=
    Parse.runs_program { tokens := Lexer.start name source tabWidth journal }
  rw [hplay]
  exact Lexer.reaches_play moves (q := Lexer.start name source tabWidth journal) hmoves

theorem reaches_tokenized (name : String) (source : σ) (tabWidth : Nat) (journal : Journal) :
    (Scanner.start name source tabWidth journal).Reaches Event.Proper
      (Lexer.start name source tabWidth journal).readAll.2.source := by
  rw [Lookahead.readAll, Lookahead.readToEnd_snd]
  refine Lexer.reaches_play _ (q := Lexer.start name source tabWidth journal) fun move hmove => ?_
  rw [List.eq_of_mem_replicate hmove]
  trivial

/-- Runs on a unit use each operation where it is meant to be used. -/
theorem safe (name : String) (source : σ) (tabWidth : Nat) (journal : Journal) :
    Safe name source tabWidth journal := by
  have hstates : ∀ s, (Scanner.start name source tabWidth journal).Reaches Event.Proper s →
      s.Sound name := fun s hs => hs.sound (Scanner.sound_start name source tabWidth journal)
  -- nesting stops at its limit, and the greatest power that is asked for is well within a byte
  have hcounters : ({ depth := some maxNesting, power := some 255 } : Budget).Allows (maxNesting + 1)
      (4 * maxNesting + 1) maxNesting 31 := by
    refine ⟨?_, ?_, ?_, ?_⟩
    all_goals simp
  refine ⟨Parse.program_not_violated name source tabWidth journal,
    OpenEnded.program_comesTo hcounters rfl, hstates,
    fun s hs l hknown hlimit => (hstates s hs).lines.looksUp (hstates s hs).started hknown hlimit,
    reaches_parsed name source tabWidth journal, reaches_tokenized name source tabWidth journal, ?_⟩
  intro d hd
  rcases List.mem_append.1 hd with hd | hd
  · rcases Journal.mem_diagnostics_record hd with hd | hd
    · rcases registered_reportFailure _ _ _ d hd with hd | hd
      · exact (reaches_parsed name source tabWidth journal).registered d hd
      · exact .inr hd
    · cases hd
  · rcases Journal.mem_diagnostics_record hd with hd | hd
    · rcases registered_reportFailure _ _ _ d hd with hd | hd
      · rcases (reaches_tokenized name source tabWidth .empty).registered d hd with hd | hd
        · exact absurd hd List.not_mem_nil
        · exact .inr hd
      · exact .inr hd
    · cases hd

end Analysis

/-- Tokenizing and parsing use each operation where it is meant to be used, on every text and every
reader. Each problem brings values for all holes of its message. A text that is read by offsets is cut
between characters only, and gives what it gives otherwise. An item that is looked at is in the buffer,
and so are the items that are consumed. -/
theorem operations_used_safely (name : String) (tabWidth : Nat) (journal : Journal) :
    (∀ text : String, Analysis.Safe name text.toList tabWidth journal ∧
      Analysis.Safe name (Cursor.start text) tabWidth journal) ∧
    (∀ reader : Reader, Analysis.Safe name reader tabWidth journal) ∧
    (∀ pr : Problem, Entry.find? pr.entry.code = some pr.entry ∧
      Template.fill? pr.params pr.entry.template = some pr.draft.build.message) ∧
    (∀ text : String,
      (∀ s, (Scanner.start name (Cursor.start text) tabWidth journal).Reaches Event.Proper s →
        s.chars.source.OnBoundary) ∧
      Analysis.tokenize name (Cursor.start text) tabWidth = tokenizeText name text tabWidth ∧
      (Analysis.parse name (Cursor.start text) tabWidth .empty).program =
        (parseText name text tabWidth).program ∧
      (Analysis.parse name (Cursor.start text) tabWidth .empty).diagnostics =
        (parseText name text tabWidth).diagnostics ∧
      (Analysis.parse name (Cursor.start text) tabWidth .empty).lines =
        (parseText name text tabWidth).lines) ∧
    ∀ (σ α : Type) [Producer σ α] (q : Lookahead σ α) (n : Nat),
      (q.peekNth n).2.buffer[n]? = some (q.peekNth n).1 ∧
      q.skipNth n = { (q.peekNth n).2 with buffer := (q.peekNth n).2.buffer.drop (n + 1) } := by
  refine ⟨fun text => ⟨Analysis.safe .., Analysis.safe ..⟩, fun reader => Analysis.safe ..,
    fun pr => ⟨pr.find?_code, pr.fill?_template⟩, ?_, ?_⟩
  · intro text
    have hspells := Cursor.spells_start text
    have hjournal : Journal.empty.diagnostics =
        (Journal.empty.record (.parsingText name text.utf8ByteSize)).diagnostics := rfl
    refine ⟨fun s hs => hs.onBoundary (Cursor.onBoundary_start text), ?_, ?_⟩
    · exact Analysis.tokenize_congr hspells (Lookahead.spells_text _) (Cursor.quiet _) (quiet_text _) ..
    · exact Analysis.parse_congr hspells (Lookahead.spells_text _) (Cursor.quiet _) (quiet_text _)
        hjournal ..
  · exact fun σ α _ q n => ⟨q.getElem?_peekNth n, q.skipNth_eq_drop n⟩

end SwiftDialect
