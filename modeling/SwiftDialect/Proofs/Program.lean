import SwiftDialect.Proofs.Statement

/-!
# Reading programs

The parser reads the statements of a program one after the other, each in the scopes that the ones
before it leave. Whatever it does to the scopes is undone at the end.

Main statements: a program whose statements all fit is accepted (`program_ok`), a program with a
statement that is stuck is rejected (`program_stuck`), and every sequence of tokens is of one of
these two forms (`program_or_stuck`).
-/

namespace SwiftDialect

namespace Sentence

/-- The scopes after some statements. -/
def effects (scopes : Scopes) (ss : List Sentence) : Scopes :=
  ss.foldl effect scopes

/-- The statements that the trees stand for. -/
def stmts (scopes : Scopes) : List Sentence → List Stmt
  | [] => []
  | s :: ss => s.stmt scopes :: stmts (s.effect scopes) ss

/-- The moves that read the statements, up to the look at the token after them. -/
def allMoves (scopes : Scopes) : List Sentence → List Move
  | [] => [.peek]
  | s :: ss => .peek :: (s.moves scopes ++ allMoves (s.effect scopes) ss)

/-- Can every statement be read in the scopes that the ones before it leave? -/
def AllFit (scopes : Scopes) : List Sentence → Prop
  | [] => True
  | s :: ss => s.Fits scopes ∧ AllFit (s.effect scopes) ss

theorem length_stmts (scopes : Scopes) (ss : List Sentence) : (stmts scopes ss).length = ss.length := by
  induction ss generalizing scopes with
  | nil => rfl
  | cons s ss ih => simp [stmts, ih]

/-- A statement changes the innermost scope only. -/
theorem mappings_effect {scopes : Scopes} {m : Mapping} {rest : List Mapping}
    (h : scopes.mappings = m :: rest) (s : Sentence) :
    ∃ m', (s.effect scopes).mappings = m' :: rest := by
  cases s with
  | declaration intro ident colon type semicolon => exact ⟨_, Scopes.mappings_define h _ _⟩
  | evaluation e semicolon => exact ⟨m, h⟩

theorem effect_open {scopes : Scopes} (h : scopes.mappings ≠ []) (s : Sentence) :
    (s.effect scopes).mappings ≠ [] := by
  obtain ⟨m, rest, hm⟩ := List.exists_cons_of_ne_nil h
  obtain ⟨m', hm'⟩ := mappings_effect hm s
  rw [hm']
  exact List.cons_ne_nil _ _

theorem mappings_effects {rest : List Mapping} (ss : List Sentence) :
    ∀ {scopes : Scopes} {m : Mapping}, scopes.mappings = m :: rest →
      ∃ m', (effects scopes ss).mappings = m' :: rest := by
  induction ss with
  | nil => exact fun {_ m} h => ⟨m, h⟩
  | cons s ss ih =>
    intro scopes m h
    obtain ⟨m', hm'⟩ := mappings_effect h s
    exact ih hm'

/-- Closing the innermost scope gives back the scopes from before it was opened. -/
theorem pop_effects (scopes : Scopes) (ss : List Sentence) :
    ∃ m, (effects scopes.push ss).pop = .ok (m, scopes) := by
  have hpush : scopes.push.mappings = {} :: scopes.mappings := rfl
  obtain ⟨m, hm⟩ := mappings_effects ss hpush
  exact ⟨m, by simp [Scopes.pop, hm]⟩

theorem kind_ne_end (s : Sentence) : ∀ t ∈ s.tokens, t.kind ≠ .endOfFile := by
  cases s with
  | declaration intro ident colon type semicolon =>
    simp only [tokens, List.forall_mem_cons, List.not_mem_nil, false_imp_iff, implies_true, and_true]
    exact ⟨Terminal.kind_ne intro (by decide), Terminal.kind_ne ident (by decide),
      Terminal.kind_ne colon (by decide), Terminal.kind_ne type (by decide),
      Terminal.kind_ne semicolon (by decide)⟩
  | evaluation e semicolon =>
    intro t ht
    rcases List.mem_append.1 ht with ht | ht
    · exact e.kind_ne_end t ht
    · rw [List.mem_singleton.1 ht]
      exact Terminal.kind_ne semicolon (by decide)

theorem kind_ne_end_all (ss : List Sentence) : ∀ t ∈ ss.flatMap tokens, t.kind ≠ .endOfFile := by
  intro t ht
  obtain ⟨s, -, hts⟩ := List.mem_flatMap.1 ht
  exact s.kind_ne_end t hts

theorem exists_cons (s : Sentence) : ∃ t ts, s.tokens = t :: ts := by
  cases s with
  | declaration intro ident colon type semicolon => exact ⟨_, _, rfl⟩
  | evaluation e semicolon =>
    obtain ⟨x, xs, hx, -⟩ := e.head_kind
    exact ⟨x, xs ++ [semicolon.1], by simp [tokens, hx]⟩

end Sentence

namespace Parse

variable {τ : Type} [TokenSource τ]

open Sentence (effects stmts allMoves AllFit)

/-- One turn of the loop over the statements. -/
theorem statementsWithin_turn {p : Parser τ} (h : p.next.kind ≠ .endOfFile) (bound : Nat) :
    statementsWithin (bound + 1) p = (do
      let first ← statementWithin (bound + 1)
      let rest ← statementsWithin bound
      return first :: rest : Parse τ (List Stmt)) p.peeked := by
  simp [statementsWithin, bind_run, h]

theorem statementsWithin_end {p : Parser τ} (h : p.next.kind = .endOfFile) (bound : Nat) :
    statementsWithin bound p = (.ok [], p.peeked) := by
  cases bound <;> simp [statementsWithin, bind_run, h]

variable [LawfulTokenSource τ]

/-- A statement that fits is read, and the loop goes on after it. -/
theorem statementsWithin_cons {p : Parser τ} (hopen : p.scopes.mappings ≠ []) (hdepth : p.depth = 0)
    {s : Sentence} (hs : s.Fits p.scopes) {bound : Nat} (hbound : s.tokens.length ≤ bound + 1)
    {rest : List Token} (hy : p.Yields (s.tokens ++ rest)) :
    statementsWithin (bound + 1) p = (do
      let rest ← statementsWithin bound
      return s.stmt p.scopes :: rest : Parse τ (List Stmt))
        ((p.play (.peek :: s.moves p.scopes)).within (s.effect p.scopes)) := by
  obtain ⟨t, ts, ht⟩ := s.exists_cons
  have hne : p.next.kind ≠ .endOfFile := by
    have := s.kind_ne_end t (by rw [ht]; exact List.mem_cons_self)
    rw [ht] at hy
    rwa [hy.next_eq]
  rw [statementsWithin_turn hne, bind_ok (statementWithin_ok (p := p.peeked) hopen hdepth hs hbound
    hy.peeked)]
  rfl

/-- Statements that all fit are read up to the end token. -/
theorem statementsWithin_ok {eof : Token} (heof : eof.kind = .endOfFile) (ss : List Sentence) :
    ∀ {p : Parser τ} {bound : Nat} {rest : List Token}, p.scopes.mappings ≠ [] → p.depth = 0 →
      AllFit p.scopes ss → (ss.flatMap Sentence.tokens).length ≤ bound →
      p.Yields (ss.flatMap Sentence.tokens ++ eof :: rest) →
      statementsWithin bound p = (.ok (stmts p.scopes ss),
        (p.play (allMoves p.scopes ss)).within (effects p.scopes ss)) := by
  induction ss with
  | nil =>
    intro p bound rest _ _ _ _ hy
    obtain rfl : p.next = eof := hy.next_eq
    exact statementsWithin_end heof bound
  | cons s ss ih =>
    intro p bound rest hopen hdepth hfit hbound hy
    obtain ⟨t, ts, ht⟩ := s.exists_cons
    rw [List.flatMap_cons, List.append_assoc] at hy
    simp only [List.flatMap_cons, List.length_append] at hbound
    have hpos : 0 < s.tokens.length := by rw [ht]; exact Nat.succ_pos _
    obtain ⟨bound, rfl⟩ : ∃ n, bound = n + 1 := Nat.exists_eq_succ_of_ne_zero (by omega)
    -- the statement has a token, so the bound allows for one more turn
    rw [statementsWithin_cons hopen hdepth hfit.1 (by omega) hy]
    have hlen : (ss.flatMap Sentence.tokens).length ≤ bound := by omega
    have hrest := ih (p := (p.play (.peek :: s.moves p.scopes)).within (s.effect p.scopes))
      (Sentence.effect_open hopen s) hdepth hfit.2 hlen
      (hy.peeked.play (s.skipCount_moves p.scopes))
    rw [bind_ok hrest]
    simp [stmts, allMoves, effects]

/-- The first statement that is stuck is rejected, no matter what follows. -/
theorem statementsWithin_stuck {used : List Token} {bad : Token} {pr : Problem}
    {moves : List Move} (hne : (used.headD bad).kind ≠ .endOfFile) (ss : List Sentence) :
    ∀ {p : Parser τ} {bound : Nat} {rest : List Token}, p.scopes.mappings ≠ [] → p.depth = 0 →
      AllFit p.scopes ss → StuckSentence (effects p.scopes ss) used bad pr moves →
      (ss.flatMap Sentence.tokens).length < bound →
      (ss.flatMap Sentence.tokens).length + used.length ≤ bound →
      p.Yields (ss.flatMap Sentence.tokens ++ (used ++ bad :: rest)) →
      statementsWithin bound p = (.error .rejected,
        (p.play (allMoves p.scopes ss ++ (moves ++ [blame pr bad]))).within
          (effects p.scopes ss)) := by
  induction ss with
  | nil =>
    intro p bound rest hopen hdepth _ hstuck hlt hbound hy
    simp only [List.flatMap_nil, List.length_nil, List.nil_append] at hlt hbound hy
    obtain ⟨bound, rfl⟩ := Nat.exists_eq_succ_of_ne_zero (Nat.ne_of_gt hlt)
    have hfirst : p.next.kind ≠ .endOfFile := by
      have : p.next = used.headD bad := by cases used <;> exact hy.next_eq
      rwa [this]
    -- the statement has a first token, and that is not the end: the loop does not stop before it
    rw [statementsWithin_turn hfirst, bind_error (statementWithin_stuck (p := p.peeked) hopen hdepth
      hstuck (by omega) hy.peeked)]
    rfl
  | cons s ss ih =>
    intro p bound rest hopen hdepth hfit hstuck hlt hbound hy
    obtain ⟨t, ts, ht⟩ := s.exists_cons
    rw [List.flatMap_cons, List.append_assoc] at hy
    simp only [List.flatMap_cons, List.length_append] at hlt hbound
    have hpos : 0 < s.tokens.length := by rw [ht]; exact Nat.succ_pos _
    obtain ⟨bound, rfl⟩ : ∃ n, bound = n + 1 := Nat.exists_eq_succ_of_ne_zero (by omega)
    rw [statementsWithin_cons hopen hdepth hfit.1 (by omega) hy]
    have hlen : (ss.flatMap Sentence.tokens).length < bound := by omega
    have hrest := ih (p := (p.play (.peek :: s.moves p.scopes)).within (s.effect p.scopes))
      (Sentence.effect_open hopen s) hdepth hfit.2 hstuck hlen (by omega)
      (hy.peeked.play (s.skipCount_moves p.scopes))
    rw [bind_error hrest]
    simp [allMoves, effects]

/-! ### Whole programs -/

/-- The moves around the statements of a program, which open and close its scope. -/
def programMoves (depth : Nat) (body after : List Move) : List Move :=
  .record .parsingProgram :: .record (.scopeOpened (depth + 1)) ::
    (body ++ .record (.scopeClosed depth) :: after)

/-- The parser before the first statement of a program. -/
def programStart (p : Parser τ) : Parser τ :=
  ((p.recorded .parsingProgram).recorded (.scopeOpened (p.scopes.depth + 1))).within p.scopes.push

theorem tokensLeft_programStart (p : Parser τ) :
    (programStart p).tokens.tokensLeft = p.tokens.tokensLeft := by
  simp [programStart, Parser.within, Parser.recorded, Parser.play, Lookahead.play, Lookahead.move,
    Lookahead.tokensLeft, Lookahead.mapSource, LawfulTokenSource.remaining_record]

omit [LawfulTokenSource τ] in
theorem program_run (p : Parser τ) :
    program p = (do
      let body ← attempt statements
      closeScope
      match body with
      | some body =>
        record (.parsedProgram body.length)
        return ⟨body⟩
      | none => stop .rejected : Parse τ Program) (programStart p) := by
  simp [program, bind_run, openScope, programStart, Parser.within, Scopes.depth, Scopes.push]
  rfl

/-- A program whose statements all fit is accepted. -/
theorem program_ok {p : Parser τ} (hdepth : p.depth = 0) {ss : List Sentence} {eof : Token}
    (h : p.tokens.ToEnd (ss.flatMap Sentence.tokens) eof) (hfit : AllFit p.scopes.push ss) :
    program p = (.ok ⟨stmts p.scopes.push ss⟩,
      p.play (programMoves p.scopes.depth (allMoves p.scopes.push ss)
        [.record (.parsedProgram ss.length)])) := by
  have hy : p.Yields (ss.flatMap Sentence.tokens ++ [eof]) := h.yields
  have hbody : statements (programStart p) = (.ok (stmts p.scopes.push ss),
      ((programStart p).play (allMoves p.scopes.push ss)).within (effects p.scopes.push ss)) := by
    refine statementsWithin_ok h.eof_kind ss (p := programStart p) (List.cons_ne_nil _ _) hdepth hfit
      ?_ ((hy.recorded _).recorded _)
    rw [tokensLeft_programStart]
    exact h.length_le
  -- the statements only touch the scope of the program, so closing it leaves the outer ones
  obtain ⟨m, hpop⟩ := Sentence.pop_effects p.scopes ss
  rw [program_run, bind_ok (attempt_ok hbody)]
  simp [bind_run, closeScope, hpop, programMoves, programStart, Sentence.length_stmts,
    Parser.within]
  rfl

end Parse

/-- Some statements fit, and the one after them is stuck. -/
structure ProgramStuck (scopes : Scopes) (ss : List Sentence) (used : List Token) (bad : Token)
    (pr : Problem) (moves : List Move) : Prop where
  fit : Sentence.AllFit scopes ss
  stuck : StuckSentence (Sentence.effects scopes ss) used bad pr moves
  /-- The program does not end before the statement. -/
  starts : (used.headD bad).kind ≠ .endOfFile

namespace Parse

variable {τ : Type} [TokenSource τ] [LawfulTokenSource τ]

open Sentence (effects allMoves)

/-- A program with a statement that is stuck is rejected, no matter what follows. -/
theorem program_stuck {p : Parser τ} (hdepth : p.depth = 0) {body : List Token} {eof : Token}
    (h : p.tokens.ToEnd body eof) {ss : List Sentence} {used : List Token} {bad : Token}
    {rest : List Token} {pr : Problem} {moves : List Move}
    (heq : body ++ [eof] = ss.flatMap Sentence.tokens ++ (used ++ bad :: rest))
    (hst : ProgramStuck p.scopes.push ss used bad pr moves) :
    program p = (.error .rejected,
      p.play (programMoves p.scopes.depth
        (allMoves p.scopes.push ss ++ (moves ++ [blame pr bad])) [])) := by
  have hy : p.Yields (ss.flatMap Sentence.tokens ++ (used ++ bad :: rest)) := heq ▸ h.yields
  have hle := h.length_le
  have hlen := congrArg List.length heq
  simp only [List.length_append, List.length_cons, List.length_nil] at hlen
  have hlt : (ss.flatMap Sentence.tokens).length < p.tokens.tokensLeft := by
    cases used with
    | cons t used => simp only [List.length_cons] at hlen; omega
    | nil =>
      -- the first token of the statement is no end token, so it is not the last one
      cases rest with
      | cons t rest => simp only [List.length_cons] at hlen; omega
      | nil =>
        have hlast : eof = bad := (List.cons.inj (List.append_inj' heq rfl).2).1
        exact absurd (hlast ▸ h.eof_kind) hst.starts
  have hbody : statements (programStart p) = (.error .rejected,
      ((programStart p).play (allMoves p.scopes.push ss ++ (moves ++ [blame pr bad]))).within
        (effects p.scopes.push ss)) := by
    refine statementsWithin_stuck hst.starts ss (p := programStart p) (List.cons_ne_nil _ _) hdepth
      hst.fit hst.stuck ?_ ?_ ((hy.recorded _).recorded _)
    · rwa [tokensLeft_programStart]
    · rw [tokensLeft_programStart]
      omega
  obtain ⟨m, hpop⟩ := Sentence.pop_effects p.scopes ss
  rw [program_run, bind_ok (attempt_rejected hbody)]
  simp [bind_run, closeScope, hpop, programMoves, programStart, Parser.within, stop]
  rfl

end Parse

/-! ### Either a program or stuck -/

/-- The tokens form a program that fits. -/
def FormsProgram (scopes : Scopes) (ts : List Token) : Prop :=
  ∃ (ss : List Sentence) (eof : Token) (rest : List Token),
    ts = ss.flatMap Sentence.tokens ++ eof :: rest ∧ eof.kind = .endOfFile ∧
      Sentence.AllFit scopes ss

/-- Reading a program gets stuck within the tokens. -/
def ProgramGetsStuck (scopes : Scopes) (ts : List Token) : Prop :=
  ∃ (ss : List Sentence) (used : List Token) (bad : Token) (rest : List Token) (pr : Problem)
    (moves : List Move), ts = ss.flatMap Sentence.tokens ++ (used ++ bad :: rest) ∧
      ProgramStuck scopes ss used bad pr moves

/-- Every sequence of tokens forms a program, or reading one gets stuck. -/
theorem program_or_stuck : ∀ (n : Nat) (scopes : Scopes) (ts : List Token), ts.length ≤ n →
    HasEnd ts → Named ts → FormsProgram scopes ts ∨ ProgramGetsStuck scopes ts := by
  intro n
  induction n with
  | zero =>
    intro scopes ts hlen hend _
    obtain ⟨t, rest, rfl⟩ := hend.exists_cons
    simp at hlen
  | succ n ih =>
    intro scopes ts hlen hend hnamed
    obtain ⟨t, ts, rfl⟩ := hend.exists_cons
    by_cases heof : t.kind = .endOfFile
    · exact .inl ⟨[], t, ts, rfl, heof, trivial⟩
    -- a statement that fits has a token, so what follows it is shorter
    rcases sentence_or_stuck scopes hend hnamed with
      ⟨s, rest, heq, hs⟩ | ⟨used, bad, rest, pr, moves, heq, hs⟩
    · obtain ⟨x, xs, hx⟩ := s.exists_cons
      have hlen' : rest.length ≤ n := by
        rw [heq, hx, List.length_append, List.length_cons] at hlen
        omega
      rw [heq] at hend hnamed ⊢
      have hnamed' : Named rest := fun t ht => hnamed t (List.mem_append_right _ ht)
      rcases ih (s.effect scopes) rest hlen' (hend.append_right s.kind_ne_end) hnamed' with
        ⟨ss, eof, rest, rfl, he, hfit⟩ | ⟨ss, used, bad, rest, pr, moves, rfl, hst⟩
      · exact .inl ⟨s :: ss, eof, rest, by simp, he, hs, hfit⟩
      · exact .inr ⟨s :: ss, used, bad, rest, pr, moves, by simp, ⟨hs, hst.fit⟩, hst.stuck,
          hst.starts⟩
    · have hfirst : used.headD bad = t := by
        cases used <;> simp_all
      exact .inr ⟨[], used, bad, rest, pr, moves, heq, trivial, hs, by rwa [hfirst]⟩

/-! ### The outcome of a run -/

theorem Named.concat {body : List Token} (h : Named body) {eof : Token} (heof : eof.kind = .endOfFile) :
    Named (body ++ [eof]) := by
  intro t ht hk
  rcases List.mem_append.1 ht with ht | ht
  · exact h t ht hk
  · rw [List.mem_singleton.1 ht, heof] at hk
    cases hk

namespace Parse

variable {τ : Type} [TokenSource τ] [LawfulTokenSource τ]

open Sentence (effects stmts allMoves AllFit)

/-- The outcome of a run of the parser on a sequence of tokens, in the two cases that there are. -/
theorem program_cases {p : Parser τ} (hdepth : p.depth = 0) {body : List Token} {eof : Token}
    (h : p.tokens.ToEnd body eof) (hnamed : Named body) :
    (∃ ss, body = ss.flatMap Sentence.tokens ∧ AllFit p.scopes.push ss ∧
      program p = (.ok ⟨stmts p.scopes.push ss⟩,
        p.play (programMoves p.scopes.depth (allMoves p.scopes.push ss)
          [.record (.parsedProgram ss.length)]))) ∨
    (∃ ss used bad rest pr moves, body ++ [eof] = ss.flatMap Sentence.tokens ++ (used ++ bad :: rest) ∧
      ProgramStuck p.scopes.push ss used bad pr moves ∧
      program p = (.error .rejected,
        p.play (programMoves p.scopes.depth
          (allMoves p.scopes.push ss ++ (moves ++ [blame pr bad])) []))) := by
  have hend : HasEnd (body ++ [eof]) := ⟨eof, List.mem_append_right _ List.mem_cons_self, h.eof_kind⟩
  rcases program_or_stuck _ p.scopes.push _ (Nat.le_refl _) hend (hnamed.concat h.eof_kind) with
    ⟨ss, x, rest, heq, hx, hfit⟩ | ⟨ss, used, bad, rest, pr, moves, heq, hst⟩
  · -- only the last token is an end token, so the statements take up the whole body
    obtain ⟨rfl, rfl⟩ := eq_of_append_end h.body_kind hx heq
    exact .inl ⟨ss, rfl, hfit, program_ok hdepth h hfit⟩
  · exact .inr ⟨ss, used, bad, rest, pr, moves, heq, hst, program_stuck hdepth h heq hst⟩

end Parse

end SwiftDialect
