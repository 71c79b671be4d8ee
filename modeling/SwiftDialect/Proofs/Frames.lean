import SwiftDialect.Proofs.Composition

/-!
# What the procedures leave alone

A procedure for expressions or types makes moves and changes nothing else: the open scopes and the depth of
nesting are afterwards what they were before, whether it succeeds or not. A procedure for statements may
change the scopes besides. Whatever they report is a problem at some place.

Main statements: expressions are read by moves (`composable_plays`), and so are programs, apart from what
they do to the scopes (`runs_program`).
-/

namespace SwiftDialect

/-- A move that enters a proper event, if it enters any. -/
def Move.Proper : Move → Prop
  | .record e => e.Proper
  | .peek | .skip => True

namespace Parse

variable {τ α β : Type} [TokenSource τ]

/-- Whatever the state, the procedure makes proper moves and changes nothing else. -/
def Plays (m : Parse τ α) : Prop :=
  ∀ p, ∃ moves, (∀ move ∈ moves, move.Proper) ∧ (m p).2 = p.play moves

/-- Whatever the state, the procedure makes proper moves and changes at most the scopes besides. -/
def Runs (m : Parse τ α) : Prop :=
  ∀ p, ∃ moves, (∀ move ∈ moves, move.Proper) ∧ (m p).2.tokens = p.tokens.play moves ∧
    (m p).2.depth = p.depth

/-! ### Sequencing -/

theorem Plays.depth_eq {m : Parse τ α} (h : m.Plays) (p : Parser τ) : (m p).2.depth = p.depth := by
  obtain ⟨moves, -, hplay⟩ := h p
  rw [hplay, Parser.depth_play]

theorem plays_of_idle {m : Parse τ α} (h : ∀ p, (m p).2 = p) : m.Plays :=
  fun p => ⟨[], fun _ hm => absurd hm List.not_mem_nil, h p⟩

theorem plays_ofExcept (x : Except Violation α) : (ofExcept x : Parse τ α).Plays := by
  refine plays_of_idle fun p => ?_
  cases x with
  | ok a => rfl
  | error v => rfl

theorem Plays.bind {m : Parse τ α} {f : α → Parse τ β} (hm : m.Plays) (hf : ∀ a, (f a).Plays) :
    (m >>= f).Plays := by
  intro p
  obtain ⟨first, hfirst, hplay⟩ := hm p
  rcases h : m p with ⟨result, p'⟩
  obtain rfl : p' = p.play first := by simpa [h] using hplay
  cases result with
  | error why => exact ⟨first, hfirst, by rw [bind_error h]⟩
  | ok a =>
    obtain ⟨second, hsecond, hplay'⟩ := hf a (p.play first)
    refine ⟨first ++ second, List.forall_mem_append.2 ⟨hfirst, hsecond⟩, ?_⟩
    rw [bind_ok h, hplay', Parser.play_append]

theorem Plays.deeper {m : Parse τ α} (h : m.Plays) : (deeper m).Plays := by
  intro p
  obtain ⟨moves, hmoves, hplay⟩ := h { p with depth := p.depth + 1 }
  refine ⟨moves, hmoves, ?_⟩
  show { (m { p with depth := p.depth + 1 }).2 with
    depth := (m { p with depth := p.depth + 1 }).2.depth - 1 } = p.play moves
  rw [hplay]
  rfl

/-! ### Expressions and types -/

theorem plays_peek : (peek : Parse τ Token).Plays :=
  fun _ => ⟨[.peek], List.forall_mem_singleton.2 trivial, rfl⟩

theorem plays_skip : (skip : Parse τ Unit).Plays :=
  fun _ => ⟨[.skip], List.forall_mem_singleton.2 trivial, rfl⟩

theorem plays_record {e : Event} (he : e.Proper) : (record e : Parse τ Unit).Plays :=
  fun _ => ⟨[.record e], List.forall_mem_singleton.2 he, rfl⟩

theorem plays_reject (problem : Problem) (place : Location) :
    (reject problem place : Parse τ α).Plays :=
  (plays_record (.inl ⟨problem, place, rfl⟩)).bind fun _ => plays_of_idle fun _ => rfl

theorem plays_resolve (token : Token) : (resolve token : Parse τ Expr).Plays := by
  refine (plays_of_idle fun _ => rfl).bind fun scopes => (plays_ofExcept _).bind fun found => ?_
  cases found with
  | some symbol => exact plays_of_idle fun _ => rfl
  | none => exact plays_reject _ _

/-- Expressions and types are read by moves. -/
theorem composable_plays : Composable (τ := τ) Plays where
  idle h := plays_of_idle fun p => by
    obtain ⟨a, ha⟩ := h p
    rw [ha]
  bind := Plays.bind
  deeper := Plays.deeper
  peek := plays_peek
  skip := plays_skip
  record := plays_record
  rejected := plays_of_idle fun _ => rfl
  resolve := plays_resolve

/-! ### Statements -/

theorem Plays.runs {m : Parse τ α} (h : m.Plays) : m.Runs := by
  intro p
  obtain ⟨moves, hmoves, hplay⟩ := h p
  exact ⟨moves, hmoves, by rw [hplay]; rfl, h.depth_eq p⟩

theorem Runs.bind {m : Parse τ α} {f : α → Parse τ β} (hm : m.Runs) (hf : ∀ a, (f a).Runs) :
    (m >>= f).Runs := by
  intro p
  obtain ⟨first, hfirst, htokens, hdepth⟩ := hm p
  rcases h : m p with ⟨result, p'⟩
  rw [h] at htokens hdepth
  cases result with
  | error why => exact ⟨first, hfirst, by rw [bind_error h]; exact ⟨htokens, hdepth⟩⟩
  | ok a =>
    -- the moves of the second come after those of the first
    obtain ⟨second, hsecond, htokens', hdepth'⟩ := hf a p'
    refine ⟨first ++ second, List.forall_mem_append.2 ⟨hfirst, hsecond⟩, ?_⟩
    rw [bind_ok h, htokens', hdepth']
    have hsplit : p.tokens.play (first ++ second) = (p.tokens.play first).play second :=
      List.foldl_append
    exact ⟨hsplit ▸ congrArg (Lookahead.play · second) htokens, hdepth⟩

theorem Runs.deeper {m : Parse τ α} (h : m.Runs) : (deeper m).Runs := by
  intro p
  obtain ⟨moves, hmoves, htokens, hdepth⟩ := h { p with depth := p.depth + 1 }
  exact ⟨moves, hmoves, htokens, congrArg (· - 1) hdepth⟩

theorem Runs.attempt {m : Parse τ α} (h : m.Runs) : (attempt m).Runs := by
  intro p
  have hstate : (Parse.attempt m p).2 = (m p).2 := by
    unfold Parse.attempt
    split <;> next heq => rw [heq]
  rw [hstate]
  exact h p

/-- Whatever is composed is read by moves. -/
theorem composable_runs : Composable (τ := τ) Runs where
  idle h := (composable_plays.idle h).runs
  bind := Runs.bind
  deeper := Runs.deeper
  peek := plays_peek.runs
  skip := plays_skip.runs
  record he := (plays_record he).runs
  rejected := composable_plays.rejected.runs
  resolve token := (plays_resolve token).runs

theorem runs_setScopes (scopes : Scopes) : (setScopes scopes : Parse τ Unit).Runs :=
  fun _ => ⟨[], fun _ hm => absurd hm List.not_mem_nil, rfl, rfl⟩

theorem runs_scopes : (scopes : Parse τ Scopes).Runs :=
  (plays_of_idle fun _ => rfl).runs

theorem runs_declare (ident : Token) (declaration : Declaration) :
    (declare ident declaration : Parse τ Unit).Runs := by
  have hinsert : (do
      let symbol ← ofExcept (Symbol.make ident.text .var)
      let symbol ← ofExcept (symbol.bind declaration)
      let inserted ← ofExcept ((← scopes).insert symbol)
      setScopes inserted.2 : Parse τ Unit).Runs := by
    refine (plays_ofExcept _).runs.bind fun _ => (plays_ofExcept _).runs.bind fun _ => ?_
    exact runs_scopes.bind fun _ => (plays_ofExcept _).runs.bind fun _ => runs_setScopes _
  refine runs_scopes.bind fun _ => (plays_ofExcept _).runs.bind fun mapping => ?_
  dsimp only
  split
  · exact (composable_plays.report _ _).runs.bind fun _ => hinsert
  · exact hinsert

theorem runs_varDecl : (varDecl : Parse τ Stmt).Runs := by
  refine plays_peek.runs.bind fun intro => ?_
  split
  · exact (plays_reject _ _).runs
  · refine plays_skip.runs.bind fun _ => (composable_runs.expect _).bind fun ident => ?_
    refine plays_skip.runs.bind fun _ => (composable_runs.skipExpected _).bind fun _ => ?_
    refine composable_runs.type.bind fun type => (composable_runs.skipExpected _).bind fun _ => ?_
    exact (runs_declare _ _).bind fun _ => composable_runs.pure _

/-- A program is read by moves, apart from what it does to the scopes. -/
theorem runs_program : (program : Parse τ Program).Runs := by
  have hbody : (statements : Parse τ (List Stmt)).Runs :=
    composable_runs.tokensLeft.bind fun bound => composable_runs.statementsWithin runs_varDecl bound
  have hopen : (openScope : Parse τ Unit).Runs :=
    runs_scopes.bind fun _ => (runs_setScopes _).bind fun _ => (plays_record (.inr rfl)).runs
  have hclose : (closeScope : Parse τ Unit).Runs :=
    runs_scopes.bind fun _ => (plays_ofExcept _).runs.bind fun _ =>
      (runs_setScopes _).bind fun _ => (plays_record (.inr rfl)).runs
  refine (plays_record (.inr rfl)).runs.bind fun _ => hopen.bind fun _ => ?_
  refine hbody.attempt.bind fun body => hclose.bind fun _ => ?_
  cases body with
  | some body => exact (plays_record (.inr rfl)).runs.bind fun _ => composable_runs.pure _
  | none => exact composable_runs.rejected

end Parse

end SwiftDialect
