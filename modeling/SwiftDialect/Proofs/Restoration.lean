import SwiftDialect.Proofs.Acceptance
import SwiftDialect.Proofs.Frames

/-!
# Procedures put things back

Procedures count levels of nesting up and down, open and close scopes, and declare names, and they may stop
at any token. Where a scope is open, each of them comes back with a result or with a rejection, and either
way it leaves the depth of nesting and all scopes but the innermost one as they were.

Main statement: this holds for every procedure of the parser on every source of tokens; only procedures for
statements touch the innermost scope, a program leaves no trace in the scopes, and a declaration changes the
entry of its own name or, if it fails, nothing (`procedures_restore_state`).
-/

namespace SwiftDialect

/-! ### Names -/

namespace Lookahead

variable {τ : Type} [TokenSource τ]

/-- Whatever moves are made, an identifier that comes up has a name. -/
def Named (q : Lookahead τ Token) : Prop :=
  ∀ moves, (q.play moves).peek.1.kind = .identifier → (q.play moves).peek.1.text ≠ ""

theorem Named.play {q : Lookahead τ Token} (h : q.Named) (moves : List Move) : (q.play moves).Named := by
  intro more
  have happend : (q.play moves).play more = q.play (moves ++ more) := List.foldl_append.symm
  rw [happend]
  exact h (moves ++ more)

end Lookahead

/-- The identifiers of a lexer have names. -/
theorem Lexer.named {σ : Type} [CharSource σ] {q : Lexer σ} (h : ∀ t ∈ q.buffer, t.lexeme.Valid) :
    Lookahead.Named q := by
  have hpop : ∀ {q : Lexer σ}, (∀ t ∈ q.buffer, t.lexeme.Valid) →
      (Lookahead.pop q).1.lexeme.Valid ∧ ∀ t ∈ (Lookahead.pop q).2.buffer, t.lexeme.Valid := by
    rintro ⟨buffer, s⟩ h
    cases buffer with
    | nil => exact ⟨s.valid_scan, h⟩
    | cons t rest => exact List.forall_mem_cons.1 h
  -- every token that a lexer gives out is valid, whatever it was asked for before
  have hplay : ∀ (moves : List Move) {q : Lexer σ}, (∀ t ∈ q.buffer, t.lexeme.Valid) →
      ∀ t ∈ (Lookahead.play q moves).buffer, t.lexeme.Valid := by
    intro moves
    induction moves with
    | nil => exact fun h => h
    | cons move moves ih =>
      intro q h
      refine ih ?_
      cases move with
      | peek => exact List.forall_mem_cons.2 (hpop h)
      | skip => exact (hpop h).2
      | record e => exact h
  intro moves
  have hnext := (hpop (hplay moves h)).1
  exact named_of_valid (List.forall_mem_singleton.2 hnext) _ List.mem_cons_self

/-- The parser can look up and declare names: a scope is open, and identifiers have names. -/
structure Parser.Ready {τ : Type} [TokenSource τ] (p : Parser τ) : Prop where
  isOpen : p.scopes.mappings ≠ []
  named : p.tokens.Named

namespace Parse

variable {τ α β : Type} [TokenSource τ]

/-! ### Coming back -/

/-- The outcome is a result or a rejection; the parser is ready again, at the same depth of nesting, with as
many scopes open and all but the innermost one as they were. -/
structure Restored (p : Parser τ) (outcome : Except Stop α × Parser τ) : Prop where
  returned : ∀ v, outcome.1 ≠ .error (.violated v)
  ready : outcome.2.Ready
  depth : outcome.2.depth = p.depth
  openScopes : outcome.2.scopes.depth = p.scopes.depth
  outer : outcome.2.scopes.mappings.tail = p.scopes.mappings.tail

/-- Run where the parser is ready, the procedure comes back and puts things back. -/
def Restores (m : Parse τ α) : Prop :=
  ∀ p : Parser τ, p.Ready → Restored p (m p)

theorem Restores.bind {m : Parse τ α} {f : α → Parse τ β} (hm : m.Restores)
    (hf : ∀ a, (f a).Restores) : (m >>= f).Restores := by
  intro p hp
  obtain ⟨hreturned, hready, hdepth, hopen, houter⟩ := hm p hp
  rcases h : m p with ⟨result, p'⟩
  rw [h] at hreturned hready hdepth hopen houter
  cases result with
  | ok a =>
    obtain ⟨hreturned', hready', hdepth', hopen', houter'⟩ := hf a p' hready
    rw [bind_ok h]
    exact ⟨hreturned', hready', hdepth'.trans hdepth, hopen'.trans hopen, houter'.trans houter⟩
  | error why =>
    rw [bind_error h]
    refine ⟨fun v hv => hreturned v ?_, hready, hdepth, hopen, houter⟩
    exact congrArg Except.error (Except.error.inj hv)

/-- A procedure that only makes moves puts things back, if it comes back. -/
theorem restores_of_plays {m : Parse τ α} (h : m.Plays)
    (hreturned : ∀ p : Parser τ, p.Ready → ∀ v, (m p).1 ≠ .error (.violated v)) : m.Restores := by
  intro p hp
  obtain ⟨moves, -, hplay⟩ := h p
  refine ⟨hreturned p hp, ?_, ?_, ?_, ?_⟩ <;> rw [hplay]
  · exact ⟨hp.isOpen, hp.named.play moves⟩
  all_goals rfl

theorem Restores.deeper {m : Parse τ α} (h : m.Restores) : (deeper m).Restores := by
  intro p hp
  obtain ⟨hreturned, hready, hdepth, hopen, houter⟩ :=
    h { p with depth := p.depth + 1 } ⟨hp.isOpen, hp.named⟩
  exact ⟨hreturned, ⟨hready.isOpen, hready.named⟩, congrArg (· - 1) hdepth, hopen, houter⟩

theorem restores_resolve (token : Token) : (resolve token : Parse τ Expr).Restores := by
  refine restores_of_plays (plays_resolve token) fun p hp v hviolated => ?_
  rw [resolve, bind_ok (scopes_run p), Scopes.lookup_eq hp.isOpen, bind_ok (ofExcept_ok _ p)] at hviolated
  cases hsymbol : p.scopes.resolve token.text with
  | some symbol =>
    rw [hsymbol] at hviolated
    cases hviolated
  | none =>
    rw [hsymbol] at hviolated
    cases hviolated

/-- Expressions and types are read without breaking a precondition. -/
theorem composable_restores : Composable (τ := τ) Restores where
  idle h := by
    refine restores_of_plays (composable_plays.idle h) fun p _ v => ?_
    obtain ⟨a, ha⟩ := h p
    rw [ha]
    exact nofun
  bind := Restores.bind
  deeper := Restores.deeper
  peek := restores_of_plays plays_peek fun _ _ _ => nofun
  skip := restores_of_plays plays_skip fun _ _ _ => nofun
  record he := restores_of_plays (plays_record he) fun _ _ _ => nofun
  rejected := restores_of_plays composable_plays.rejected fun _ _ _ => nofun
  resolve := restores_resolve

/-! ### Declarations -/

/-- A token of the kind that is expected goes on; an identifier has a name. -/
theorem Restores.bind_expect {kind : TokenKind} {f : Token → Parse τ α}
    (hf : ∀ token : Token, (kind = .identifier → token.text ≠ "") → (f token).Restores) :
    (expect kind >>= f).Restores := by
  intro p hp
  by_cases hkind : p.next.kind = kind
  · have hrest := hf p.next (fun hident => hp.named [] (hkind.trans hident)) p.peeked
      ⟨hp.isOpen, hp.named.play [.peek]⟩
    rw [bind_ok (expect_ok hkind)]
    exact ⟨hrest.returned, hrest.ready, hrest.depth, hrest.openScopes, hrest.outer⟩
  · rw [bind_error (expect_error hkind)]
    exact ⟨nofun, ⟨hp.isOpen, hp.named.play [.peek, .record _]⟩, rfl, rfl, rfl⟩

theorem restores_declare {ident : Token} (hname : ident.text ≠ "") (d : Declaration) :
    (declare ident d : Parse τ Unit).Restores := by
  intro p hp
  obtain ⟨m, rest, hm⟩ := List.exists_cons_of_ne_nil hp.isOpen
  have hdefine := Scopes.mappings_define hm ident.text d
  rw [declare_run hp.isOpen hname]
  refine ⟨nofun, ⟨?_, hp.named.play _⟩, rfl, ?_, ?_⟩
  · rw [Parser.scopes_within, hdefine]
    exact List.cons_ne_nil _ _
  · rw [Parser.scopes_within, Scopes.depth, Scopes.depth, hdefine, hm]
    rfl
  · rw [Parser.scopes_within, hdefine, hm]
    rfl

theorem restores_varDecl : (varDecl : Parse τ Stmt).Restores := by
  have h := composable_restores (τ := τ)
  refine h.bind h.peek fun intro => ?_
  split
  · exact h.reject _ _
  · refine h.bind h.skip fun _ => Restores.bind_expect fun ident hname => ?_
    refine h.bind h.skip fun _ => h.bind (h.skipExpected _) fun _ => ?_
    refine h.bind h.type fun type => h.bind (h.skipExpected _) fun _ => ?_
    exact h.bind (restores_declare (hname rfl) _) fun _ => h.pure _

/-- What reading a declaration does to the scopes: nothing if it fails; else a variable is declared. -/
def Declares (before : Scopes) (result : Except Stop Stmt) (after : Scopes) : Prop :=
  (∀ why, result = .error why → after = before) ∧
  ∀ stmt, result = .ok stmt → ∃ d : VarDecl, stmt = .declare d ∧
    after = before.define d.ident ⟨d.location, d.type.kind, d.binding⟩

theorem declares_error (s : Scopes) (why : Stop) : Declares s (.error why) s :=
  ⟨fun _ _ => rfl, nofun⟩

/-- What comes before a declaration makes moves only. -/
theorem declares_bind {m : Parse τ α} {f : α → Parse τ Stmt} (hm : m.Plays)
    (hf : ∀ a (p : Parser τ), Declares p.scopes (f a p).1 (f a p).2.scopes) (p : Parser τ) :
    Declares p.scopes ((m >>= f) p).1 ((m >>= f) p).2.scopes := by
  obtain ⟨moves, -, hplay⟩ := hm p
  rcases h : m p with ⟨result, p'⟩
  obtain rfl : p' = p.play moves := by simpa [h] using hplay
  cases result with
  | ok a =>
    rw [bind_ok h]
    exact hf a (p.play moves)
  | error why =>
    rw [bind_error h]
    exact declares_error _ _

/-- Declaring a variable fails without a trace in the scopes, or declares it. -/
theorem declare_cases (ident : Token) (d : Declaration) (p : Parser τ) :
    (∃ why p', declare ident d p = (.error why, p') ∧ p'.scopes = p.scopes) ∨
    ∃ p', declare ident d p = (.ok (), p') ∧ p'.scopes = p.scopes.define ident.text d := by
  by_cases hopen : p.scopes.mappings = []
  · refine .inl ⟨.violated .noOpenScope, p, ?_, rfl⟩
    simp [declare, bind_run, Scopes.current, hopen, ofExcept, stop]
  · by_cases hname : ident.text = ""
    · obtain ⟨m, rest, hm⟩ := List.exists_cons_of_ne_nil hopen
      have hmake : Symbol.make ident.text .var = .error .emptyName := by simp [Symbol.make, hname]
      rw [declare, bind_ok (scopes_run p)]
      cases hc : m.contains ident.text <;>
        simp [bind_run, Scopes.current, hm, hc, hmake, ofExcept, stop]
    · exact .inr ⟨_, declare_run hopen hname d, rfl⟩

theorem declares_varDecl (p : Parser τ) :
    Declares p.scopes (varDecl p).1 (varDecl p).2.scopes := by
  have h := composable_plays (τ := τ)
  refine declares_bind h.peek (fun intro => ?_) p
  cases Binding.ofKeyword? intro.kind with
  | none => exact fun p => declares_error _ _
  | some binding =>
    refine declares_bind h.skip fun _ => declares_bind (h.expect _) fun ident => ?_
    refine declares_bind h.skip fun _ => declares_bind (h.skipExpected _) fun _ => ?_
    refine declares_bind h.type fun type => declares_bind (h.skipExpected _) fun _ p => ?_
    rcases declare_cases ident ⟨intro.location, type.kind, binding⟩ p with
      ⟨why, p', hrun, hscopes⟩ | ⟨p', hrun, hscopes⟩
    · rw [bind_error hrun]
      exact ⟨fun _ _ => hscopes, nofun⟩
    · rw [bind_ok hrun]
      refine ⟨nofun, fun stmt hstmt => ⟨⟨ident.text, type, binding, intro.location⟩, ?_, hscopes⟩⟩
      exact (Except.ok.inj hstmt).symm

/-- A name that is not declared keeps its entry, and all entries keep their places. -/
theorem insert_other (m : Mapping) (symbol : Symbol) :
    (∀ name, name ≠ symbol.name → (m.insert symbol).2.get? name = m.get? name) ∧
    (m.insert symbol).2.symbols.filter (·.name ≠ symbol.name) =
      m.symbols.filter (·.name ≠ symbol.name) := by
  refine ⟨fun name hname => ?_, ?_⟩
  · rw [Mapping.get?_insert, if_neg hname.symm]
  · -- the new entry takes the place of the old one or the last place, and is filtered out in both
    obtain ⟨symbols⟩ := m
    simp only [Mapping.insert]
    induction symbols with
    | nil => simp [Mapping.insertInto]
    | cons other rest ih =>
      by_cases hother : other.name = symbol.name
      · simp [Mapping.insertInto, hother]
      · simpa [Mapping.insertInto, hother] using ih

/-! ### Programs -/

/-- The scope of a program is closed again, whether the program is accepted or rejected. -/
theorem program_scopes {p : Parser τ} (hnamed : p.tokens.Named) :
    (∀ v, (program p).1 ≠ .error (.violated v)) ∧ (program p).2.scopes = p.scopes := by
  have hready : (programStart p).Ready := ⟨List.cons_ne_nil _ _,
    hnamed.play [.record .parsingProgram, .record (.scopeOpened (p.scopes.depth + 1))]⟩
  have h := composable_restores (τ := τ)
  have hstatements : (statements : Parse τ (List Stmt)).Restores :=
    h.bind h.tokensLeft fun bound => h.statementsWithin restores_varDecl bound
  obtain ⟨hreturned, hbehind, -, -, houter⟩ := hstatements _ hready
  rcases hbody : statements (programStart p) with ⟨result, p'⟩
  rw [hbody] at hreturned hbehind houter
  dsimp only at hreturned hbehind houter
  obtain ⟨m, rest, hm⟩ := List.exists_cons_of_ne_nil hbehind.isOpen
  -- the body left all but the innermost scope alone, and that one is closed
  have hrest : rest = p.scopes.mappings := by
    rw [hm] at houter
    exact houter
  have hclose : (closeScope : Parse τ Unit) p' =
      (.ok (), (p'.within p.scopes).recorded (.scopeClosed p.scopes.depth)) := by
    simp [closeScope, bind_run, Scopes.pop, hm, hrest, Parser.within]
  rw [program_run]
  -- a rejection is held back until the scope is closed; a violation is not, but there is none
  rcases result with (_ | v) | body
  · rw [bind_ok (attempt_rejected hbody), bind_ok hclose]
    refine ⟨fun v hviolated => ?_, rfl⟩
    cases hviolated
  · exact absurd rfl (hreturned v)
  · rw [bind_ok (attempt_ok hbody), bind_ok hclose]
    refine ⟨fun v hviolated => ?_, rfl⟩
    cases hviolated

theorem restores_program : (program : Parse τ Program).Restores := by
  intro p hp
  obtain ⟨hreturned, hscopes⟩ := program_scopes hp.named
  obtain ⟨moves, -, htokens, hdepth⟩ := runs_program p
  refine ⟨hreturned, ⟨?_, ?_⟩, hdepth, ?_, ?_⟩
  · rw [hscopes]
    exact hp.isOpen
  · rw [htokens]
    exact hp.named.play moves
  all_goals rw [hscopes]

/-! ### All procedures -/

/-- The procedures of the parser, by what they read. -/
inductive Procedure : Type → Type
  | program : Procedure Program
  | statements : Procedure (List Stmt)
  | statement : Procedure Stmt
  | varDecl : Procedure Stmt
  | evaluation : Procedure Stmt
  | loop : Procedure Stmt
  | type : Procedure TypeRef
  | expression : Procedure Expr
  | binary (min : Nat) : Procedure Expr
  | unary : Procedure Expr
  | primary : Procedure Expr
  | literal : Procedure Expr
  | name : Procedure Expr
  | conditional : Procedure Expr

namespace Procedure

/-- What the procedure does. -/
def run : Procedure α → Parse τ α
  | .program => Parse.program
  | .statements => Parse.statements
  | .statement => Parse.statement
  | .varDecl => Parse.varDecl
  | .evaluation => Parse.evaluation
  | .loop => Parse.loop
  | .type => Parse.type
  | .expression => Parse.expression
  | .binary min => Parse.binary min
  | .unary => Parse.unary
  | .primary => Parse.primary
  | .literal => Parse.literal
  | .name => Parse.name
  | .conditional => Parse.conditional

/-- Can the procedure declare names in the scope that is open around it? -/
def mayDeclare : Procedure α → Bool
  | .statements | .statement | .varDecl => true
  | _ => false

/-- Does the procedure open a scope of its own? -/
def opensScope : Procedure α → Bool
  | .program => true
  | _ => false

/-- Apart from programs and declarations, procedures are composed. -/
theorem composed {P : ∀ {α : Type}, Parse τ α → Prop} (h : Composable P) (m : Procedure α)
    (hprogram : m.opensScope → P (Parse.program : Parse τ Program))
    (hdeclare : m.mayDeclare → P (Parse.varDecl : Parse τ Stmt)) : P (m.run : Parse τ α) := by
  cases m with
  | program => exact hprogram rfl
  | statements => exact h.bind h.tokensLeft fun bound => h.statementsWithin (hdeclare rfl) bound
  | statement => exact h.bind h.tokensLeft fun bound => h.statementWithin (hdeclare rfl) bound
  | varDecl => exact hdeclare rfl
  | evaluation => exact h.bind h.tokensLeft fun bound => h.evaluationWithin bound
  | loop => exact h.loop
  | type => exact h.type
  | expression => exact h.bind h.tokensLeft fun bound => h.expressionWithin bound
  | binary min =>
    refine h.bind h.tokensLeft fun bound => h.bind h.room fun room => ?_
    exact h.binaryWith (h.unaryWithin bound room) bound _ min
  | unary => exact h.bind h.tokensLeft fun bound => h.bind h.room fun room => h.unaryWithin bound room
  | primary => exact h.bind h.tokensLeft fun bound => h.primaryWith (h.expressionWithin bound)
  | literal => exact h.literal
  | name => exact h.name
  | conditional => exact h.conditional

/-- A procedure that does not declare names leaves the scopes alone; a program closes its own. -/
theorem scopes_run {p : Parser τ} (hnamed : p.tokens.Named) (m : Procedure α)
    (h : m.mayDeclare = false) : (m.run p).2.scopes = p.scopes := by
  cases hopens : m.opensScope with
  | true =>
    cases m with
    | program => exact (program_scopes hnamed).2
    | _ => cases hopens
  | false =>
    have hplays : (m.run : Parse τ α).Plays :=
      m.composed composable_plays (fun hyes => absurd (hopens.symm.trans hyes) nofun)
        fun hyes => absurd (h.symm.trans hyes) nofun
    obtain ⟨moves, -, hplay⟩ := hplays p
    rw [hplay, Parser.scopes_play]

end Procedure

/-- Every procedure puts things back, on every path. Where a scope is open and identifiers have names, it
comes back with a result or with a rejection, at the same depth of nesting, with as many scopes open and all
but the innermost one as they were; unless it reads statements, it leaves all of them alone. A declaration
that fails leaves them alone too, and one that succeeds changes the entry of its own name and no other. The
identifiers of a lexer always have names. -/
theorem procedures_restore_state :
    (∀ (τ : Type) [TokenSource τ] (p : Parser τ), p.scopes.mappings ≠ [] → p.tokens.Named →
      (∀ (α : Type) (m : Procedure α), Restored p (m.run p) ∧
        (m.mayDeclare = false → (m.run p).2.scopes = p.scopes)) ∧
      (∀ why, (varDecl p).1 = .error why → (varDecl p).2.scopes = p.scopes) ∧
      ∀ stmt, (varDecl p).1 = .ok stmt → ∃ (d : VarDecl) (before after : Mapping) (outer : List Mapping),
        stmt = .declare d ∧ p.scopes.mappings = before :: outer ∧
        (varDecl p).2.scopes.mappings = after :: outer ∧
        after.get? d.ident = some ⟨d.ident, .var, some ⟨d.location, d.type.kind, d.binding⟩⟩ ∧
        (∀ name, name ≠ d.ident → after.get? name = before.get? name) ∧
        after.symbols.filter (·.name ≠ d.ident) = before.symbols.filter (·.name ≠ d.ident)) ∧
    ∀ (σ : Type) [CharSource σ] (q : Lexer σ), (∀ t ∈ q.buffer, t.lexeme.Valid) → Lookahead.Named q := by
  refine ⟨fun τ _ p hopen hnamed => ⟨fun α m => ⟨?_, m.scopes_run hnamed⟩, ?_, ?_⟩,
    fun σ _ q => Lexer.named⟩
  · exact m.composed composable_restores (fun _ => restores_program) (fun _ => restores_varDecl) p
      ⟨hopen, hnamed⟩
  · exact (declares_varDecl p).1
  · intro stmt hstmt
    obtain ⟨d, rfl, hafter⟩ := (declares_varDecl p).2 stmt hstmt
    obtain ⟨before, outer, hbefore⟩ := List.exists_cons_of_ne_nil hopen
    obtain ⟨hothers, hplaces⟩ :=
      insert_other before ⟨d.ident, .var, some ⟨d.location, d.type.kind, d.binding⟩⟩
    refine ⟨d, before, _, outer, rfl, hbefore, ?_, ?_, hothers, hplaces⟩
    · rw [hafter, Scopes.mappings_define hbefore]
    · rw [Mapping.get?_insert, if_pos rfl]

/-- A parser in the middle of a unit, with two scopes open and little room left for nesting. -/
def midway (text : String) : Parser (Scanner (List Char)) where
  tokens := Lexer.start "unit" text.toList defaultTabWidth .empty
  scopes := ⟨[⟨[⟨"x", .var, none⟩, ⟨"y", .var, none⟩]⟩, ⟨[⟨"x", .typename, none⟩]⟩]⟩
  depth := 126

/-- A declaration that shadows, one that breaks off, and an expression that is nested too deeply. -/
theorem procedures_restore_state_midway :
    (midway "let x: Int32;").scopes.mappings ≠ [] ∧
    (midway "let x: Int32;").tokens.Named ∧
    (∃ d : VarDecl, (varDecl (midway "let x: Int32;")).1 = .ok (.declare d)) ∧
    (varDecl (midway "let x: Int32;")).2.scopes.mappings.tail = [⟨[⟨"x", .typename, none⟩]⟩] ∧
    (varDecl (midway "let x: @;")).2.scopes = (midway "").scopes ∧
    (expression (midway "1 + (((x)))")).2.depth = 126 := by
  obtain ⟨hrestore, hnames⟩ := procedures_restore_state
  have hready : ∀ text, (midway text).scopes.mappings ≠ [] ∧ (midway text).tokens.Named :=
    fun text => ⟨List.cons_ne_nil _ _, hnames _ _ fun t ht => absurd ht List.not_mem_nil⟩
  have hall := fun text => hrestore _ (midway text) (hready text).1 (hready text).2
  refine ⟨(hready _).1, (hready _).2, ?_, ?_, ?_, ?_⟩
  · have hok : (varDecl (midway "let x: Int32;")).1.toOption.isSome = true := by decide +kernel
    rcases hresult : (varDecl (midway "let x: Int32;")).1 with why | stmt
    · rw [hresult] at hok
      cases hok
    · obtain ⟨d, -, -, -, rfl, -⟩ := (hall "let x: Int32;").2.2 stmt hresult
      exact ⟨d, rfl⟩
  · exact ((hall "let x: Int32;").1 _ .varDecl).1.outer
  · have herror : (varDecl (midway "let x: @;")).1.toOption.isNone = true := by decide +kernel
    rcases hresult : (varDecl (midway "let x: @;")).1 with why | stmt
    · exact (hall "let x: @;").2.1 why hresult
    · rw [hresult] at herror
      cases herror
  · exact ((hall "1 + (((x)))").1 _ .expression).1.depth

end Parse

end SwiftDialect
