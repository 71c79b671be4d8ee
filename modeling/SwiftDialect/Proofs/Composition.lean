import SwiftDialect.Proofs.Procedures
import SwiftDialect.Proofs.Reachable

/-!
# Procedures are composed of few parts

The procedures of the parser are put together from a few parts: they look at the next token, consume it,
enter an event into the journal, find out what a name means, count a level of nesting, or reject the input.
A property of procedures that the parts have, and that is kept when they are put together, holds for all
procedures that read expressions and types. If a declaration has it too, then it holds for all that read
statements.
-/

namespace SwiftDialect.Parse

variable {τ : Type} [TokenSource τ]

/-- A property of procedures that the parts have, and that is kept when they are put together. -/
structure Composable (P : ∀ {α : Type}, Parse τ α → Prop) : Prop where
  /-- A procedure that changes nothing and comes to a result. -/
  idle : ∀ {α : Type} {m : Parse τ α}, (∀ p, ∃ a, m p = (.ok a, p)) → P m
  bind : ∀ {α β : Type} {m : Parse τ α} {f : α → Parse τ β}, P m → (∀ a, P (f a)) → P (m >>= f)
  deeper : ∀ {α : Type} {m : Parse τ α}, P m → P (Parse.deeper m)
  peek : P (Parse.peek : Parse τ Token)
  skip : P (Parse.skip : Parse τ Unit)
  record : ∀ {e : Event}, e.Proper → P (Parse.record e : Parse τ Unit)
  rejected : ∀ {α : Type}, P (stop .rejected : Parse τ α)
  resolve : ∀ token, P (Parse.resolve token : Parse τ Expr)

namespace Composable

variable {P : ∀ {α : Type}, Parse τ α → Prop} {α : Type}

theorem pure (h : Composable P) (a : α) : P (Pure.pure a : Parse τ α) :=
  h.idle fun _ => ⟨a, rfl⟩

theorem report (h : Composable P) (problem : Problem) (place : Location) :
    P (Parse.report problem place : Parse τ Unit) :=
  h.record (.inl ⟨problem, place, rfl⟩)

theorem reject (h : Composable P) (problem : Problem) (place : Location) :
    P (Parse.reject problem place : Parse τ α) :=
  h.bind (h.report problem place) fun _ => h.rejected

theorem expect (h : Composable P) (kind : TokenKind) : P (Parse.expect kind : Parse τ Token) := by
  refine h.bind h.peek fun token => ?_
  split
  · exact h.pure token
  · exact h.reject _ _

theorem skipExpected (h : Composable P) (kind : TokenKind) : P (Parse.skipExpected kind : Parse τ Unit) :=
  h.bind (h.expect kind) fun _ => h.skip

/-! ### Expressions and types -/

theorem literal (h : Composable P) : P (Parse.literal : Parse τ Expr) := by
  -- the three kinds of literal differ in their value only; what is done with it is the same
  have hvalue : ∀ f : Except LiteralError Expr → Parse τ Expr, (∀ expr, P (f (.ok expr))) →
      (∀ e, P (f (.error e))) → ∀ value, P (f value) := by
    intro f hok herror value
    cases value with
    | ok expr => exact hok expr
    | error e => exact herror e
  refine h.bind h.peek fun token => ?_
  dsimp only
  split
  all_goals
    refine h.bind ?_ (hvalue _ (fun expr => h.bind h.skip fun _ => h.pure expr) fun e => h.reject _ _)
  · exact h.pure _
  · exact h.pure _
  · exact h.pure _
  · exact h.reject _ _

theorem name (h : Composable P) : P (Parse.name : Parse τ Expr) :=
  h.bind (h.expect _) fun token => h.bind h.skip fun _ => h.resolve token

theorem conditional (h : Composable P) : P (Parse.conditional : Parse τ Expr) :=
  h.bind h.peek fun _ => h.reject _ _

theorem primaryWith (h : Composable P) {inner : Parse τ Expr} (hinner : P inner) :
    P (Parse.primaryWith inner) := by
  refine h.bind h.peek fun token => ?_
  split
  · exact h.literal
  · exact h.literal
  · exact h.literal
  · exact h.name
  · exact h.bind h.skip fun _ => h.bind hinner fun e => h.bind (h.skipExpected _) fun _ => h.pure e
  · exact h.conditional
  · exact h.reject _ _

theorem operators (h : Composable P) {right : Nat → Parse τ Expr} (hright : ∀ power, P (right power))
    (min bound : Nat) : ∀ lhs, P (Parse.operators right min bound lhs) := by
  induction bound with
  | zero => exact fun lhs => h.bind h.peek fun _ => h.pure lhs
  | succ bound ih =>
    refine fun lhs => h.bind h.peek fun token => ?_
    split
    · exact h.pure lhs
    · split
      · exact h.pure lhs
      · exact h.bind h.skip fun _ => h.bind (hright _) fun rhs => ih _

theorem binaryWith (h : Composable P) {operand : Parse τ Expr} (hoperand : P operand)
    (bound levels : Nat) : ∀ min, P (Parse.binaryWith operand bound levels min) := by
  induction levels with
  | zero => exact fun _ => hoperand
  | succ levels ih => exact fun min => h.bind hoperand fun first => h.operators ih min bound first

theorem expressionWith (h : Composable P) {operand : Parse τ Expr} (hoperand : P operand) (bound : Nat) :
    P (Parse.expressionWith operand bound) :=
  h.bind (h.record (.inr rfl)) fun _ => h.binaryWith hoperand bound _ _

theorem prefixed (h : Composable P) {operand primary : Parse τ Expr} (hoperand : P operand)
    (hprimary : P primary) : P (do
      let token ← Parse.peek
      match UnaryOp.ofToken? token.kind with
      | some op =>
        Parse.skip
        let operand ← operand
        return .unary op operand token.location
      | none => primary : Parse τ Expr) := by
  refine h.bind h.peek fun token => ?_
  split
  · exact h.bind h.skip fun _ => h.bind hoperand fun operand => h.pure _
  · exact hprimary

theorem unaryWithin (h : Composable P) (bound room : Nat) : P (Parse.unaryWithin bound room) := by
  induction room with
  | zero => exact h.bind h.peek fun _ => h.reject _ _
  | succ room ih => exact h.deeper (h.prefixed ih (h.primaryWith (h.expressionWith ih bound)))

theorem room (h : Composable P) : P (Parse.room : Parse τ Nat) :=
  h.idle fun p => ⟨maxNesting - p.depth, rfl⟩

theorem tokensLeft (h : Composable P) : P (Parse.tokensLeft : Parse τ Nat) :=
  h.idle fun p => ⟨p.tokens.tokensLeft, rfl⟩

theorem expressionWithin (h : Composable P) (bound : Nat) : P (Parse.expressionWithin bound) :=
  h.bind h.room fun room => h.expressionWith (h.unaryWithin bound room) bound

theorem type (h : Composable P) : P (Parse.type : Parse τ TypeRef) := by
  refine h.bind h.peek fun token => ?_
  split
  · exact h.bind h.skip fun _ => h.pure _
  · exact h.reject _ _

/-! ### Statements -/

theorem evaluationWithin (h : Composable P) (bound : Nat) : P (Parse.evaluationWithin bound) :=
  h.bind (h.expressionWithin bound) fun _ => h.bind (h.skipExpected _) fun _ => h.pure _

theorem loop (h : Composable P) : P (Parse.loop : Parse τ Stmt) :=
  h.bind h.peek fun _ => h.reject _ _

theorem statementWithin (h : Composable P) (hdeclare : P (varDecl : Parse τ Stmt)) (bound : Nat) :
    P (Parse.statementWithin bound) := by
  refine h.bind (h.record (.inr rfl)) fun _ => h.bind h.peek fun token => ?_
  split
  · exact hdeclare
  · exact hdeclare
  · exact h.loop
  any_goals exact h.evaluationWithin bound
  exact h.reject _ _

theorem statementsWithin (h : Composable P) (hdeclare : P (varDecl : Parse τ Stmt)) (bound : Nat) :
    P (Parse.statementsWithin bound) := by
  induction bound with
  | zero => exact h.bind h.peek fun _ => h.pure _
  | succ bound ih =>
    refine h.bind h.peek fun token => ?_
    split
    · exact h.pure _
    · exact h.bind (h.statementWithin hdeclare _) fun _ => h.bind ih fun _ => h.pure _

end Composable

end SwiftDialect.Parse
