import SwiftDialect.Parser.Statement
import SwiftDialect.Proofs.Moves

/-!
# What the procedures do

For each procedure of the parser, an equation for what it does to a state: its result, and the state
after its moves. Procedures that read a single token depend on the next token only, and these
equations hold in every state.
-/

namespace SwiftDialect.Parse

variable {τ α β : Type}

/-! ### Sequencing -/

@[simp] theorem pure_run (a : α) (p : Parser τ) : (pure a : Parse τ α) p = (.ok a, p) := rfl

theorem bind_run (m : Parse τ α) (f : α → Parse τ β) (p : Parser τ) :
    (m >>= f) p = match m p with
      | (.ok a, p) => f a p
      | (.error stop, p) => (.error stop, p) := rfl

theorem bind_ok {m : Parse τ α} {a : α} {p p' : Parser τ} (h : m p = (.ok a, p'))
    (f : α → Parse τ β) : (m >>= f) p = f a p' := by
  rw [bind_run, h]

theorem bind_error {m : Parse τ α} {stop : Stop} {p p' : Parser τ} (h : m p = (.error stop, p'))
    (f : α → Parse τ β) : (m >>= f) p = (.error stop, p') := by
  rw [bind_run, h]

theorem attempt_ok {m : Parse τ α} {a : α} {p p' : Parser τ} (h : m p = (.ok a, p')) :
    attempt m p = (.ok (some a), p') := by
  rw [attempt, h]

theorem attempt_rejected {m : Parse τ α} {p p' : Parser τ} (h : m p = (.error .rejected, p')) :
    attempt m p = (.ok none, p') := by
  rw [attempt, h]

@[simp] theorem scopes_run (p : Parser τ) : (scopes : Parse τ Scopes) p = (.ok p.scopes, p) := rfl

@[simp] theorem setScopes_run (s : Scopes) (p : Parser τ) :
    (setScopes s : Parse τ Unit) p = (.ok (), { p with scopes := s }) := rfl

@[simp] theorem ofExcept_ok (a : α) (p : Parser τ) :
    (ofExcept (.ok a) : Parse τ α) p = (.ok a, p) := rfl

variable [TokenSource τ]

/-! ### Single moves -/

@[simp] theorem peek_run (p : Parser τ) : peek p = (.ok p.next, p.peeked) := rfl

@[simp] theorem skip_run (p : Parser τ) : skip p = (.ok (), p.skipped) := rfl

@[simp] theorem record_run (e : Event) (p : Parser τ) : record e p = (.ok (), p.recorded e) := rfl

@[simp] theorem report_run (pr : Problem) (l : Location) (p : Parser τ) :
    report pr l p = (.ok (), p.recorded (.reported (pr.diagnose l))) := rfl

@[simp] theorem reject_run (pr : Problem) (l : Location) (p : Parser τ) :
    (reject pr l : Parse τ α) p = (.error .rejected, p.recorded (.reported (pr.diagnose l))) := rfl

@[simp] theorem unexpected_run (t : Token) (p : Parser τ) : (unexpected t : Parse τ α) p =
    (.error .rejected,
      p.recorded (.reported ((Problem.unexpectedToken t.kind.display).diagnose t.location))) := rfl

/-! ### Expected tokens -/

theorem expect_ok {k : TokenKind} {p : Parser τ} (h : p.next.kind = k) :
    expect k p = (.ok p.next, p.peeked) := by
  simp [expect, bind_run, h]

theorem expect_error {k : TokenKind} {p : Parser τ} (h : p.next.kind ≠ k) :
    expect k p = (.error .rejected, p.peeked.recorded
      (.reported ((Problem.expectedToken k.display p.next.kind.display).diagnose p.next.location))) := by
  simp [expect, bind_run, h]

theorem skipExpected_ok {k : TokenKind} {p : Parser τ} (h : p.next.kind = k) :
    skipExpected k p = (.ok (), p.skipped) := by
  rw [skipExpected, bind_ok (expect_ok h), skip_run, Parser.skipped_peeked]

theorem skipExpected_error {k : TokenKind} {p : Parser τ} (h : p.next.kind ≠ k) :
    skipExpected k p = (.error .rejected, p.peeked.recorded
      (.reported ((Problem.expectedToken k.display p.next.kind.display).diagnose p.next.location))) := by
  rw [skipExpected, bind_error (expect_error h)]

end SwiftDialect.Parse
