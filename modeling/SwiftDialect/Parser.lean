import SwiftDialect.Lexer
import SwiftDialect.Scope

/-!
# Parsers

A parser reads tokens, declares and resolves names, and reports what is wrong. It gives up at the
first thing that is wrong: a rejected input has been explained in the journal before the parser
stops. A parser that is run where its precondition does not hold stops with that violation.

The parts of a program are read by *procedures*. A procedure changes the state of the parser whether
or not it succeeds.
-/

namespace SwiftDialect

/-- Why a procedure stopped without a result. -/
inductive Stop where
  /-- The input is wrong; the journal says why. -/
  | rejected
  /-- The procedure was run where its precondition does not hold. -/
  | violated (violation : Violation)
  deriving DecidableEq, Repr, Inhabited

/-- The state of a parser. -/
structure Parser (τ : Type) where
  /-- The tokens to come. -/
  tokens : Lookahead τ Token
  /-- The open scopes. -/
  scopes : Scopes := {}
  /-- How many operands are being read, one inside the other. -/
  depth : Nat := 0

/-- A procedure with a result in `α`. -/
def Parse (τ α : Type) : Type :=
  Parser τ → Except Stop α × Parser τ

namespace Parse

variable {τ α β : Type}

instance : Monad (Parse τ) where
  pure a p := (.ok a, p)
  bind m f p :=
    match m p with
    | (.ok a, p) => f a p
    | (.error stop, p) => (.error stop, p)

/-- Stops without a result. -/
def stop (why : Stop) : Parse τ α :=
  fun p => (.error why, p)

/-- Carries a result over, or stops with the violation. -/
def ofExcept : Except Violation α → Parse τ α
  | .ok a => pure a
  | .error violation => stop (.violated violation)

/-- Runs a procedure and goes on even if it rejects the input. -/
def attempt (m : Parse τ α) : Parse τ (Option α) :=
  fun p =>
    match m p with
    | (.ok a, p) => (.ok (some a), p)
    | (.error .rejected, p) => (.ok none, p)
    | (.error (.violated violation), p) => (.error (.violated violation), p)

/-- Runs a procedure one level of nesting further in. -/
def deeper (m : Parse τ α) : Parse τ α :=
  fun p =>
    let (result, p) := m { p with depth := p.depth + 1 }
    (result, { p with depth := p.depth - 1 })

/-- How many levels of nesting there are. -/
def depth : Parse τ Nat :=
  fun p => (.ok p.depth, p)

/-- The open scopes. -/
def scopes : Parse τ Scopes :=
  fun p => (.ok p.scopes, p)

/-- Replaces the open scopes. -/
def setScopes (scopes : Scopes) : Parse τ Unit :=
  fun p => (.ok (), { p with scopes })

variable [TokenSource τ]

/-- The token `n` places ahead of the next one. -/
def peekNth (n : Nat) : Parse τ Token :=
  fun p =>
    let (token, tokens) := p.tokens.peekNth n
    (.ok token, { p with tokens })

/-- Consumes the next `n + 1` tokens. -/
def skipNth (n : Nat) : Parse τ Unit :=
  fun p => (.ok (), { p with tokens := p.tokens.skipNth n })

/-- The next token. -/
def peek : Parse τ Token :=
  peekNth 0

/-- Consumes the next token. -/
def skip : Parse τ Unit :=
  skipNth 0

/-- A bound on how many tokens come before the next end token. -/
def tokensLeft : Parse τ Nat :=
  fun p => (.ok p.tokens.tokensLeft, p)

/-- Enters an event into the journal. -/
def record (e : Event) : Parse τ Unit :=
  fun p => (.ok (), { p with tokens := p.tokens.mapSource (TokenSource.record e) })

/-- Reports a problem at a place. -/
def report (problem : Problem) (location : Location) : Parse τ Unit :=
  record (.reported (problem.diagnose location))

/-- Reports a problem and rejects the input. -/
def reject (problem : Problem) (location : Location) : Parse τ α := do
  report problem location
  stop .rejected

/-- Rejects the input because of a token that cannot stand where it does. -/
def unexpected (token : Token) : Parse τ α :=
  reject (.unexpectedToken token.kind.display) token.location

/-- The next token, which must be of a given kind; it is not consumed. -/
def expect (kind : TokenKind) : Parse τ Token := do
  let token ← peek
  if token.kind = kind then return token
  else reject (.expectedToken kind.display token.kind.display) token.location

/-- Consumes the next token, which must be of a given kind. -/
def skipExpected (kind : TokenKind) : Parse τ Unit := do
  let _ ← expect kind
  skip

/-- Opens a scope. -/
def openScope : Parse τ Unit := do
  let inner := (← scopes).push
  setScopes inner
  record (.scopeOpened inner.depth)

/-- Closes the innermost scope. -/
def closeScope : Parse τ Unit := do
  let (_, outer) ← ofExcept (← scopes).pop
  setScopes outer
  record (.scopeClosed outer.depth)

end Parse

end SwiftDialect
