import SwiftDialect.Scanner

/-!
# Token streams

The parser reads tokens from a *token source*: anything that produces tokens, reaches an end token
after finitely many of them, and keeps a journal of the run. A scanner is one. A *lexer* is a
scanner with lookahead: tokens are scanned when they are first looked at, not before.
-/

namespace SwiftDialect

universe u

/-- A producer of tokens that keeps a journal. -/
class TokenSource (τ : Type u) extends Producer τ Token where
  /-- A bound on how many tokens come before the next end token. -/
  remaining : τ → Nat
  /-- Enters an event into the journal. -/
  record : Event → τ → τ

instance {σ : Type u} [CharSource σ] : TokenSource (Scanner σ) where
  remaining s := s.chars.charsLeft
  record := Scanner.record

namespace Lookahead

variable {τ : Type u}

/-- A bound on how many tokens come before the next end token. -/
def tokensLeft [TokenSource τ] (q : Lookahead τ Token) : Nat :=
  q.buffer.countP (·.kind != .endOfFile) + TokenSource.remaining q.source

/-- Consumes tokens up to the first end token, which is included. At most `bound` others may come
before it. -/
def readToEnd [Producer τ Token] : Nat → Lookahead τ Token → List Token × Lookahead τ Token
  | 0, q =>
    let (token, q) := q.pop
    ([token], q)
  | bound + 1, q =>
    let (token, q) := q.pop
    if token.kind = .endOfFile then ([token], q)
    else
      let (tokens, q) := readToEnd bound q
      (token :: tokens, q)

/-- Consumes all tokens up to the first end token, which is included. -/
def readAll [TokenSource τ] (q : Lookahead τ Token) : List Token × Lookahead τ Token :=
  q.readToEnd q.tokensLeft

end Lookahead

/-- A scanner with lookahead. -/
abbrev Lexer (σ : Type u) := Lookahead (Scanner σ) Token

namespace Lexer

variable {σ : Type u}

/-- A lexer at the start of a unit called `name`. -/
def start (name : String) (source : σ) (tabWidth : Nat) (journal : Journal) : Lexer σ :=
  .ofSource (Scanner.start name source tabWidth journal)

/-- Enters the report of a diagnostic into the journal. -/
def report (d : Diagnostic) (q : Lexer σ) : Lexer σ :=
  q.mapSource (Scanner.record (.reported d))

/-- Collects the failure that cut the input short, if there was one. -/
def takeFailure [CharSource σ] (q : Lexer σ) : Option String × Lexer σ :=
  let scanner := q.source
  let (failure, source) := CharSource.takeFailure scanner.chars.source
  (failure, { q with source := { scanner with chars := { scanner.chars with source } } })

end Lexer

end SwiftDialect
