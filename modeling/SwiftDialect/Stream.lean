/-!
# Streams with lookahead

A *producer* is anything that gives out items one after another. A *lookahead* stands in front of a
producer and keeps the items that were looked at but not consumed yet, so that any item ahead can be
inspected and the producer is asked for each item exactly once.

Everything is built from two moves: `pop` takes the next item, `unread` puts one back. Looking `n`
items ahead pops `n + 1` items and puts them back in order.
-/

namespace SwiftDialect

universe u v

/-- A state that yields one item after another, without end. -/
class Producer (σ : Type u) (α : outParam (Type v)) where
  /-- The next item, and the state after giving it out. -/
  next : σ → α × σ

/-- A producer together with the items taken from it that nobody has consumed. -/
structure Lookahead (σ : Type u) (α : Type v) where
  /-- Items produced but not consumed, the next one first. -/
  buffer : List α
  /-- The producer of everything after the buffered items. -/
  source : σ

namespace Lookahead

variable {σ : Type u} {α : Type v}

/-- A lookahead that has not asked its producer for anything. -/
def ofSource (source : σ) : Lookahead σ α :=
  ⟨[], source⟩

/-- How many items are waiting in the buffer. -/
def buffered (q : Lookahead σ α) : Nat :=
  q.buffer.length

/-- Puts an item back in front of all others. -/
def unread (a : α) (q : Lookahead σ α) : Lookahead σ α :=
  { q with buffer := a :: q.buffer }

/-- Applies a change to the producer behind the buffer. -/
def mapSource (f : σ → σ) (q : Lookahead σ α) : Lookahead σ α :=
  { q with source := f q.source }

variable [Producer σ α]

/-- Consumes the next item: the first buffered one if there is any, else a fresh one. -/
def pop (q : Lookahead σ α) : α × Lookahead σ α :=
  match q.buffer with
  | a :: rest => (a, { q with buffer := rest })
  | [] =>
    let (a, source) := Producer.next q.source
    (a, { q with source })

/-- The item `n` places ahead of the next one; nothing is consumed. -/
def peekNth : Nat → Lookahead σ α → α × Lookahead σ α
  | 0, q =>
    let (a, rest) := q.pop
    (a, rest.unread a)
  | n + 1, q =>
    let (a, rest) := q.pop
    let (b, ahead) := peekNth n rest
    (b, ahead.unread a)

/-- Consumes the next `n + 1` items. -/
def skipNth : Nat → Lookahead σ α → Lookahead σ α
  | 0, q => q.pop.2
  | n + 1, q => skipNth n q.pop.2

/-- The next item; nothing is consumed. -/
def peek (q : Lookahead σ α) : α × Lookahead σ α :=
  q.peekNth 0

/-- Consumes the next item. -/
def skip (q : Lookahead σ α) : Lookahead σ α :=
  q.skipNth 0

end Lookahead

end SwiftDialect
