import SwiftDialect.Stream

/-!
# What a lookahead still yields

A lookahead is seen through the items it will give out: `q.Yields as` says that the next ones are
`as`. Looking at an item changes nothing in this view, and consuming one takes the first item off.
-/

namespace SwiftDialect.Lookahead

universe u v

variable {σ : Type u} {α : Type v} [Producer σ α]

/-- The items to come begin with these. -/
def Yields (q : Lookahead σ α) : List α → Prop
  | [] => True
  | a :: as => q.pop.1 = a ∧ q.pop.2.Yields as

/-! ### Looking at an item and consuming it -/

@[simp] theorem peek_peek (q : Lookahead σ α) : q.peek.2.peek = q.peek := rfl

@[simp] theorem skip_peek (q : Lookahead σ α) : q.peek.2.skip = q.skip := rfl

/-! ### The buffer -/

/-- The item that is looked at is then in the buffer. -/
theorem getElem?_peekNth (n : Nat) : ∀ q : Lookahead σ α,
    (q.peekNth n).2.buffer[n]? = some (q.peekNth n).1 := by
  induction n with
  | zero => exact fun _ => rfl
  | succ n ih => exact fun q => ih q.pop.2

/-- Consuming items takes them off the front of the buffer, once they are in it. -/
theorem skipNth_eq_drop (n : Nat) : ∀ q : Lookahead σ α, q.skipNth n =
    { (q.peekNth n).2 with buffer := (q.peekNth n).2.buffer.drop (n + 1) } := by
  induction n with
  | zero => exact fun _ => rfl
  | succ n ih => exact fun q => ih q.pop.2

/-! ### The items to come -/

@[simp] theorem yields_nil (q : Lookahead σ α) : q.Yields [] := trivial

@[simp] theorem yields_peek {q : Lookahead σ α} {as : List α} : q.peek.2.Yields as ↔ q.Yields as := by
  cases as with
  | nil => exact Iff.rfl
  | cons a as => exact Iff.rfl

/-- Two readings of one lookahead agree as far as both go. -/
theorem Yields.eq_take {as bs : List α} : ∀ {q : Lookahead σ α}, q.Yields as → q.Yields bs →
    as.length ≤ bs.length → as = bs.take as.length := by
  induction as generalizing bs with
  | nil => exact fun _ _ _ => rfl
  | cons a as ih =>
    intro q ha hb hlen
    cases bs with
    | nil => exact absurd hlen (Nat.not_succ_le_zero _)
    | cons b bs =>
      rw [List.length_cons, List.take_succ_cons, ← ha.1, ← hb.1,
        ← ih ha.2 hb.2 (Nat.le_of_succ_le_succ hlen)]

end SwiftDialect.Lookahead
