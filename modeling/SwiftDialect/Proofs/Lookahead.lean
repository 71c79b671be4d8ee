import SwiftDialect.Proofs.Tracking
import SwiftDialect.Source

/-!
# A lookahead is a cursor in a sequence

A lookahead is used by looking at items and consuming them, in any order and at any distance. Behind its
back, items may also be pulled directly from its producer. All the while it shows the sequence that the
producer gives out by itself, less the items that were pulled: a *view* of that sequence says which item is
where, how many were consumed and how many were produced for the lookahead.

Main statement: every use of a lookahead shows what the view of the sequence shows, the producer was asked
for each item once, and no further than some use had to reach (`lookahead_refines_cursor`).
-/

namespace SwiftDialect

universe u v

variable {σ : Type u} {α : Type v} [Producer σ α]

/-! ### The sequence of a producer, from a later place on -/

namespace Producer

theorem after_after (s : σ) (m n : Nat) : after (after s m) n = after s (m + n) := by
  induction n with
  | zero => rfl
  | succ n ih => rw [after, ih]; rfl

theorem item_after (s : σ) (m n : Nat) : item (after s m) n = item s (m + n) := by
  rw [item, after_after]
  rfl

end Producer

/-- A producer that keeps a list of the items it was asked for, the oldest first. -/
structure Logged (σ : Type u) (α : Type v) where
  source : σ
  given : List α := []
  deriving DecidableEq, Repr

instance : Producer (Logged σ α) α where
  next l := ((Producer.next l.source).1,
    ⟨(Producer.next l.source).2, l.given ++ [(Producer.next l.source).1]⟩)

namespace Logged

open Producer

/-- The list holds the items asked for, each of them once. -/
theorem after_eq (s : σ) (n : Nat) :
    after (⟨s, []⟩ : Logged σ α) n = ⟨after s n, (List.range n).map (item s)⟩ := by
  induction n with
  | zero => rfl
  | succ n ih =>
    rw [after, ih, List.range_succ, List.map_append]
    rfl

/-- Keeping the list has no bearing on the items. -/
theorem item_eq (s : σ) (n : Nat) : item (⟨s, []⟩ : Logged σ α) n = item s n := by
  rw [item, after_eq]
  rfl

end Logged

namespace Lookahead

open Producer

/-! ### Filling the buffer -/

/-- The lookahead once at least `n` items wait in its buffer. -/
def filled (q : Lookahead σ α) (n : Nat) : Lookahead σ α where
  buffer := q.buffer ++ (List.range (n - q.buffer.length)).map (item q.source)
  source := after q.source (n - q.buffer.length)

theorem filled_pop (q : Lookahead σ α) (n : Nat) :
    (q.pop.2.filled n).unread q.pop.1 = q.filled (n + 1) := by
  obtain ⟨buffer, source⟩ := q
  cases buffer with
  | cons a rest => simp [filled, pop, unread, Nat.add_sub_add_right]
  | nil =>
    have hone : (next source).2 = after source 1 := rfl
    simp only [filled, pop, unread, hone, after_after, List.length_nil, Nat.sub_zero, List.nil_append,
      List.range_succ_eq_map, List.map_cons, List.map_map, Nat.add_comm 1]
    congr 2
    refine List.map_congr_left fun k _ => ?_
    exact (item_after source 1 k).trans (congrArg (item source) (Nat.add_comm 1 k))

/-- Looking ahead fills the buffer, and does nothing else. -/
theorem peekNth_eq_filled (n : Nat) : ∀ q : Lookahead σ α, (q.peekNth n).2 = q.filled (n + 1) := by
  induction n with
  | zero =>
    intro q
    rw [← filled_pop]
    simp [peekNth, filled, after]
  | succ n ih =>
    intro q
    rw [← filled_pop, ← ih]
    rfl

/-! ### Uses of a lookahead -/

/-- One thing that is done with a lookahead or with the producer behind it. -/
inductive Use where
  /-- Look at the item `n` places ahead of the next one. -/
  | peek (n : Nat)
  /-- Consume the next `n + 1` items. -/
  | skip (n : Nat)
  /-- Pull an item directly from the producer. -/
  | pull
  deriving DecidableEq, Repr

/-- Pulls an item directly from the producer behind the buffer. -/
def pull (q : Lookahead σ α) : α × Lookahead σ α :=
  ((next q.source).1, q.mapSource fun s => (next s).2)

/-- The lookahead after one use. -/
def use (q : Lookahead σ α) : Use → Lookahead σ α
  | .peek n => (q.peekNth n).2
  | .skip n => q.skipNth n
  | .pull => q.pull.2

/-- The item that one use shows, if it shows one. -/
def shown (q : Lookahead σ α) : Use → Option α
  | .peek n => some (q.peekNth n).1
  | .skip _ => none
  | .pull => some q.pull.1

/-- The lookahead after some uses. -/
def afterUses (q : Lookahead σ α) (uses : List Use) : Lookahead σ α :=
  uses.foldl use q

namespace Use

/-- How many items one use consumes. -/
def consumes : Use → Nat
  | .skip n => n + 1
  | .peek _ | .pull => 0

/-- How many items have to be there for one use. -/
def needs : Use → Nat
  | .peek n | .skip n => n + 1
  | .pull => 0

/-- How many items some uses consume together. -/
def total : List Use → Nat
  | [] => 0
  | use :: uses => use.consumes + total uses

theorem total_concat (uses : List Use) (use : Use) : total (uses ++ [use]) = total uses + use.consumes := by
  induction uses with
  | nil => exact Nat.add_comm _ _
  | cons first uses ih => rw [List.cons_append, total, ih, total, Nat.add_assoc]

end Use

/-! ### The view -/

/-- A sequence without the item at the place `i`; those behind it move up. -/
def without (i : Nat) (items : Nat → α) : Nat → α :=
  fun k => if k < i then items k else items (k + 1)

/-- What is to be seen of a sequence through a lookahead. -/
structure View (α : Type v) where
  /-- The item at each place. -/
  items : Nat → α
  /-- How many of the items were consumed. -/
  consumed : Nat := 0
  /-- How many of the items were produced. -/
  produced : Nat := 0
  /-- How many items were pulled directly, and are no longer part of the sequence. -/
  pulled : Nat := 0

namespace View

/-- The view after one use. -/
def use (v : View α) : Use → View α
  | .peek n => { v with produced := max v.produced (v.consumed + n + 1) }
  | .skip n =>
    { v with consumed := v.consumed + n + 1, produced := max v.produced (v.consumed + n + 1) }
  | .pull => { v with items := without v.produced v.items, pulled := v.pulled + 1 }

/-- The item that one use shows, if it shows one. -/
def shown (v : View α) : Use → Option α
  | .peek n => some (v.items (v.consumed + n))
  | .skip _ => none
  | .pull => some (v.items v.produced)

/-- The view after some uses. -/
def afterUses (v : View α) (uses : List Use) : View α :=
  uses.foldl use v

/-- The counts of the view are those of the uses made: what was consumed is their total, and what was
produced is the most that one of them has needed at its time. -/
structure Tallies (uses : List Use) (v : View α) : Prop where
  consumed : v.consumed = Use.total uses
  pulled : v.pulled = uses.count .pull
  needed : ∀ before use rest, uses = before ++ use :: rest → use ≠ .pull →
    Use.total before + use.needs ≤ v.produced
  reached : v.produced = 0 ∨ ∃ before use rest, uses = before ++ use :: rest ∧ use ≠ .pull ∧
    v.produced = Use.total before + use.needs

/-- A use that is not a pull produces what it needs, and no more. -/
theorem produced_use (v : View α) {use : Use} (h : use ≠ .pull) :
    (v.use use).produced = max v.produced (v.consumed + use.needs) := by
  cases use with
  | peek n => rfl
  | skip n => rfl
  | pull => exact absurd rfl h

theorem Tallies.use {uses : List Use} {v : View α} (h : v.Tallies uses) (use : Use) :
    (v.use use).Tallies (uses ++ [use]) := by
  -- a use in the longer list is the last one, or one of those before
  have hlast : ∀ before u rest, uses ++ [use] = before ++ u :: rest →
      before = uses ∧ u = use ∨ ∃ rest', uses = before ++ u :: rest' := by
    intro before u rest heq
    rcases List.eq_nil_or_concat rest with rfl | ⟨rest, last, rfl⟩
    · obtain ⟨hbefore, hu⟩ := List.append_inj' heq rfl
      exact .inl ⟨hbefore.symm, (List.cons.inj hu).1.symm⟩
    · have heq' : uses ++ [use] = (before ++ u :: rest) ++ [last] := by simpa using heq
      exact .inr ⟨rest, (List.append_inj' heq' rfl).1⟩
  have hgrows : v.produced ≤ (v.use use).produced := by
    cases use with
    | pull => exact Nat.le_refl _
    | _ => exact Nat.le_max_left _ _
  refine ⟨?_, ?_, ?_, ?_⟩
  · rw [Use.total_concat, ← h.consumed]
    cases use <;> rfl
  · rw [List.count_append, ← h.pulled]
    cases use <;> rfl
  · intro before u rest heq hu
    rcases hlast before u rest heq with ⟨rfl, rfl⟩ | ⟨rest', rfl⟩
    · rw [produced_use v hu, h.consumed]
      exact Nat.le_max_right _ _
    · exact Nat.le_trans (h.needed before u rest' rfl hu) hgrows
  · -- the most is reached by this use, or by an earlier one
    have hearlier : (v.use use).produced = v.produced → (v.use use).produced = 0 ∨
        ∃ before u rest, uses ++ [use] = before ++ u :: rest ∧ u ≠ .pull ∧
          (v.use use).produced = Use.total before + u.needs := by
      rintro heq
      rcases h.reached with hzero | ⟨before, u, rest, rfl, hu, hproduced⟩
      · exact .inl (heq.trans hzero)
      · exact .inr ⟨before, u, rest ++ [use], by simp, hu, heq.trans hproduced⟩
    by_cases hpull : use = .pull
    · subst hpull
      exact hearlier rfl
    · have hmax := produced_use v hpull
      rcases Nat.le_total (v.consumed + use.needs) v.produced with hle | hle
      · exact hearlier (hmax.trans (Nat.max_eq_left hle))
      · refine .inr ⟨uses, use, [], rfl, hpull, ?_⟩
        rw [hmax, Nat.max_eq_right hle, h.consumed]

theorem Tallies.afterUses (uses : List Use) : ∀ {done : List Use} {v : View α}, v.Tallies done →
    (v.afterUses uses).Tallies (done ++ uses) := by
  induction uses with
  | nil => exact fun h => (List.append_nil _).symm ▸ h
  | cons use uses ih =>
    intro done v h
    have hrest := ih (h.use use)
    rwa [List.append_assoc] at hrest

/-- Without a pull the sequence stays as it is. -/
theorem items_afterUses (uses : List Use) (h : .pull ∉ uses) : ∀ v : View α,
    (v.afterUses uses).items = v.items := by
  induction uses with
  | nil => exact fun _ => rfl
  | cons use uses ih =>
    intro v
    refine (ih (fun hmem => h (List.mem_cons_of_mem _ hmem)) (v.use use)).trans ?_
    cases use with
    | pull => exact absurd List.mem_cons_self h
    | _ => rfl

end View

/-! ### The lookahead and the view -/

/-- The view shows what the lookahead holds: the items that were produced and not consumed wait in their
order, and the producer goes on behind them. -/
structure Mirrors (s : σ) (v : View α) (q : Lookahead σ α) : Prop where
  consumed_le : v.consumed ≤ v.produced
  buffer : q.buffer = (List.range' v.consumed (v.produced - v.consumed)).map v.items
  source : q.source = after s (v.produced + v.pulled)
  ahead : ∀ k, v.items (v.produced + k) = item s (v.produced + v.pulled + k)

namespace Mirrors

variable {s : σ} {v : View α} {q : Lookahead σ α}

theorem filled (h : q.Mirrors s v) (n : Nat) :
    (q.filled n).Mirrors s { v with produced := max v.produced (v.consumed + n) } := by
  have hle := h.consumed_le
  have hlength : q.buffer.length = v.produced - v.consumed := by rw [h.buffer]; simp
  -- the buffer is filled up by as many items as it lacks
  have hfresh : max v.produced (v.consumed + n) = v.produced + (n - q.buffer.length) := by omega
  refine ⟨Nat.le_trans hle (Nat.le_max_left _ _), ?_, ?_, ?_⟩
  · have hnext : ∀ k, item q.source k = v.items (v.produced + k) := by
      intro k
      rw [h.source, item_after, h.ahead]
    have hsplit : max v.produced (v.consumed + n) - v.consumed =
        (v.produced - v.consumed) + (n - q.buffer.length) := by omega
    have hplace : v.consumed + (v.produced - v.consumed) = v.produced := by omega
    show q.buffer ++ (List.range (n - q.buffer.length)).map (item q.source) = _
    rw [hsplit, ← List.range'_append_1, hplace, List.map_append, ← h.buffer, funext hnext,
      List.range'_eq_map_range, List.map_map]
    rfl
  · show after q.source (n - q.buffer.length) = after s (max v.produced (v.consumed + n) + v.pulled)
    rw [h.source, after_after, hfresh]
    congr 1
    omega
  · intro k
    show v.items (max v.produced (v.consumed + n) + k) =
      item s (max v.produced (v.consumed + n) + v.pulled + k)
    rw [hfresh, Nat.add_assoc, h.ahead]
    congr 1
    omega

/-- Every use shows what the view shows. -/
theorem shown (h : q.Mirrors s v) (use : Use) : q.shown use = v.shown use := by
  cases use with
  | skip n => rfl
  | peek n =>
    have hitem := q.getElem?_peekNth n
    have hwaits : n < max v.produced (v.consumed + (n + 1)) - v.consumed := by omega
    rw [peekNth_eq_filled, (h.filled (n + 1)).buffer, List.getElem?_map, List.getElem?_range' hwaits]
      at hitem
    simpa [Lookahead.shown, View.shown] using hitem.symm
  | pull =>
    have hnext := h.ahead 0
    rw [Nat.add_zero, Nat.add_zero] at hnext
    show some (next q.source).1 = some (v.items v.produced)
    rw [h.source, hnext]
    rfl

/-- The view keeps up with every use. -/
theorem use (h : q.Mirrors s v) (use : Use) : (q.use use).Mirrors s (v.use use) := by
  have hle := h.consumed_le
  cases use with
  | peek n =>
    rw [Lookahead.use, peekNth_eq_filled]
    exact h.filled (n + 1)
  | skip n =>
    obtain ⟨-, hbuffer, hsource, hahead⟩ := h.filled (n + 1)
    rw [Lookahead.use, skipNth_eq_drop, peekNth_eq_filled]
    refine ⟨Nat.le_max_right _ _, ?_, hsource, hahead⟩
    show (q.filled (n + 1)).buffer.drop (n + 1) = _
    rw [hbuffer, ← List.map_drop, List.drop_range']
    show List.map v.items _ = List.map v.items _
    congr 1
    simp only [View.use]
    congr 1 <;> omega
  | pull =>
    refine ⟨hle, ?_, ?_, ?_⟩
    · show q.buffer = _
      rw [h.buffer]
      -- what waits was produced before, so the item pulled now is not among it
      refine List.map_congr_left fun k hk => ?_
      have hlt : k < v.produced := by
        have := List.mem_range'_1.1 hk
        omega
      simp [View.use, without, hlt]
    · show (next q.source).2 = _
      rw [h.source]
      rfl
    · intro k
      show without v.produced v.items (v.produced + k) = item s (v.produced + (v.pulled + 1) + k)
      have hnot : ¬ v.produced + k < v.produced := by omega
      rw [without, if_neg hnot, Nat.add_assoc, h.ahead]
      congr 1
      omega

theorem afterUses (uses : List Use) : ∀ {v : View α} {q : Lookahead σ α}, q.Mirrors s v →
    (q.afterUses uses).Mirrors s (v.afterUses uses) := by
  induction uses with
  | nil => exact fun h => h
  | cons use uses ih => exact fun h => ih (h.use use)

end Mirrors

theorem mirrors_ofSource (s : σ) : (ofSource s : Lookahead σ α).Mirrors s { items := item s } :=
  ⟨Nat.le_refl _, rfl, rfl, fun _ => congrArg (item s) (by simp)⟩

/-- The lookahead is a cursor in the sequence of `s`, after these uses and with this view of it. -/
structure Refines (s : σ) (uses : List Use) (v : View α) (q : Lookahead σ α) : Prop where
  /-- What was consumed is the total of the uses, and what was produced is the most that one of them has
  needed at its time. -/
  tallies : v.Tallies uses
  /-- Unless items are pulled directly, the sequence is that of the producer. -/
  items : .pull ∉ uses → v.items = item s
  /-- The next use shows the item at its place. -/
  shown : ∀ use, q.shown use = v.shown use
  /-- What was produced and not consumed waits, in its order. -/
  buffer : q.buffer = (List.range' v.consumed (v.produced - v.consumed)).map v.items
  buffered : q.buffered = v.produced - v.consumed
  /-- A direct pull leaves alone what waits. -/
  buffer_pull : q.pull.2.buffer = q.buffer
  /-- The producer was asked for the items that were produced and those that were pulled, once for each and
  for no other. -/
  given : (ofSource { source := s } : Lookahead (Logged σ α) α).afterUses uses =
    ⟨q.buffer, q.source, (List.range (v.produced + v.pulled)).map (item s)⟩

/-- However a lookahead is used, it is a cursor in the sequence that its producer gives out by itself, less
the items that are pulled directly from the producer. -/
theorem lookahead_refines_cursor (s : σ) (uses : List Use) :
    ((ofSource s : Lookahead σ α).afterUses uses).Refines s uses
      (({ items := item s } : View α).afterUses uses) := by
  have hmirrors := (mirrors_ofSource s).afterUses uses
  -- a producer that keeps a list gives out the same items, so its list tells what was asked for
  have hlogged := (mirrors_ofSource (⟨s, []⟩ : Logged σ α)).afterUses uses
  have hitems : item (⟨s, []⟩ : Logged σ α) = item s := funext (Logged.item_eq s)
  rw [hitems] at hlogged
  refine ⟨?_, fun h => View.items_afterUses uses h _, hmirrors.shown, hmirrors.buffer, ?_, rfl, ?_⟩
  · refine @View.Tallies.afterUses α uses [] _ ⟨rfl, rfl, ?_, .inl rfl⟩
    intro before use rest heq
    exact absurd heq.symm (by simp)
  · rw [buffered, hmirrors.buffer]
    simp
  · rcases hq : (ofSource { source := s } : Lookahead (Logged σ α) α).afterUses uses with ⟨buffer, source⟩
    rw [hq] at hlogged
    rw [hmirrors.buffer, hmirrors.source, ← Logged.after_eq, ← hlogged.source, ← hlogged.buffer]

/-- Between a far look and a nearer one an item is consumed; then one is pulled directly. -/
theorem lookahead_refines_cursor_of_text :
    .pull ∉ [Use.peek 2, .skip 0] ∧
    (({ items := item "abcde".toList } : View (Option Char)).afterUses [.peek 2, .skip 0]).items =
      item "abcde".toList ∧
    ((ofSource "abcde".toList).afterUses [.peek 2, .skip 0]).shown (.peek 1) = some (some 'c') ∧
    ((ofSource "abcde".toList).afterUses [.peek 2, .skip 0, .pull]).shown (.peek 2) = some (some 'e') ∧
    ((ofSource "abcde".toList).afterUses [.peek 2, .skip 0, .pull]).buffered = 2 := by
  have hnone : .pull ∉ [Use.peek 2, .skip 0] := by decide
  have hbefore := lookahead_refines_cursor "abcde".toList [.peek 2, .skip 0]
  have hbehind := lookahead_refines_cursor "abcde".toList [.peek 2, .skip 0, .pull]
  refine ⟨hnone, hbefore.items hnone, (hbefore.shown (.peek 1)).trans ?_,
    (hbehind.shown (.peek 2)).trans ?_, hbehind.buffered.trans ?_⟩ <;> decide

end Lookahead

end SwiftDialect
