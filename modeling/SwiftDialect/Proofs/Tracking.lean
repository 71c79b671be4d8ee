import SwiftDialect.Proofs.Stream

/-!
# The sequence behind a lookahead

A producer that is asked again and again gives out one sequence of items. A lookahead on it *tracks* that
sequence: some of the items have been consumed, the next ones wait in the buffer in their order, and the
producer has been asked exactly once for each of these.

Main statements: looking ahead shows the item that the sequence has at that place (`Tracks.peekNth`), and
consuming items moves on in it (`Tracks.skipNth`).
-/

namespace SwiftDialect

universe u v

variable {σ : Type u} {α : Type v} [Producer σ α]

namespace Producer

/-- The producer after it has been asked `n` times. -/
def after (s : σ) : Nat → σ
  | 0 => s
  | n + 1 => (next (after s n)).2

/-- The item that is given out after `n` others. -/
def item (s : σ) (n : Nat) : α :=
  (next (after s n)).1

end Producer

namespace Lookahead

open Producer

/-- So many items of the sequence have been consumed, and so many more wait in the buffer. -/
structure Tracks (s : σ) (consumed waiting : Nat) (q : Lookahead σ α) : Prop where
  buffer : q.buffer = (List.range' consumed waiting).map (item s)
  source : q.source = after s (consumed + waiting)

variable {s : σ} {consumed waiting : Nat} {q : Lookahead σ α}

theorem tracks_ofSource (s : σ) : (ofSource s : Lookahead σ α).Tracks s 0 0 :=
  ⟨rfl, rfl⟩

/-- The next item is consumed; if none waits, the producer is asked for it. -/
theorem Tracks.pop (h : q.Tracks s consumed waiting) :
    q.pop.1 = item s consumed ∧ q.pop.2.Tracks s (consumed + 1) (waiting - 1) := by
  obtain ⟨buffer, source⟩ := q
  obtain ⟨hbuffer, hsource⟩ := h
  dsimp only at hbuffer hsource
  subst hbuffer hsource
  cases waiting with
  | zero => exact ⟨rfl, rfl, rfl⟩
  | succ waiting =>
    refine ⟨rfl, rfl, ?_⟩
    show after s (consumed + (waiting + 1)) = after s (consumed + 1 + waiting)
    rw [Nat.add_assoc, Nat.add_comm 1]

theorem Tracks.unread (h : q.Tracks s (consumed + 1) waiting) :
    (q.unread (item s consumed)).Tracks s consumed (waiting + 1) := by
  refine ⟨congrArg (item s consumed :: ·) h.buffer, h.source.trans ?_⟩
  rw [Nat.add_assoc, Nat.add_comm 1]

/-- Looking ahead shows the item at that place, and then it waits. -/
theorem Tracks.peekNth (n : Nat) : ∀ {consumed waiting : Nat} {q : Lookahead σ α},
    q.Tracks s consumed waiting → (q.peekNth n).1 = item s (consumed + n) ∧
      (q.peekNth n).2.Tracks s consumed (max waiting (n + 1)) := by
  induction n with
  | zero =>
    intro consumed waiting q h
    obtain ⟨hitem, hpop⟩ := h.pop
    have hback := hpop.unread
    rw [← hitem, show waiting - 1 + 1 = max waiting (0 + 1) by omega] at hback
    exact ⟨hitem, hback⟩
  | succ n ih =>
    intro consumed waiting q h
    obtain ⟨hitem, hpop⟩ := h.pop
    obtain ⟨hahead, hrest⟩ := ih hpop
    have hback := hrest.unread
    rw [← hitem, show max (waiting - 1) (n + 1) + 1 = max waiting (n + 1 + 1) by omega] at hback
    refine ⟨hahead.trans ?_, hback⟩
    rw [Nat.add_assoc, Nat.add_comm 1]

/-- Consuming items moves on in the sequence. -/
theorem Tracks.skipNth (n : Nat) : ∀ {consumed waiting : Nat} {q : Lookahead σ α},
    q.Tracks s consumed waiting →
      (q.skipNth n).Tracks s (consumed + (n + 1)) (waiting - (n + 1)) := by
  induction n with
  | zero => exact fun h => h.pop.2
  | succ n ih =>
    intro consumed waiting q h
    have hrest := ih h.pop.2
    rwa [show consumed + 1 + (n + 1) = consumed + (n + 1 + 1) by omega,
      show waiting - 1 - (n + 1) = waiting - (n + 1 + 1) by omega] at hrest

/-- The items to come are those of the sequence. -/
theorem Tracks.yields (n : Nat) : ∀ {consumed waiting : Nat} {q : Lookahead σ α},
    q.Tracks s consumed waiting → q.Yields ((List.range' consumed n).map (item s)) := by
  induction n with
  | zero => exact fun _ => trivial
  | succ n ih => exact fun h => ⟨h.pop.1, ih h.pop.2⟩

/-- Whatever comes next are items of the sequence. -/
theorem Tracks.eq_of_yields (h : q.Tracks s consumed waiting) {as : List α} (hy : q.Yields as) :
    as = (List.range' consumed as.length).map (item s) := by
  have hlength : as.length = ((List.range' consumed as.length).map (item s)).length := by simp
  have htake := hy.eq_take (h.yields as.length) (Nat.le_of_eq hlength)
  rwa [List.take_of_length_le (Nat.le_of_eq hlength.symm)] at htake

theorem Tracks.getElem?_of_yields (h : q.Tracks s consumed waiting) {as : List α} (hy : q.Yields as)
    {k : Nat} (hk : k < as.length) : as[k]? = some (item s (consumed + k)) := by
  rw [h.eq_of_yields hy]
  simp [hk]

end Lookahead

end SwiftDialect
