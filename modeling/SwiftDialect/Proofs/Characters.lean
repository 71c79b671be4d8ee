import SwiftDialect.Source
import SwiftDialect.Proofs.Stream

/-!
# The text that a lookahead spells

A lookahead on characters is seen through its *text*, the characters before the next `none`. Every
lookahead spells exactly one text, whatever its source, and reading runs of characters is
`takeWhile` and `dropWhile` on it.
-/

namespace SwiftDialect.Lookahead

universe u

variable {σ : Type u} [CharSource σ] {q : Lookahead σ (Option Char)}

/-- The characters to come are these, and then the end. -/
def Spells (q : Lookahead σ (Option Char)) (cs : List Char) : Prop :=
  q.Yields (cs.map some ++ [none])

theorem spells_nil : q.Spells [] ↔ q.pop.1 = none := by
  simp [Spells, Yields]

theorem spells_cons {c : Char} {cs : List Char} :
    q.Spells (c :: cs) ↔ q.pop.1 = some c ∧ q.pop.2.Spells cs :=
  Iff.rfl

theorem pop_fst_of_spells {cs : List Char} (h : q.Spells cs) : q.pop.1 = cs.head? := by
  cases cs with
  | nil => exact spells_nil.1 h
  | cons c cs => exact h.1

/-- Every lookahead spells a text, because its source gives out finitely many characters. -/
theorem exists_spells (q : Lookahead σ (Option Char)) : ∃ cs, q.Spells cs := by
  cases h : q.pop.1 with
  | none => exact ⟨[], spells_nil.2 h⟩
  | some c =>
    have := charsLeft_pop_lt h
    obtain ⟨cs, hcs⟩ := exists_spells q.pop.2
    exact ⟨c :: cs, spells_cons.2 ⟨h, hcs⟩⟩
termination_by q.charsLeft

theorem Spells.unique {cs ds : List Char} (h : q.Spells cs) (h' : q.Spells ds) : cs = ds := by
  induction cs generalizing q ds with
  | nil =>
    have := (pop_fst_of_spells h).symm.trans (pop_fst_of_spells h')
    cases ds with
    | nil => rfl
    | cons d ds => cases this
  | cons c cs ih =>
    have := (pop_fst_of_spells h).symm.trans (pop_fst_of_spells h')
    cases ds with
    | nil => cases this
    | cons d ds =>
      obtain rfl : c = d := by simpa using this
      rw [ih h.2 h'.2]

/-! ### Putting characters back -/

theorem spells_unread_none (q : Lookahead σ (Option Char)) : (q.unread none).Spells [] :=
  spells_nil.2 rfl

theorem Spells.unread {cs : List Char} (h : q.Spells cs) (c : Char) :
    (q.unread (some c)).Spells (c :: cs) :=
  spells_cons.2 ⟨rfl, h⟩

/-- Putting back what was just taken leaves the text as it was. -/
theorem Spells.unread_pop {cs : List Char} (h : q.Spells cs) :
    (q.pop.2.unread q.pop.1).Spells cs := by
  cases cs with
  | nil =>
    rw [spells_nil.1 h]
    exact spells_unread_none _
  | cons c cs =>
    obtain ⟨hc, hcs⟩ := spells_cons.1 h
    rw [hc]
    exact hcs.unread c

/-! ### Runs of characters -/

/-- Reading a run of characters splits the text where the test first fails. -/
theorem Spells.takeWhile (test : Char → Bool) {cs : List Char} (h : q.Spells cs) :
    (q.takeWhile test).1 = cs.takeWhile test ∧
      (q.takeWhile test).2.Spells (cs.dropWhile test) := by
  induction cs generalizing q with
  | nil =>
    rw [Lookahead.takeWhile]
    split
    · exact ⟨rfl, spells_unread_none _⟩
    · next c hc => rw [spells_nil.1 h] at hc; cases hc
  | cons c cs ih =>
    obtain ⟨hc, hcs⟩ := spells_cons.1 h
    rw [Lookahead.takeWhile]
    split
    · next hn => rw [hc] at hn; cases hn
    · next c' hc' =>
      obtain rfl : c = c' := by simpa using hc.symm.trans hc'
      -- a character that fails the test is put back, and stays ahead
      by_cases ht : test c
      · simpa [ht] using ih hcs
      · simpa [ht] using hcs.unread c

/-- Trying for a character takes it off the text if it comes first. -/
theorem Spells.eat (c : Char) {cs : List Char} (h : q.Spells cs) :
    (q.eat c).1 = (cs.head? == some c) ∧
      (q.eat c).2.Spells (if cs.head? = some c then cs.tail else cs) := by
  rw [Lookahead.eat, pop_fst_of_spells h]
  by_cases hc : cs.head? = some c
  · obtain ⟨ds, rfl⟩ : ∃ ds, cs = c :: ds := by
      cases cs with
      | nil => cases hc
      | cons d ds => exact ⟨ds, by simpa using hc⟩
    simpa using (spells_cons.1 h).2
  · have := h.unread_pop
    rw [pop_fst_of_spells h] at this
    simpa [hc] using this

/-- The text in memory is the one that is spelled. -/
theorem spells_text (cs : List Char) : (ofSource cs : Lookahead (List Char) (Option Char)).Spells cs := by
  induction cs with
  | nil => exact spells_nil.2 rfl
  | cons c cs ih => exact spells_cons.2 ⟨rfl, ih⟩

end SwiftDialect.Lookahead
