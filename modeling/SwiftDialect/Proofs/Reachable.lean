import SwiftDialect.Proofs.Scanning

/-!
# The states of a scanner

Whatever a scanner does is made of a few operations: it takes characters and puts them back, asks for the
location of the next character, moves on by some columns or to the next line, and enters events into its
journal. What each of these operations keeps is kept by every step, every scan and every run.

Main statement: a token is scanned by these operations, and the only events on the way to it are reports of
problems (`reaches_scan`).
-/

namespace SwiftDialect

universe u v

/-- What taking items and putting some back can make of a lookahead. -/
inductive Lookahead.Reaches {σ : Type u} {α : Type v} [Producer σ α] (q : Lookahead σ α) :
    Lookahead σ α → Prop
  | refl : Reaches q q
  | pop {q' : Lookahead σ α} : Reaches q q' → Reaches q q'.pop.2
  | unread (a : α) {q' : Lookahead σ α} : Reaches q q' → Reaches q (q'.unread a)

/-- What a producer keeps whenever it is asked is kept. -/
theorem Lookahead.Reaches.kept {σ : Type u} {α : Type v} [Producer σ α] {q q' : Lookahead σ α}
    {P : σ → Prop} (hP : ∀ x, P x → P (Producer.next x).2) (h : q.Reaches q') (hq : P q.source) :
    P q'.source := by
  induction h with
  | refl => exact hq
  | @pop q' _ ih =>
    obtain ⟨buffer, source⟩ := q'
    cases buffer with
    | nil => exact hP source ih
    | cons a rest => exact ih
  | unread a _ ih => exact ih

namespace Lookahead

variable {σ : Type u} [CharSource σ]

theorem reaches_takeWhile (test : Char → Bool) {q q' : Lookahead σ (Option Char)}
    (h : q.Reaches q') : q.Reaches (q'.takeWhile test).2 := by
  fun_induction takeWhile test q' with
  | case1 q' _ => exact h.pop.unread none
  | case2 q' c _ _ _ taken rest heq ih =>
    rw [heq] at ih
    exact ih h.pop
  | case3 q' c _ _ _ => exact h.pop.unread (some c)

theorem reaches_eat (c : Char) {q q' : Lookahead σ (Option Char)} (h : q.Reaches q') :
    q.Reaches (q'.eat c).2 := by
  unfold eat
  split
  · exact h.pop
  · exact h.pop.unread _

end Lookahead

/-- The report of a problem at some place. -/
def Event.IsReport (e : Event) : Prop :=
  ∃ (problem : Problem) (place : Location), e = .reported (problem.diagnose place)

/-- An event that reports a problem, if it reports anything. -/
def Event.Proper (e : Event) : Prop :=
  e.IsReport ∨ e.diagnostic? = none

/-- What the operations of a scanner can make of it, if the events are such as `E` allows. -/
inductive Scanner.Reaches {σ : Type u} [CharSource σ] (E : Event → Prop) (s : Scanner σ) :
    Scanner σ → Prop
  | refl : Reaches E s s
  | chars {s' : Scanner σ} {q : Lookahead σ (Option Char)} :
      Reaches E s s' → s'.chars.Reaches q → Reaches E s { s' with chars := q }
  | here {s' : Scanner σ} : Reaches E s s' → Reaches E s s'.here.2
  | advance (n : Nat) {s' : Scanner σ} : Reaches E s s' → Reaches E s (s'.advance n)
  | newLine {s' : Scanner σ} : Reaches E s s' → Reaches E s s'.newLine
  | record {e : Event} (he : E e) {s' : Scanner σ} : Reaches E s s' → Reaches E s (s'.record e)

namespace Scanner

variable {σ : Type u} [CharSource σ] {E E' : Event → Prop} {s s' s'' : Scanner σ}

theorem Reaches.trans (h : s.Reaches E s') (h' : s'.Reaches E s'') : s.Reaches E s'' := by
  induction h' with
  | refl => exact h
  | chars _ hq ih => exact ih.chars hq
  | here _ ih => exact ih.here
  | advance n _ ih => exact ih.advance n
  | newLine _ ih => exact ih.newLine
  | record he _ ih => exact ih.record he

theorem Reaches.mono (hE : ∀ e, E e → E' e) (h : s.Reaches E s') : s.Reaches E' s' := by
  induction h with
  | refl => exact .refl
  | chars _ hq ih => exact ih.chars hq
  | here _ ih => exact ih.here
  | advance n _ ih => exact ih.advance n
  | newLine _ ih => exact ih.newLine
  | record he _ ih => exact ih.record (hE _ he)

/-- What the source keeps whenever it is asked for a character is kept. -/
theorem Reaches.kept {P : σ → Prop} (hP : ∀ x, P x → P (Producer.next x).2) (h : s.Reaches E s')
    (hs : P s.chars.source) : P s'.chars.source := by
  induction h with
  | refl => exact hs
  | chars _ hq ih => exact hq.kept hP ih
  | here _ ih => exact ih
  | advance n _ ih => exact ih
  | newLine _ ih => exact ih
  | record he _ ih => exact ih

/-! ### The parts of a step -/

theorem reaches_number (c : Char) (l : Location) (h : s.Reaches E s') :
    s.Reaches E (s'.number c l).2 := by
  have hdigits := Lookahead.reaches_takeWhile Char.isDigit (.refl (q := s'.chars))
  by_cases hc : c = '.'
  · simp only [number, hc, if_true, Bool.false_eq_true, if_false]
    exact (h.chars hdigits).advance _
  · have hpoint := Lookahead.reaches_eat '.' hdigits
    simp only [number, hc, if_false]
    split
    · exact (h.chars (Lookahead.reaches_takeWhile Char.isDigit hpoint)).advance _
    · exact (h.chars hpoint).advance _

theorem reaches_string (l : Location) (h : s.Reaches Event.IsReport s') :
    s.Reaches Event.IsReport (s'.string l).2 := by
  have hquote := Lookahead.reaches_eat '"'
    (Lookahead.reaches_takeWhile (fun c => c != '"' && c != '\n') (.refl (q := s'.chars)))
  unfold string
  dsimp only
  split
  · exact (h.chars hquote).advance _
  · exact ((h.chars hquote).advance _).here.record ⟨_, _, rfl⟩

theorem reaches_stepFrom (c : Char) (l : Location) (h : s.Reaches Event.IsReport s') :
    s.Reaches Event.IsReport (s'.stepFrom c l).2 := by
  unfold stepFrom
  split
  · exact h.newLine
  · exact h.advance 1
  · exact h.advance _
  · exact (h.chars (Lookahead.reaches_takeWhile _ .refl)).advance _
  · exact reaches_string l h
  · exact (h.chars (Lookahead.reaches_takeWhile _ .refl)).advance _
  · exact reaches_number c l h
  · exact h.advance 1
  · have heat := Lookahead.reaches_eat '=' (.refl (q := s'.chars))
    split
    · next heq =>
      rw [heq] at heat
      exact (h.chars heat).advance 2
    · next heq =>
      rw [heq] at heat
      split
      · exact (h.chars heat).advance 1
      · exact ((h.chars heat).advance 1).record ⟨_, _, rfl⟩
  · exact (h.record ⟨_, _, rfl⟩).advance 1

/-- A step enters nothing into the journal but reports. -/
theorem reaches_step (s : Scanner σ) : s.Reaches Event.IsReport s.step.2 := by
  have hpop := (Lookahead.Reaches.refl (q := s.here.2.chars)).pop
  unfold step
  split
  · next heq =>
    have hchars : s.here.2.chars.pop = s.chars.pop := rfl
    rw [hchars, heq] at hpop
    exact (Reaches.refl.here).chars (hpop.unread none)
  · next heq =>
    have hchars : s.here.2.chars.pop = s.chars.pop := rfl
    rw [hchars, heq] at hpop
    exact reaches_stepFrom _ _ ((Reaches.refl.here).chars hpop)

/-! ### Scans -/

/-- On the way to a token nothing is entered into the journal but reports. -/
theorem reaches_scan (s : Scanner σ) : s.Reaches Event.IsReport s.scan.2 := by
  obtain ⟨s', hs', -, heq⟩ := exists_last_step (P := s.Reaches Event.IsReport)
    (fun s' hs' _ => hs'.trans s'.reaches_step) s .refl
  rw [heq]
  exact hs'.trans s'.reaches_step

theorem reaches_next (s : Scanner σ) : s.Reaches Event.Proper (Producer.next s).2 :=
  (s.reaches_scan.mono fun _ he => .inl he).record (.inr rfl)

end Scanner

end SwiftDialect
