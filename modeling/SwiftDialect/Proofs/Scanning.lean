import SwiftDialect.Lexer
import SwiftDialect.Proofs.Characters
import SwiftDialect.Proofs.Moves

/-!
# What a scan depends on

Two scanners are *alike* if the same text lies before them, whatever their sources, and they agree on
everything else except for what stood in their journals before. Alike scanners stay alike and produce
the same tokens. It follows that a scanner is a lawful source of tokens.
-/

namespace SwiftDialect

universe u v

/-- Enters events one after the other. -/
def Journal.recordAll (j : Journal) (es : List Event) : Journal :=
  es.foldl Journal.record j

theorem Journal.diagnostics_record (j : Journal) (e : Event) :
    (j.record e).diagnostics = j.diagnostics ++ e.diagnostic?.toList := by
  cases h : e.diagnostic? <;> simp [diagnostics, record, h]

theorem Journal.diagnostics_recordAll (es : List Event) : ∀ j : Journal,
    (j.recordAll es).diagnostics = j.diagnostics ++ es.filterMap Event.diagnostic? := by
  induction es with
  | nil => exact fun j => (List.append_nil _).symm
  | cons e es ih =>
    intro j
    rw [recordAll, List.foldl_cons, ← recordAll, ih, diagnostics_record, List.append_assoc,
      List.filterMap_cons]
    cases e.diagnostic? <;> rfl

namespace Scanner

/-- The same text lies before the two scanners, and since their journals were `j₁` and `j₂` the same
has happened to both. -/
structure Alike {σ : Type u} {σ' : Type v} [CharSource σ] [CharSource σ'] (j₁ j₂ : Journal)
    (s₁ : Scanner σ) (s₂ : Scanner σ') : Prop where
  chars : ∃ cs, s₁.chars.Spells cs ∧ s₂.chars.Spells cs
  events : ∃ es, s₁.journal = j₁.recordAll es ∧ s₂.journal = j₂.recordAll es
  lines : s₁.lines = s₂.lines
  line : s₁.line = s₂.line
  column : s₁.column = s₂.column
  tabWidth : s₁.tabWidth = s₂.tabWidth

variable {σ : Type u} {σ' : Type v} [CharSource σ] [CharSource σ'] {j₁ j₂ : Journal}
  {s₁ : Scanner σ} {s₂ : Scanner σ'}

namespace Alike

/-! ### Changes that keep scanners alike -/

theorem record (h : Alike j₁ j₂ s₁ s₂) (e : Event) : Alike j₁ j₂ (s₁.record e) (s₂.record e) := by
  obtain ⟨es, h₁, h₂⟩ := h.events
  refine ⟨h.chars, ⟨es ++ [e], ?_, ?_⟩, h.lines, h.line, h.column, h.tabWidth⟩
  · simp [Scanner.record, h₁, Journal.recordAll]
  · simp [Scanner.record, h₂, Journal.recordAll]

theorem advance (h : Alike j₁ j₂ s₁ s₂) (n : Nat) : Alike j₁ j₂ (s₁.advance n) (s₂.advance n) :=
  ⟨h.chars, h.events, h.lines, h.line, congrArg (stickyAdd · n) h.column, h.tabWidth⟩

theorem newLine (h : Alike j₁ j₂ s₁ s₂) : Alike j₁ j₂ s₁.newLine s₂.newLine := by
  refine ⟨h.chars, h.events, ?_, ?_, rfl, h.tabWidth⟩
  · simp [Scanner.newLine, h.lines, h.line]
  · simp [Scanner.newLine, h.line]

theorem here_fst (h : Alike j₁ j₂ s₁ s₂) : s₁.here.1 = s₂.here.1 := by
  simp [Scanner.here, h.lines, h.column]

theorem here (h : Alike j₁ j₂ s₁ s₂) : Alike j₁ j₂ s₁.here.2 s₂.here.2 := by
  refine ⟨h.chars, h.events, ?_, h.line, h.column, h.tabWidth⟩
  simp [Scanner.here, h.lines, h.column]

/-- Other characters come next. -/
theorem withChars (h : Alike j₁ j₂ s₁ s₂) {q₁ : Lookahead σ (Option Char)}
    {q₂ : Lookahead σ' (Option Char)} {cs : List Char} (h₁ : q₁.Spells cs) (h₂ : q₂.Spells cs) :
    Alike j₁ j₂ { s₁ with chars := q₁ } { s₂ with chars := q₂ } :=
  ⟨⟨cs, h₁, h₂⟩, h.events, h.lines, h.line, h.column, h.tabWidth⟩

/-! ### The parts of a step -/

theorem comment (h : Alike j₁ j₂ s₁ s₂) : Alike j₁ j₂ s₁.comment s₂.comment := by
  obtain ⟨cs, h₁, h₂⟩ := h.chars
  obtain ⟨t₁, d₁⟩ := h₁.takeWhile (· != '\n')
  obtain ⟨t₂, d₂⟩ := h₂.takeWhile (· != '\n')
  simp only [Scanner.comment, t₁, t₂]
  exact (h.withChars d₁ d₂).advance _

theorem identifier (h : Alike j₁ j₂ s₁ s₂) (c : Char) (l : Location) :
    (s₁.identifier c l).1 = (s₂.identifier c l).1 ∧
      Alike j₁ j₂ (s₁.identifier c l).2 (s₂.identifier c l).2 := by
  obtain ⟨cs, h₁, h₂⟩ := h.chars
  obtain ⟨t₁, d₁⟩ := h₁.takeWhile isIdentifierRest
  obtain ⟨t₂, d₂⟩ := h₂.takeWhile isIdentifierRest
  simp only [Scanner.identifier, t₁, t₂]
  exact ⟨trivial, (h.withChars d₁ d₂).advance _⟩

theorem number (h : Alike j₁ j₂ s₁ s₂) (c : Char) (l : Location) :
    (s₁.number c l).1 = (s₂.number c l).1 ∧
      Alike j₁ j₂ (s₁.number c l).2 (s₂.number c l).2 := by
  obtain ⟨cs, h₁, h₂⟩ := h.chars
  obtain ⟨t₁, d₁⟩ := h₁.takeWhile Char.isDigit
  obtain ⟨t₂, d₂⟩ := h₂.takeWhile Char.isDigit
  by_cases hc : c = '.'
  · simp only [Scanner.number, hc, t₁, t₂, if_true, Bool.false_eq_true, if_false]
    exact ⟨trivial, (h.withChars d₁ d₂).advance _⟩
  -- a second run of digits follows only if the first one ended at a point
  obtain ⟨e₁, r₁⟩ := d₁.eat '.'
  obtain ⟨e₂, r₂⟩ := d₂.eat '.'
  obtain ⟨t₁', d₁'⟩ := r₁.takeWhile Char.isDigit
  obtain ⟨t₂', d₂'⟩ := r₂.takeWhile Char.isDigit
  simp only [Scanner.number, hc, t₁, t₂, e₁, e₂, if_false]
  split
  · simp only [t₁', t₂']
    exact ⟨trivial, (h.withChars d₁' d₂').advance _⟩
  · exact ⟨rfl, (h.withChars r₁ r₂).advance _⟩

theorem string (h : Alike j₁ j₂ s₁ s₂) (l : Location) :
    (s₁.string l).1 = (s₂.string l).1 ∧ Alike j₁ j₂ (s₁.string l).2 (s₂.string l).2 := by
  obtain ⟨cs, h₁, h₂⟩ := h.chars
  obtain ⟨t₁, d₁⟩ := h₁.takeWhile fun c => c != '"' && c != '\n'
  obtain ⟨t₂, d₂⟩ := h₂.takeWhile fun c => c != '"' && c != '\n'
  obtain ⟨e₁, r₁⟩ := d₁.eat '"'
  obtain ⟨e₂, r₂⟩ := d₂.eat '"'
  simp only [Scanner.string, t₁, t₂, e₁, e₂]
  split
  · exact ⟨rfl, (h.withChars r₁ r₂).advance _⟩
  · -- the report asks for the place behind the text, which is the same in both
    have hcut := (h.withChars r₁ r₂).advance
      (1 + (cs.takeWhile fun c => c != '"' && c != '\n').length)
    refine ⟨rfl, ?_⟩
    rw [Scanner.report, Scanner.report, hcut.here_fst]
    exact hcut.here.record _

theorem stepFrom (h : Alike j₁ j₂ s₁ s₂) (c : Char) (l : Location) :
    (s₁.stepFrom c l).1 = (s₂.stepFrom c l).1 ∧
      Alike j₁ j₂ (s₁.stepFrom c l).2 (s₂.stepFrom c l).2 := by
  unfold Scanner.stepFrom
  split
  · exact ⟨rfl, h.newLine⟩
  · exact ⟨rfl, h.advance 1⟩
  · rw [h.tabWidth]
    exact ⟨rfl, h.advance _⟩
  · exact ⟨rfl, h.comment⟩
  · exact ⟨congrArg some (h.string l).1, (h.string l).2⟩
  · exact ⟨congrArg some (h.identifier c l).1, (h.identifier c l).2⟩
  · exact ⟨congrArg some (h.number c l).1, (h.number c l).2⟩
  · exact ⟨rfl, h.advance 1⟩
  · next alone withEqual _ =>
    obtain ⟨cs, h₁, h₂⟩ := h.chars
    obtain ⟨e₁, r₁⟩ := h₁.eat '='
    obtain ⟨e₂, r₂⟩ := h₂.eat '='
    have hkeep := h.withChars r₁ r₂
    rw [← Prod.eta (s₁.chars.eat '='), ← Prod.eta (s₂.chars.eat '='), e₁, e₂]
    cases cs.head? == some '='
    · cases alone with
      | none => exact ⟨rfl, (hkeep.advance 1).record _⟩
      | some kind => exact ⟨rfl, hkeep.advance 1⟩
    · exact ⟨rfl, hkeep.advance 2⟩
  · exact ⟨rfl, (h.record _).advance 1⟩

theorem step (h : Alike j₁ j₂ s₁ s₂) :
    s₁.step.1 = s₂.step.1 ∧ Alike j₁ j₂ s₁.step.2 s₂.step.2 := by
  obtain ⟨cs, h₁, h₂⟩ := h.chars
  have p₁ := Lookahead.pop_fst_of_spells h₁
  have p₂ := Lookahead.pop_fst_of_spells h₂
  simp only [Scanner.step]
  rw [← Prod.eta s₁.chars.pop, ← Prod.eta s₂.chars.pop, p₁, p₂]
  cases cs with
  | nil =>
    simp only [List.head?_nil, h.here_fst]
    exact ⟨trivial, h.here.withChars (Lookahead.spells_unread_none _)
      (Lookahead.spells_unread_none _)⟩
  | cons c cs =>
    simp only [List.head?_cons, h.here_fst]
    exact (h.here.withChars h₁.2 h₂.2).stepFrom c _

end Alike

/-! ### Scans -/

theorem scan_of_some {s : Scanner σ} {t : Token} (h : s.step.1 = some t) : s.scan = (t, s.step.2) := by
  rw [scan]
  split
  · next t' ht =>
    rw [h, Option.some.injEq] at ht
    rw [ht]
  · next hn => rw [h] at hn; cases hn

theorem scan_of_none {s : Scanner σ} (h : s.step.1 = none) : s.scan = s.step.2.scan := by
  rw [scan]
  split
  · next t ht => rw [h] at ht; cases ht
  · rfl

/-- What every step that passes something over keeps holds before the step that yields the token. -/
theorem exists_last_step {P : Scanner σ → Prop} (hP : ∀ s, P s → s.step.1 = none → P s.step.2)
    (s : Scanner σ) (h : P s) : ∃ s', P s' ∧ s'.step.1 = some s.scan.1 ∧ s.scan.2 = s'.step.2 := by
  cases hs : s.step.1 with
  | some t =>
    rw [scan_of_some hs]
    exact ⟨s, h, hs, rfl⟩
  | none =>
    have := charsLeft_step_lt hs
    rw [scan_of_none hs]
    exact exists_last_step hP s.step.2 (hP s h hs)
termination_by s.chars.charsLeft

theorem Alike.scan {s₁ : Scanner σ} {s₂ : Scanner σ'} (h : Alike j₁ j₂ s₁ s₂) :
    s₁.scan.1 = s₂.scan.1 ∧ Alike j₁ j₂ s₁.scan.2 s₂.scan.2 := by
  obtain ⟨heq, hstep⟩ := h.step
  cases hs : s₁.step.1 with
  | some t =>
    rw [scan_of_some hs, scan_of_some (heq.symm.trans hs)]
    exact ⟨rfl, hstep⟩
  | none =>
    have := charsLeft_step_lt hs
    rw [scan_of_none hs, scan_of_none (heq.symm.trans hs)]
    exact hstep.scan
termination_by s₁.chars.charsLeft

theorem Alike.next (h : Alike j₁ j₂ s₁ s₂) :
    (Producer.next s₁).1 = (Producer.next s₂).1 ∧
      Alike j₁ j₂ (Producer.next s₁).2 (Producer.next s₂).2 := by
  obtain ⟨heq, hscan⟩ := h.scan
  refine ⟨heq, ?_⟩
  simp only [Producer.next]
  rw [heq]
  exact hscan.record _

/-- Alike scanners produce the same tokens. -/
theorem Alike.yields {ts : List Token} (h : Alike j₁ j₂ s₁ s₂)
    (hy : (Lookahead.ofSource s₁).Yields ts) : (Lookahead.ofSource s₂).Yields ts := by
  induction ts generalizing s₁ s₂ with
  | nil => trivial
  | cons t ts ih =>
    obtain ⟨heq, hnext⟩ := h.next
    exact ⟨heq.symm.trans hy.1, ih hnext hy.2⟩

/-- What stands in the journal does not matter. -/
theorem alike_record (s : Scanner σ) (e : Event) :
    Alike s.journal (s.journal.record e) s (s.record e) := by
  obtain ⟨cs, hcs⟩ := Lookahead.exists_spells s.chars
  exact ⟨⟨cs, hcs, hcs⟩, ⟨[], rfl, rfl⟩, rfl, rfl, rfl, rfl⟩

/-- A scan that does not reach the end of the text uses up characters. -/
theorem charsLeft_scan_lt {s : Scanner σ} (h : s.scan.1.kind ≠ .endOfFile) :
    s.scan.2.chars.charsLeft < s.chars.charsLeft := by
  -- the steps without a token use up characters too, so only the last one matters
  obtain ⟨s', hle, hstep, heq⟩ := exists_last_step (P := fun s' => s'.chars.charsLeft ≤ s.chars.charsLeft)
    (fun s' hs' hn => Nat.le_trans (Nat.le_of_lt (charsLeft_step_lt hn)) hs') s (Nat.le_refl _)
  rw [heq]
  refine Nat.lt_of_lt_of_le ?_ hle
  unfold step at hstep ⊢
  split at hstep
  · simp only [Option.some.injEq] at hstep
    rw [← hstep] at h
    exact absurd rfl h
  · next c chars popped =>
    have used := Lookahead.charsLeft_pop_lt (q := s'.chars) (by rw [popped])
    have kept := charsLeft_stepFrom_le c s'.here.1 { s'.here.2 with chars }
    rw [popped] at used
    simp only [here] at used kept ⊢
    omega

instance : LawfulTokenSource (Scanner σ) where
  yields_record e s _ h := (s.alike_record e).yields h
  remaining_record _ _ := rfl
  remaining_next _ h := charsLeft_scan_lt h

end Scanner

end SwiftDialect
