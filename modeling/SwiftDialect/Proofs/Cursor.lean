import SwiftDialect.Proofs.Sources

/-!
# Texts read by their offsets

A text in memory can be kept as it is, with the offset of the next character, counted in bytes. The text must
then be cut at the offset for every character, which is possible only between two characters.

Main statements: whatever a scanner does, the offset is between two characters
(`Scanner.Reaches.onBoundary`), and a text that is read like this gives out its characters in order
(`Cursor.spells_start`).
-/

namespace SwiftDialect

/-- The characters from a byte offset on, unless the offset is inside a character or past the end. -/
def charsFrom : List Char → Nat → Option (List Char)
  | cs, 0 => some cs
  | [], _ + 1 => none
  | c :: cs, offset + 1 =>
    if c.utf8Size ≤ offset + 1 then charsFrom cs (offset + 1 - c.utf8Size) else none

@[simp] theorem charsFrom_zero (cs : List Char) : charsFrom cs 0 = some cs := by
  cases cs <;> rfl

theorem charsFrom_add {c : Char} {rest : List Char} (text : List Char) : ∀ {offset : Nat},
    charsFrom text offset = some (c :: rest) → charsFrom text (offset + c.utf8Size) = some rest := by
  have hpos := c.utf8Size_pos
  induction text with
  | nil =>
    intro offset h
    cases offset <;> simp [charsFrom] at h
  | cons d text ih =>
    intro offset h
    cases offset with
    | zero =>
      obtain ⟨rfl, rfl⟩ : d = c ∧ text = rest := by simpa [charsFrom] using h
      obtain ⟨size, hsize⟩ := Nat.exists_eq_succ_of_ne_zero (Nat.ne_of_gt hpos)
      simp [charsFrom, hsize]
    | succ offset =>
      simp only [charsFrom] at h
      split at h
      · next hd =>
        -- skip the first character on both sides; the offset left is at least as large
        have hsum : offset + 1 + c.utf8Size = (offset + c.utf8Size) + 1 := by omega
        have hsub : (offset + c.utf8Size) + 1 - d.utf8Size = offset + 1 - d.utf8Size + c.utf8Size := by
          omega
        rw [hsum, charsFrom, if_pos (by omega), hsub]
        exact ih h
      · cases h

/-- A text and the offset of its next character. -/
structure Cursor where
  text : List Char
  offset : Nat

namespace Cursor

/-- The start of a text. -/
def start (text : String) : Cursor :=
  ⟨text.toList, 0⟩

/-- Is the offset between two characters, or at an end of the text? -/
def OnBoundary (k : Cursor) : Prop :=
  (charsFrom k.text k.offset).isSome

/-- The next character, at which the text is cut. -/
def next (k : Cursor) : Option Char × Cursor :=
  match charsFrom k.text k.offset with
  | some (c :: _) => (some c, { k with offset := k.offset + c.utf8Size })
  | _ => (none, k)

theorem next_cons {k : Cursor} {c : Char} {cs : List Char}
    (h : charsFrom k.text k.offset = some (c :: cs)) :
    k.next = (some c, ⟨k.text, k.offset + c.utf8Size⟩) := by
  rw [next, h]

theorem next_nil {k : Cursor} (h : ∀ c cs, charsFrom k.text k.offset ≠ some (c :: cs)) :
    k.next = (none, k) := by
  rw [next]
  split
  · next c cs heq => exact absurd heq (h c cs)
  · rfl

theorem cases_next (k : Cursor) :
    (∃ c cs, charsFrom k.text k.offset = some (c :: cs) ∧
      k.next = (some c, ⟨k.text, k.offset + c.utf8Size⟩)) ∨ k.next = (none, k) := by
  by_cases h : ∃ c cs, charsFrom k.text k.offset = some (c :: cs)
  · obtain ⟨c, cs, h⟩ := h
    exact .inl ⟨c, cs, h, next_cons h⟩
  · exact .inr (next_nil fun c cs heq => h ⟨c, cs, heq⟩)

instance : CharSource Cursor where
  next := next
  remaining k := ((charsFrom k.text k.offset).getD []).length
  remaining_lt k c h := by
    rcases k.cases_next with ⟨d, cs, hchars, hnext⟩ | hnext
    · simp [hnext, hchars, charsFrom_add k.text hchars]
    · simp [hnext] at h
  takeFailure k := (none, k)

theorem onBoundary_start (text : String) : (start text).OnBoundary := by
  simp [OnBoundary, start]

theorem OnBoundary.next {k : Cursor} (h : k.OnBoundary) : (Producer.next k).2.OnBoundary := by
  show k.next.2.OnBoundary
  rcases k.cases_next with ⟨c, cs, hchars, hnext⟩ | hnext
  · rw [hnext, OnBoundary, charsFrom_add k.text hchars]
    rfl
  · rwa [hnext]

theorem spells_of_charsFrom (cs : List Char) : ∀ {k : Cursor}, charsFrom k.text k.offset = some cs →
    (Lookahead.ofSource k).Spells cs := by
  induction cs with
  | nil =>
    intro k h
    have hnext := next_nil (k := k) fun c cs heq => by simp [h] at heq
    exact Lookahead.spells_nil.2 (congrArg Prod.fst hnext)
  | cons c cs ih =>
    intro k h
    have hpop : (Lookahead.ofSource k : Lookahead Cursor (Option Char)).pop =
        (some c, .ofSource ⟨k.text, k.offset + c.utf8Size⟩) := by
      have hnext : Producer.next k = (some c, ⟨k.text, k.offset + c.utf8Size⟩) := next_cons h
      simp only [Lookahead.pop, Lookahead.ofSource, hnext]
    refine Lookahead.spells_cons.2 ⟨by rw [hpop], ?_⟩
    rw [hpop]
    exact ih (charsFrom_add k.text h)

/-- A text gives out its characters in order. -/
theorem spells_start (text : String) : (Lookahead.ofSource (start text)).Spells text.toList :=
  spells_of_charsFrom _ (charsFrom_zero _)

theorem quiet (k : Cursor) : Quiet k :=
  fun _ => rfl

end Cursor

/-- Whatever a scanner does, the offset into its text stays between two characters. -/
theorem Scanner.Reaches.onBoundary {E : Event → Prop} {s s' : Scanner Cursor} (h : s.Reaches E s')
    (hs : s.chars.source.OnBoundary) : s'.chars.source.OnBoundary :=
  h.kept (fun _ => Cursor.OnBoundary.next) hs

end SwiftDialect
