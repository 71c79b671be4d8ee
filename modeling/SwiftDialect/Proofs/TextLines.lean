import SwiftDialect.Text.Lines
import Mathlib.Logic.Basic

/-!
# Lines and line feeds

The lines of a text, as they are shown, are the parts between its line feeds, up to two differences: a
carriage return before a line feed belongs to the line end, and an empty part at the end is no line.

Main statements: the lines in terms of the parts (`lines_eq_ofParts`, `getElem?_ofParts`), and the part that
a place of the text lies in (`getElem?_splitOn_append`).
-/

namespace SwiftDialect.Text

/-- The line, less a carriage return at its end. -/
def withoutReturn (line : List Char) : List Char :=
  if line.getLast? = some '\r' then line.dropLast else line

/-- The lines that the parts of a text between its line feeds make: a line feed follows all of them but the
last, which is a line only if it is not empty. -/
def ofParts : List (List Char) → List (List Char)
  | [] => []
  | [last] => if last = [] then [] else [last]
  | part :: next :: parts => withoutReturn part :: ofParts (next :: parts)

theorem ofParts_cons {part : List Char} {parts : List (List Char)} (h : parts ≠ []) :
    ofParts (part :: parts) = withoutReturn part :: ofParts parts := by
  obtain ⟨next, parts, rfl⟩ := List.exists_cons_of_ne_nil h
  rfl

theorem withoutReturn_cons {c : Char} {line : List Char} (h : line = [] → c ≠ '\r') :
    withoutReturn (c :: line) = c :: withoutReturn line := by
  cases line with
  | nil => simp [withoutReturn, h rfl]
  | cons d line =>
    unfold withoutReturn
    rw [List.getLast?_cons_cons, apply_ite (List.cons c)]
    rfl

theorem splitOn_newline (rest : List Char) :
    ('\n' :: rest).splitOn '\n' = [] :: rest.splitOn '\n' := by
  rw [List.splitOn_cons_eq_if_modifyHead, if_pos (beq_self_eq_true _)]

theorem splitOn_of_ne {c : Char} {rest part : List Char} {parts : List (List Char)} (hc : c ≠ '\n')
    (h : rest.splitOn '\n' = part :: parts) :
    (c :: rest).splitOn '\n' = (c :: part) :: parts := by
  rw [List.splitOn_cons_eq_if_modifyHead, if_neg (by simpa using hc), h, List.modifyHead_cons]

/-- If the first part is empty and not the last, then its line feed comes at once. -/
theorem head?_of_splitOn {cs : List Char} {parts : List (List Char)}
    (h : cs.splitOn '\n' = [] :: parts) (hne : parts ≠ []) : cs.head? = some '\n' := by
  cases cs with
  | nil => exact absurd (List.cons.inj h).2.symm hne
  | cons c cs =>
    by_cases hc : c = '\n'
    · rw [hc]
      rfl
    · obtain ⟨part, others, hparts⟩ := List.exists_cons_of_ne_nil (List.splitOn_ne_nil '\n' cs)
      rw [splitOn_of_ne hc hparts] at h
      cases h

/-- A text is cut into lines at its line feeds. -/
theorem lines_eq_ofParts (cs : List Char) : lines cs = ofParts (cs.splitOn '\n') := by
  induction cs with
  | nil => rfl
  | cons c rest ih =>
    rw [lines]
    split
    · next hc =>
      rw [hc, splitOn_newline, ofParts_cons (List.splitOn_ne_nil _ _), ih]
      rfl
    · next hc =>
      obtain ⟨part, parts, hparts⟩ := List.exists_cons_of_ne_nil (List.splitOn_ne_nil '\n' rest)
      rw [splitOn_of_ne hc hparts]
      split
      · next hreturn =>
        -- a carriage return before a line feed is dropped together with it
        obtain ⟨rfl, hhead⟩ := hreturn
        obtain ⟨rest, rfl⟩ := List.head?_eq_some_iff.1 hhead
        rw [splitOn_newline] at hparts ih
        obtain ⟨rfl, rfl⟩ := List.cons.inj hparts
        rw [ih, ofParts_cons (List.splitOn_ne_nil _ _), ofParts_cons (List.splitOn_ne_nil _ _)]
        rfl
      · next hreturn =>
        rw [ih, hparts]
        cases parts with
        | nil => cases part <;> rfl
        | cons next parts =>
          -- the character is kept: if it is a return, then no line feed follows it
          have hkept : part = [] → c ≠ '\r' := by
            rintro rfl heq
            exact hreturn ⟨heq, head?_of_splitOn hparts (List.cons_ne_nil _ _)⟩
          rw [ofParts_cons (List.cons_ne_nil _ _), ofParts_cons (List.cons_ne_nil _ _),
            withoutReturn_cons hkept]

theorem getElem?_ofParts {parts : List (List Char)} {n : Nat} {part : List Char}
    (h : parts[n]? = some part) : (ofParts parts)[n]? =
      if n + 1 < parts.length then some (withoutReturn part)
      else if part = [] then none else some part := by
  induction parts generalizing n with
  | nil => cases h
  | cons first parts ih =>
    cases parts with
    | nil =>
      cases n with
      | zero =>
        obtain rfl : first = part := Option.some.inj h
        by_cases hempty : first = [] <;> simp [ofParts, hempty]
      | succ n => cases h
    | cons next parts =>
      rw [ofParts_cons (List.cons_ne_nil _ _)]
      cases n with
      | zero =>
        obtain rfl : first = part := Option.some.inj h
        simp
      | succ n => simpa using ih (n := n) (by simpa using h)

/-- The characters after the last line feed. -/
def lastPart (cs : List Char) : List Char :=
  (cs.reverse.takeWhile (· ≠ '\n')).reverse

theorem head?_splitOn (cs : List Char) :
    (cs.splitOn '\n').head? = some (cs.takeWhile (· ≠ '\n')) := by
  induction cs with
  | nil => rfl
  | cons c cs ih =>
    rw [List.splitOn_cons_eq_if_modifyHead]
    by_cases hc : c = '\n'
    · simp [hc]
    · simp [hc, ih]

theorem length_splitOn (cs : List Char) : (cs.splitOn '\n').length = cs.count '\n' + 1 := by
  induction cs with
  | nil => rfl
  | cons c cs ih =>
    rw [List.splitOn_cons_eq_if_modifyHead]
    by_cases hc : c = '\n'
    · simp [hc, ih]
    · simp [hc, ih]

theorem takeWhile_append_of_notMem {cs : List Char} (h : '\n' ∉ cs) (rest : List Char) :
    (cs ++ rest).takeWhile (· ≠ '\n') = cs ++ rest.takeWhile (· ≠ '\n') :=
  List.takeWhile_append_of_pos fun _ hc => decide_eq_true fun heq => h (heq ▸ hc)

/-- The part of a text that a place lies in: what has come since the last line feed, and what comes before
the next one. -/
theorem getElem?_splitOn_append (before after : List Char) :
    ((before ++ after).splitOn '\n')[before.count '\n']? =
      some (lastPart before ++ after.takeWhile (· ≠ '\n')) := by
  by_cases hmem : '\n' ∈ before
  · -- the last line feed before the place is the first one of the reversed text
    obtain ⟨back, front, hback, hnew⟩ := List.eq_append_cons_of_mem (List.mem_reverse.2 hmem)
    have hlast : lastPart before = back.reverse := by
      rw [lastPart, hback, takeWhile_append_of_notMem hnew]
      simp
    have hbefore : before = front.reverse ++ '\n' :: back.reverse := by
      rw [← List.reverse_reverse before, hback]
      simp
    have hnew : '\n' ∉ back.reverse := mt List.mem_reverse.1 hnew
    have hindex : before.count '\n' = (front.reverse.splitOn '\n').length := by
      rw [hbefore, length_splitOn, List.count_append, List.count_cons_self, List.count_eq_zero.2 hnew]
    rw [hindex, hlast, hbefore, List.append_assoc, List.cons_append, List.splitOn_append_cons_self,
      List.getElem?_append_right (Nat.le_refl _), Nat.sub_self, ← List.head?_eq_getElem?, head?_splitOn,
      takeWhile_append_of_notMem hnew]
  · have hlast : lastPart before = before := by
      have hnone := takeWhile_append_of_notMem (mt List.mem_reverse.1 hmem) []
      rw [List.append_nil] at hnone
      rw [lastPart, hnone, List.takeWhile_nil, List.append_nil, List.reverse_reverse]
    rw [List.count_eq_zero.2 hmem, ← List.head?_eq_getElem?, head?_splitOn, hlast,
      takeWhile_append_of_notMem hmem]

end SwiftDialect.Text
