import SwiftDialect.Proofs.Spelling

/-!
# Cutting a text into segments

A text is a sequence of *segments*: blanks, comments, characters that start nothing, and lexemes. A
segment *stands* before what follows it if it has the right shape and could not be longer.

Main statements: every text has a segmentation, and no more than one (`exists_segmentation`,
`IsSegmentation.unique`).
-/

namespace SwiftDialect

/-! ### Letters and digits -/

/-- Is the character a letter of the alphabet or an underscore? -/
def IsLetter (c : Char) : Prop :=
  ('A' ≤ c ∧ c ≤ 'Z') ∨ ('a' ≤ c ∧ c ≤ 'z') ∨ c = '_'

/-- Is the character a decimal digit? -/
def IsDigit (c : Char) : Prop :=
  '0' ≤ c ∧ c ≤ '9'

theorem isDigit_iff {c : Char} : c.isDigit ↔ IsDigit c :=
  Bool.and_eq_true_iff.trans (and_congr decide_eq_true_iff decide_eq_true_iff)

theorem isIdentifierStart_iff {c : Char} : isIdentifierStart c ↔ IsLetter c := by
  have hupper : c.isUpper ↔ 'A' ≤ c ∧ c ≤ 'Z' := decide_eq_true_iff
  have hlower : c.isLower ↔ 'a' ≤ c ∧ c ≤ 'z' :=
    Bool.and_eq_true_iff.trans (and_congr decide_eq_true_iff decide_eq_true_iff)
  have halpha : c.isAlpha ↔ c.isUpper ∨ c.isLower := Bool.or_eq_true_iff
  rw [isIdentifierStart, Bool.or_eq_true_iff, beq_iff_eq, halpha, hupper, hlower, or_assoc, IsLetter]

theorem isIdentifierRest_iff {c : Char} : isIdentifierRest c ↔ IsLetter c ∨ IsDigit c := by
  have halnum : c.isAlphanum ↔ c.isAlpha ∨ c.isDigit := Bool.or_eq_true_iff
  rw [← isIdentifierStart_iff, ← isDigit_iff, isIdentifierRest, isIdentifierStart,
    Bool.or_eq_true_iff, Bool.or_eq_true_iff, halnum, or_right_comm]

/-! ### Segments -/

/-- A piece of a text. -/
inductive Segment where
  | blank (c : Char)
  /-- A number sign and the text after it. -/
  | comment (text : List Char)
  /-- A character that starts no lexeme. -/
  | unrecognised (c : Char)
  /-- An identifier or reserved word. -/
  | word (first : Char) (more : List Char)
  | number (text : List Char)
  /-- A string literal, with or without its closing quote. -/
  | string (text : List Char) (closed : Bool)
  | sign (kind : TokenKind)
  deriving DecidableEq, Repr

namespace Segment

/-- The characters of the segment. -/
def chars : Segment → List Char
  | .blank c => [c]
  | .comment text => '#' :: text
  | .unrecognised c => [c]
  | .word first more => first :: more
  | .number text => text
  | .string text closed => '"' :: (text ++ if closed then ['"'] else [])
  | .sign kind => kind.description.toList

/-- Does the segment have the right shape, and can it not be longer before `rest`? -/
def Stands (rest : List Char) : Segment → Prop
  | .blank c => c = ' ' ∨ c = '\t' ∨ c = '\n'
  | .comment text => '\n' ∉ text ∧ ∀ c ∈ rest.head?, c = '\n'
  | .unrecognised c => c ∉ [' ', '\t', '\n', '#', '"', '.'] ∧ ¬ IsLetter c ∧ ¬ IsDigit c ∧
      (∀ k ∈ CharClass.signKinds, k.description.toList ≠ [c]) ∧ (c = '!' → rest.head? ≠ some '=')
  | .word first more => IsLetter first ∧ (∀ c ∈ more, IsLetter c ∨ IsDigit c) ∧
      ∀ c ∈ rest.head?, ¬ (IsLetter c ∨ IsDigit c)
  | .number text => text ≠ [] ∧ (∀ c ∈ text, IsDigit c ∨ c = '.') ∧ text.count '.' ≤ 1 ∧
      ∀ c ∈ rest.head?, ¬ IsDigit c ∧ (c = '.' → '.' ∈ text)
  | .string text closed => (∀ c ∈ text, c ≠ '"' ∧ c ≠ '\n') ∧
      (closed = false → ∀ c ∈ rest.head?, c = '\n')
  | .sign kind => kind ∈ CharClass.signKinds ∧
      (kind = .less ∨ kind = .greater → rest.head? ≠ some '=')

/-- The lexeme that the segment is, if it is one. -/
def lexeme? : Segment → Option Lexeme
  | .blank _ | .comment _ | .unrecognised _ => none
  | .word first more => some (.ofWord (String.ofList (first :: more)))
  | .number text =>
    some ⟨if '.' ∈ text then .floatLiteral else .integerLiteral, String.ofList text⟩
  | .string text _ => some ⟨.stringLiteral, String.ofList text⟩
  | .sign kind => some ⟨kind, ""⟩

/-- What is wrong with the segment, if anything is. -/
def problem? : Segment → Option Problem
  | .unrecognised c => some (.unexpectedCharacter c)
  | .string _ false => some .unendedString
  | _ => none

end Segment

/-- The segments make up the text, and each of them stands before those that follow it. -/
structure IsSegmentation (text : List Char) (segments : List Segment) : Prop where
  chars : segments.flatMap Segment.chars = text
  stands : ∀ before s after, segments = before ++ s :: after →
    s.Stands (after.flatMap Segment.chars)

theorem isSegmentation_nil : IsSegmentation [] [] where
  chars := rfl
  stands before s after h := by simp at h

theorem isSegmentation_cons {text : List Char} {s : Segment} {segments : List Segment} :
    IsSegmentation text (s :: segments) ↔
      ∃ rest, text = s.chars ++ rest ∧ s.Stands rest ∧ IsSegmentation rest segments := by
  constructor
  · intro h
    refine ⟨segments.flatMap Segment.chars, h.chars.symm, h.stands [] s segments rfl, rfl, ?_⟩
    intro before s' after heq
    exact h.stands (s :: before) s' after (by rw [heq]; rfl)
  · rintro ⟨rest, rfl, hs, rfl, hstands⟩
    refine ⟨rfl, fun before s' after heq => ?_⟩
    cases before with
    | nil =>
      obtain ⟨rfl, rfl⟩ := List.cons.inj heq
      exact hs
    | cons x before =>
      obtain ⟨rfl, htail⟩ := List.cons.inj heq
      exact hstands before s' after htail

/-! ### What a character can start -/

namespace CharClass

/-- The one character of the class, if it has only one. -/
def only? : CharClass → Option Char
  | .newline => some '\n'
  | .space => some ' '
  | .tab => some '\t'
  | .hash => some '#'
  | .quote => some '"'
  | _ => none

theorem eq_of_only {c d : Char} (h : (ofChar c).only? = some d) : c = d := by
  unfold ofChar at h
  split at h
  all_goals first
    | exact Option.some.inj h
    | cases h
    | (split at h; cases h; split at h <;> cases h)

theorem single_spec {c : Char} {k : TokenKind} (h : ofChar c = .single k) :
    k.description.toList = [c] ∧ k ≠ .less ∧ k ≠ .greater := by
  unfold ofChar at h
  split at h <;> try cases h
  all_goals first
    | decide
    | (split at h; cases h; split at h <;> cases h)

theorem paired_spec {c : Char} {alone : Option TokenKind} {k : TokenKind}
    (h : ofChar c = .paired alone k) : k.description.toList = [c, '='] ∧ k ≠ .less ∧ k ≠ .greater ∧
      (alone = none → c = '!') ∧
      ∀ a ∈ alone, a.description.toList = [c] ∧ (a = .less ∨ a = .greater) := by
  unfold ofChar at h
  split at h <;> try cases h
  all_goals first
    | decide
    | (split at h; cases h; split at h <;> cases h)

/-- A character of which no other class is known starts nothing at all. -/
theorem other_spec {c : Char} (h : ofChar c = .other) :
    c ∉ [' ', '\t', '\n', '#', '"', '.'] ∧ ¬ IsLetter c ∧ ¬ IsDigit c ∧
      ∀ k ∈ signKinds, k.description.toList ≠ [c] := by
  refine ⟨fun hmem => ?_, fun hletter => ?_, fun hdigit => ?_, fun k hk hspell => ?_⟩
  · simp only [List.mem_cons, List.not_mem_nil, or_false] at hmem
    rcases hmem with rfl | rfl | rfl | rfl | rfl | rfl <;> exact absurd h (by decide)
  · rw [ofChar_start (isIdentifierStart_iff.2 hletter)] at h
    cases h
  · rw [ofChar_digit (isDigit_iff.2 hdigit)] at h
    cases h
  · -- the first character of a sign has a class of its own
    rcases description_sign hk with ⟨d, hd, hclass⟩ | ⟨d, alone, hd, hclass⟩
    · obtain rfl : c = d := by simpa using hspell.symm.trans hd
      rcases hclass with hclass | ⟨withEqual, hclass⟩ <;> rw [h] at hclass <;> cases hclass
    · cases hspell.symm.trans hd

/-- The exclamation mark alone has a class and still starts nothing by itself. -/
theorem other_or_mark {c : Char} (hc : c ∉ [' ', '\t', '\n', '#', '"', '.']) (hletter : ¬ IsLetter c)
    (hdigit : ¬ IsDigit c) (hsign : ∀ k ∈ signKinds, k.description.toList ≠ [c]) :
    ofChar c = .other ∨ c = '!' := by
  rw [← isIdentifierStart_iff] at hletter
  rw [← isDigit_iff] at hdigit
  have hpoint : c ≠ '.' := fun h => hc (by rw [h]; decide)
  unfold ofChar
  split
  all_goals first
    | exact .inr rfl
    | exact absurd hc (by decide)
    | exact absurd hsign (by decide)
    | exact .inl (by simp [hletter, hdigit, hpoint])

end CharClass

/-! ### The first segment of a text -/

namespace Segment

/-- Is the character part of a string literal, if it comes after the opening quote? -/
def inString (c : Char) : Bool :=
  c != '"' && c != '\n'

/-- The number that starts with `c`, and what follows it. -/
def cutNumber (c : Char) (cs : List Char) : Segment × List Char :=
  let digits := cs.takeWhile Char.isDigit
  let rest := cs.dropWhile Char.isDigit
  if c ≠ '.' ∧ rest.head? = some '.' then
    (.number (c :: (digits ++ '.' :: rest.tail.takeWhile Char.isDigit)),
      rest.tail.dropWhile Char.isDigit)
  else (.number (c :: digits), rest)

/-- The string literal after an opening quote, and what follows it. -/
def cutString (cs : List Char) : Segment × List Char :=
  let text := cs.takeWhile inString
  let rest := cs.dropWhile inString
  if rest.head? = some '"' then (.string text true, rest.tail) else (.string text false, rest)

/-- The segment that starts with `c`, and what follows it. -/
def cut (c : Char) (cs : List Char) : Segment × List Char :=
  match CharClass.ofChar c with
  | .newline | .space | .tab => (.blank c, cs)
  | .hash => (.comment (cs.takeWhile (· != '\n')), cs.dropWhile (· != '\n'))
  | .quote => cutString cs
  | .letter => (.word c (cs.takeWhile isIdentifierRest), cs.dropWhile isIdentifierRest)
  | .digit => cutNumber c cs
  | .single kind => (.sign kind, cs)
  | .paired alone withEqual =>
    if cs.head? = some '=' then (.sign withEqual, cs.tail)
    else
      match alone with
      | some kind => (.sign kind, cs)
      | none => (.unrecognised c, cs)
  | .other => (.unrecognised c, cs)

/-! ### It stands before what follows it -/

section

variable {test : Char → Bool} {c : Char} {cs : List Char}

theorem test_of_mem (h : c ∈ cs.takeWhile test) : test c :=
  List.all_eq_true.1 List.all_takeWhile c h

/-- A run of characters ends where the test fails. -/
theorem fails_after (h : c ∈ (cs.dropWhile test).head?) : test c = false := by
  have hstop := List.head?_dropWhile_not test cs
  rw [Option.mem_def.1 h] at hstop
  exact hstop

theorem cons_of_head? (h : cs.head? = some c) : c :: cs.tail = cs := by
  obtain ⟨ds, rfl⟩ := List.head?_eq_some_iff.1 h
  rfl

theorem count_point {digits : List Char} (h : ∀ c ∈ digits, c.isDigit) : digits.count '.' = 0 :=
  List.count_eq_zero.2 fun hmem => absurd (h _ hmem) (by decide)

end

theorem cutString_spec (cs : List Char) :
    '"' :: cs = (cutString cs).1.chars ++ (cutString cs).2 ∧
      (cutString cs).1.Stands (cutString cs).2 := by
  have htext : ∀ c ∈ cs.takeWhile inString, c ≠ '"' ∧ c ≠ '\n' := fun c hc => by
    simpa [inString] using test_of_mem hc
  have hsplit := List.takeWhile_append_dropWhile (p := inString) (l := cs)
  rw [cutString]
  split
  · next hquote =>
    refine ⟨?_, htext, nofun⟩
    simp only [chars, if_true, List.cons_append, List.append_assoc, List.nil_append]
    rw [cons_of_head? hquote, hsplit]
  · next hquote =>
    refine ⟨by simp [chars, hsplit], htext, fun _ c hc => ?_⟩
    -- what ended the text is no quote, so it is the line feed
    have hstop := fails_after hc
    rw [Option.mem_def.1 hc] at hquote
    simpa [inString, show c ≠ '"' from fun h => hquote (by rw [h])] using hstop

theorem cutNumber_spec {c : Char} (hc : IsDigit c ∨ c = '.') (cs : List Char) :
    c :: cs = (cutNumber c cs).1.chars ++ (cutNumber c cs).2 ∧
      (cutNumber c cs).1.Stands (cutNumber c cs).2 := by
  have hdigits : ∀ d ∈ cs.takeWhile Char.isDigit, d.isDigit := fun d hd => test_of_mem hd
  have hsplit := List.takeWhile_append_dropWhile (p := Char.isDigit) (l := cs)
  rw [cutNumber]
  split
  · next hpoint =>
    obtain ⟨hne, hhead⟩ := hpoint
    have hmore := List.takeWhile_append_dropWhile (p := Char.isDigit)
      (l := (cs.dropWhile Char.isDigit).tail)
    refine ⟨?_, List.cons_ne_nil _ _, ?_, ?_, fun d hd => ⟨?_, fun _ => ?_⟩⟩
    · simp only [chars, List.cons_append, List.append_assoc]
      rw [hmore, cons_of_head? hhead, hsplit]
    · intro d hd
      simp only [List.mem_cons, List.mem_append] at hd
      rcases hd with rfl | hd | rfl | hd
      · exact hc
      · exact .inl (isDigit_iff.1 (hdigits d hd))
      · exact .inr rfl
      · exact .inl (isDigit_iff.1 (test_of_mem hd))
    · have hfraction : ((cs.dropWhile Char.isDigit).tail.takeWhile Char.isDigit).count '.' = 0 :=
        count_point fun d hd => test_of_mem hd
      simp [hne, count_point hdigits, hfraction]
    · rw [← isDigit_iff, fails_after hd]
      exact Bool.false_ne_true
    · simp
  · next hpoint =>
    refine ⟨by simp [chars, hsplit], List.cons_ne_nil _ _, ?_, ?_, fun d hd => ⟨?_, ?_⟩⟩
    · intro d hd
      rcases List.mem_cons.1 hd with rfl | hd
      · exact hc
      · exact .inl (isDigit_iff.1 (hdigits d hd))
    · rw [List.count_cons, count_point hdigits]
      split <;> decide
    · rw [← isDigit_iff, fails_after hd]
      exact Bool.false_ne_true
    · rintro rfl
      -- a point comes after a number only if it has one already
      have hfirst : c = '.' := Decidable.byContradiction fun hne => hpoint ⟨hne, hd⟩
      rw [hfirst]
      exact List.mem_cons_self

/-- The first segment of a text stands before what follows it. -/
theorem cut_spec (c : Char) (cs : List Char) :
    c :: cs = (cut c cs).1.chars ++ (cut c cs).2 ∧ (cut c cs).1.Stands (cut c cs).2 := by
  have honly {d : Char} : (CharClass.ofChar c).only? = some d → c = d := CharClass.eq_of_only
  unfold cut
  split
  · next hc => exact ⟨rfl, .inr (.inr (honly (by rw [hc]; rfl)))⟩
  · next hc => exact ⟨rfl, .inl (honly (by rw [hc]; rfl))⟩
  · next hc => exact ⟨rfl, .inr (.inl (honly (by rw [hc]; rfl)))⟩
  · next hc =>
    obtain rfl : c = '#' := honly (by rw [hc]; rfl)
    refine ⟨by simp [chars, List.takeWhile_append_dropWhile], fun hmem => ?_, fun d hd => ?_⟩
    · simpa using test_of_mem hmem
    · simpa using fails_after hd
  · next hc =>
    obtain rfl : c = '"' := honly (by rw [hc]; rfl)
    exact cutString_spec cs
  · next hc =>
    refine ⟨by simp [chars, List.takeWhile_append_dropWhile], ?_, fun d hd => ?_, fun d hd => ?_⟩
    · exact isIdentifierStart_iff.1 (CharClass.start_of_letter hc)
    · exact isIdentifierRest_iff.1 (test_of_mem hd)
    · rw [← isIdentifierRest_iff, fails_after hd]
      exact Bool.false_ne_true
  · next hc =>
    have hfirst := CharClass.digit_or_point_of_digit hc
    rw [isDigit_iff] at hfirst
    exact cutNumber_spec hfirst cs
  · next kind hc =>
    obtain ⟨hspell, hless, hgreater⟩ := CharClass.single_spec hc
    refine ⟨by simp [chars, hspell], CharClass.mem_of_single hc, ?_⟩
    exact fun h => absurd h (not_or.2 ⟨hless, hgreater⟩)
  · next alone withEqual hc =>
    -- a sign that can go on with an equal sign; the exclamation mark alone is no sign
    obtain ⟨hspell, hless, hgreater, hmark, halone⟩ := CharClass.paired_spec hc
    obtain ⟨hwith, hmem⟩ := CharClass.mem_of_paired hc
    split
    · next hequal =>
      refine ⟨by simp [chars, hspell, cons_of_head? hequal], hwith, ?_⟩
      exact fun h => absurd h (not_or.2 ⟨hless, hgreater⟩)
    · next hequal =>
      split
      · next kind =>
        refine ⟨?_, hmem kind rfl, fun _ => hequal⟩
        simp [chars, (halone kind rfl).1]
      · obtain rfl := hmark rfl
        refine ⟨rfl, by decide, ?_, ?_, by decide, fun _ => hequal⟩
        · rw [← isIdentifierStart_iff]
          decide
        · rw [← isDigit_iff]
          decide
  · next hc =>
    obtain ⟨hfixed, hletter, hdigit, hsign⟩ := CharClass.other_spec hc
    refine ⟨rfl, hfixed, hletter, hdigit, hsign, ?_⟩
    rintro rfl
    exact absurd hc (by decide)

/-! ### No other segment does -/

theorem cutNumber_of_stands {c : Char} {cs rest : List Char} (h : (number (c :: cs)).Stands rest) :
    cutNumber c (cs ++ rest) = (number (c :: cs), rest) := by
  obtain ⟨-, hall, hcount, hrest⟩ := h
  have hstop : ∀ d ∈ rest.head?, d.isDigit = false := fun d hd =>
    Bool.eq_false_iff.2 fun hdigit => (hrest d hd).1 (isDigit_iff.1 hdigit)
  have hdigit : ∀ ds : List Char, ds ⊆ c :: cs → '.' ∉ ds → ∀ d ∈ ds, d.isDigit := by
    intro ds hsub hpoint d hd
    refine isDigit_iff.2 ((hall d (hsub hd)).resolve_right ?_)
    rintro rfl
    exact hpoint hd
  by_cases hmem : '.' ∈ cs
  · obtain ⟨whole, fraction, rfl⟩ := List.append_of_mem hmem
    -- the point after the first character is the only one
    have hcounts : (c :: whole).count '.' = 0 ∧ fraction.count '.' = 0 := by
      rw [← List.cons_append, List.count_append, List.count_cons_self] at hcount
      omega
    have hwhole : ∀ d ∈ c :: whole, d.isDigit :=
      hdigit _ (by simp) (List.count_eq_zero.1 hcounts.1)
    have hfraction : ∀ d ∈ fraction, d.isDigit :=
      hdigit _ (fun d hd => by simp [hd]) (List.count_eq_zero.1 hcounts.2)
    have hne : c ≠ '.' := by
      rintro rfl
      exact absurd (hwhole _ List.mem_cons_self) (by decide)
    have hpoint : ∀ d ∈ ('.' :: (fraction ++ rest)).head?, d.isDigit = false := by simp
    obtain ⟨htake, hdrop⟩ := run_append (fun d hd => hwhole d (List.mem_cons_of_mem _ hd)) hpoint
    obtain ⟨htake', hdrop'⟩ := run_append hfraction hstop
    rw [List.append_assoc, List.cons_append, cutNumber, htake, hdrop, List.head?_cons, List.tail_cons,
      htake', hdrop', if_pos ⟨hne, rfl⟩]
  · obtain ⟨htake, hdrop⟩ := run_append (hdigit cs (List.subset_cons_self _ _) hmem) hstop
    -- no point follows, unless the number starts with one
    have hpoint : ¬ (c ≠ '.' ∧ rest.head? = some '.') := by
      rintro ⟨hne, hhead⟩
      rcases List.mem_cons.1 ((hrest '.' hhead).2 rfl) with h | h
      · exact hne h.symm
      · exact hmem h
    rw [cutNumber, htake, hdrop, if_neg hpoint]

theorem cutString_of_stands {text rest : List Char} {closed : Bool}
    (h : (string text closed).Stands rest) :
    cutString (text ++ ((if closed then ['"'] else []) ++ rest)) = (string text closed, rest) := by
  obtain ⟨htext, hrest⟩ := h
  have hinside : ∀ c ∈ text, inString c := fun c hc => by simpa [inString] using htext c hc
  cases closed with
  | true =>
    have hquote : ∀ c ∈ ('"' :: rest).head?, inString c = false := by simp [inString]
    obtain ⟨htake, hdrop⟩ := run_append hinside hquote
    simp only [if_true, List.cons_append, List.nil_append, cutString, htake, hdrop, List.head?_cons,
      List.tail_cons]
  | false =>
    have hstop : ∀ c ∈ rest.head?, inString c = false := fun c hc => by simp [inString, hrest rfl c hc]
    obtain ⟨htake, hdrop⟩ := run_append hinside hstop
    have hquote : rest.head? ≠ some '"' := fun hc => absurd (hrest rfl _ hc) (by decide)
    simp only [Bool.false_eq_true, if_false, List.nil_append, cutString, htake, hdrop, hquote]

/-- A segment that stands before what follows it is the first one of the text. -/
theorem cut_of_stands {s : Segment} {c : Char} {cs rest : List Char} (h : s.Stands rest)
    (hc : s.chars = c :: cs) : cut c (cs ++ rest) = (s, rest) := by
  cases s with
  | blank d =>
    obtain ⟨rfl, rfl⟩ := List.cons.inj hc
    rcases h with rfl | rfl | rfl <;> rfl
  | comment text =>
    obtain ⟨rfl, rfl⟩ := List.cons.inj hc
    obtain ⟨htext, hrest⟩ := h
    have hinside : ∀ d ∈ text, (d != '\n') = true := fun d hd => by
      simpa using fun heq : d = '\n' => htext (heq ▸ hd)
    obtain ⟨htake, hdrop⟩ := run_append hinside fun d hd => by simpa using hrest d hd
    rw [cut, show CharClass.ofChar '#' = .hash from rfl]
    simp only [htake, hdrop]
  | unrecognised d =>
    obtain ⟨rfl, rfl⟩ := List.cons.inj hc
    obtain ⟨hfixed, hletter, hdigit, hsign, hmark⟩ := h
    rcases CharClass.other_or_mark hfixed hletter hdigit hsign with hother | rfl
    · rw [cut, hother]
      rfl
    · rw [cut, show CharClass.ofChar '!' = .paired none .notEqual from rfl]
      simp [hmark rfl]
  | word first more =>
    obtain ⟨rfl, rfl⟩ := List.cons.inj hc
    obtain ⟨hfirst, hmore, hrest⟩ := h
    obtain ⟨htake, hdrop⟩ := run_append (fun d hd => isIdentifierRest_iff.2 (hmore d hd))
      fun d hd => Bool.eq_false_iff.2 fun hin => hrest d hd (isIdentifierRest_iff.1 hin)
    rw [cut, CharClass.ofChar_start (isIdentifierStart_iff.2 hfirst)]
    simp only [htake, hdrop]
  | number text =>
    obtain rfl : text = c :: cs := hc
    have hfirst : CharClass.ofChar c = .digit := by
      rcases h.2.1 c List.mem_cons_self with hdigit | rfl
      · exact CharClass.ofChar_digit (isDigit_iff.2 hdigit)
      · rfl
    rw [cut, hfirst]
    exact cutNumber_of_stands h
  | string text closed =>
    obtain ⟨rfl, rfl⟩ := List.cons.inj hc
    rw [cut, show CharClass.ofChar '"' = .quote from rfl, List.append_assoc]
    exact cutString_of_stands h
  | sign kind =>
    obtain ⟨hkind, hequal⟩ := h
    -- the shorter of two signs stands only where no equal sign follows
    rcases CharClass.description_sign hkind with ⟨d, hd, hclass⟩ | ⟨d, alone, hd, hclass⟩
    · obtain ⟨rfl, rfl⟩ := List.cons.inj (hc.symm.trans hd)
      rcases hclass with hclass | ⟨withEqual, hclass⟩
      · rw [cut, hclass]
        rfl
      · have hkind := ((CharClass.paired_spec hclass).2.2.2.2 kind rfl).2
        rw [cut, hclass]
        simp [hequal hkind]
    · obtain ⟨rfl, rfl⟩ := List.cons.inj (hc.symm.trans hd)
      rw [cut, hclass]
      simp

theorem Stands.exists_cons {s : Segment} {rest : List Char} (h : s.Stands rest) :
    ∃ c cs, s.chars = c :: cs := by
  cases s with
  | number text => exact List.exists_cons_of_ne_nil h.1
  | sign kind =>
    rcases CharClass.description_sign h.1 with ⟨c, hc, -⟩ | ⟨c, -, hc, -⟩
    · exact ⟨c, _, hc⟩
    · exact ⟨c, _, hc⟩
  | _ => exact ⟨_, _, rfl⟩

end Segment

/-! ### Whole texts -/

/-- Every text can be cut into segments. -/
theorem exists_segmentation (text : List Char) : ∃ segments, IsSegmentation text segments := by
  cases text with
  | nil => exact ⟨[], isSegmentation_nil⟩
  | cons c cs =>
    obtain ⟨hsplit, hstands⟩ := Segment.cut_spec c cs
    obtain ⟨d, ds, hchars⟩ := hstands.exists_cons
    have hshorter : (Segment.cut c cs).2.length < (c :: cs).length := by
      rw [hsplit, hchars, List.length_append, List.length_cons]
      omega
    obtain ⟨segments, h⟩ := exists_segmentation (Segment.cut c cs).2
    exact ⟨_, isSegmentation_cons.2 ⟨_, hsplit, hstands, h⟩⟩
termination_by text.length
decreasing_by exact hshorter

/-- There is only one way to cut a text into segments. -/
theorem IsSegmentation.unique {text : List Char} {segments segments' : List Segment}
    (h : IsSegmentation text segments) (h' : IsSegmentation text segments') :
    segments = segments' := by
  induction segments generalizing text segments' with
  | nil =>
    cases segments' with
    | nil => rfl
    | cons s' segments' =>
      obtain ⟨rest, htext, hs', -⟩ := isSegmentation_cons.1 h'
      -- a segment has a character, and there is none left
      obtain ⟨c, cs, hc⟩ := hs'.exists_cons
      rw [← h.chars, hc] at htext
      cases htext
  | cons s segments ih =>
    obtain ⟨rest, rfl, hs, hsegments⟩ := isSegmentation_cons.1 h
    obtain ⟨c, cs, hc⟩ := hs.exists_cons
    cases segments' with
    | nil =>
      have htext := h'.chars
      rw [hc] at htext
      cases htext
    | cons s' segments' =>
      obtain ⟨rest', htext, hs', hsegments'⟩ := isSegmentation_cons.1 h'
      obtain ⟨c', cs', hc'⟩ := hs'.exists_cons
      -- both segments are the one that is cut off first
      rw [hc, hc', List.cons_append, List.cons_append] at htext
      obtain ⟨rfl, htail⟩ := List.cons.inj htext
      have heq := Segment.cut_of_stands hs hc
      rw [htail, Segment.cut_of_stands hs' hc'] at heq
      obtain ⟨rfl, rfl⟩ := Prod.mk.inj heq
      rw [ih hsegments hsegments']

end SwiftDialect
