import SwiftDialect.Proofs.Segments

/-!
# Passing over a segment

One step of a scanner passes over exactly one segment of the text before it, and yields the lexeme that
the segment is, if it is one. Everything else that the step does is said by `Segment.leave`: how the
line table and the column change, and what is reported.
-/

namespace SwiftDialect

universe u

/-- The lexeme as a token at some place. -/
def Lexeme.token (x : Lexeme) (location : Location) : Token where
  kind := x.kind
  location := location
  text := x.text

@[simp] theorem Lexeme.lexeme_token (x : Lexeme) (l : Location) : (x.token l).lexeme = x := rfl

variable {σ : Type u}

/-- The scanner after a segment that starts at the given place, except for its characters. -/
def Segment.leave (location : Location) (s : Scanner σ) : Segment → Scanner σ
  | .blank c => if c = '\n' then s.newLine else s.advance (if c = '\t' then s.tabWidth else 1)
  | .unrecognised c => (s.advance 1).report (.unexpectedCharacter c) location
  | .string text false =>
    let cut := (s.advance (1 + text.length)).here
    cut.2.report .unendedString cut.1
  | segment => s.advance segment.chars.length

theorem Segment.leave_chars (segment : Segment) (l : Location) (s : Scanner σ)
    (q : Lookahead σ (Option Char)) :
    segment.leave l { s with chars := q } = { segment.leave l s with chars := q } := by
  cases segment with
  | blank c =>
    rw [leave, leave]
    split <;> rfl
  | string text closed => cases closed <;> rfl
  | _ => rfl

namespace Scanner

variable [CharSource σ] {s : Scanner σ}

/-- From `s` a scanner passes over a segment that starts at the given place, and `rest` is left. -/
structure Passes (s : Scanner σ) (location : Location) (segment : Segment) (rest : List Char)
    (r : Option Token × Scanner σ) : Prop where
  token : r.1 = segment.lexeme?.map (·.token location)
  chars : r.2.chars.Spells rest
  leave : r.2 = { segment.leave location s with chars := r.2.chars }

theorem passes_comment {cs : List Char} (h : s.chars.Spells cs) (l : Location) :
    Passes s l (.comment (cs.takeWhile (· != '\n'))) (cs.dropWhile (· != '\n')) (none, s.comment) := by
  obtain ⟨htake, hdrop⟩ := h.takeWhile (· != '\n')
  simp only [comment, htake]
  exact ⟨rfl, hdrop, by rw [Nat.add_comm]; rfl⟩

theorem passes_identifier {cs : List Char} (h : s.chars.Spells cs) (c : Char) (l : Location) :
    Passes s l (.word c (cs.takeWhile isIdentifierRest)) (cs.dropWhile isIdentifierRest)
      (some (s.identifier c l).1, (s.identifier c l).2) := by
  obtain ⟨htake, hdrop⟩ := h.takeWhile isIdentifierRest
  simp only [identifier, htake]
  refine ⟨?_, hdrop, by rw [Nat.add_comm]; rfl⟩
  rw [Segment.lexeme?, Lexeme.ofWord]
  cases TokenKind.ofKeyword? (String.ofList (c :: cs.takeWhile isIdentifierRest)) <;> rfl

theorem passes_number {cs : List Char} (h : s.chars.Spells cs) (c : Char) (l : Location) :
    Passes s l (Segment.cutNumber c cs).1 (Segment.cutNumber c cs).2
      (some (s.number c l).1, (s.number c l).2) := by
  obtain ⟨htake, hdrop⟩ := h.takeWhile Char.isDigit
  obtain ⟨heat, hleft⟩ := hdrop.eat '.'
  rw [Segment.cutNumber]
  split
  · next hpoint =>
    -- digits, a point and more digits
    obtain ⟨hne, hhead⟩ := hpoint
    rw [if_pos hhead] at hleft
    obtain ⟨htake', hdrop'⟩ := hleft.takeWhile Char.isDigit
    simp only [number, hne, if_false, htake, heat, hhead, beq_self_eq_true, if_true, htake']
    refine ⟨?_, hdrop', ?_⟩
    · rw [Segment.lexeme?, if_pos (by simp)]
      rfl
    · simp only [Segment.leave, Segment.chars, advance, List.length_cons, List.length_append]
      congr 2
      omega
  · next hpoint =>
    -- either the point came first, or there is none
    by_cases hc : c = '.'
    · simp only [number, hc, if_true, htake, Bool.false_eq_true, if_false]
      refine ⟨?_, hdrop, by rw [Nat.add_comm]; rfl⟩
      rw [Segment.lexeme?, if_pos (by simp)]
      rfl
    · have hhead : (cs.dropWhile Char.isDigit).head? ≠ some '.' := fun hhead => hpoint ⟨hc, hhead⟩
      have hplain : '.' ∉ c :: cs.takeWhile Char.isDigit := by
        intro hmem
        rcases List.mem_cons.1 hmem with heq | hmem
        · exact hc heq.symm
        · exact absurd (Segment.test_of_mem hmem) (by decide)
      rw [if_neg hhead] at hleft
      simp only [number, hc, if_false, htake, heat, beq_eq_false_iff_ne.2 hhead, Bool.false_eq_true]
      refine ⟨?_, hleft, by rw [Nat.add_comm]; rfl⟩
      rw [Segment.lexeme?, if_neg hplain]
      rfl

theorem passes_string {cs : List Char} (h : s.chars.Spells cs) (l : Location) :
    Passes s l (Segment.cutString cs).1 (Segment.cutString cs).2
      (some (s.string l).1, (s.string l).2) := by
  have hinside : Segment.inString = fun c => c != '"' && c != '\n' := rfl
  rw [Segment.cutString, hinside]
  obtain ⟨htake, hdrop⟩ := h.takeWhile fun c => c != '"' && c != '\n'
  obtain ⟨heat, hleft⟩ := hdrop.eat '"'
  -- the literal ends at its quote, or is cut off where its line ends
  by_cases hquote : (cs.dropWhile fun c => c != '"' && c != '\n').head? = some '"'
  · rw [if_pos hquote] at hleft ⊢
    simp only [string, htake, heat, hquote, beq_self_eq_true, if_true]
    refine ⟨rfl, hleft, ?_⟩
    simp only [Segment.leave, Segment.chars, advance, List.length_cons, List.length_append, if_true,
      List.length_nil]
    congr 2
    omega
  · rw [if_neg hquote] at hleft ⊢
    simp only [string, htake, heat, beq_eq_false_iff_ne.2 hquote, Bool.false_eq_true, if_false]
    exact ⟨rfl, hleft, rfl⟩

theorem passes_paired {cs : List Char} (h : s.chars.Spells cs) {c : Char} {alone : Option TokenKind}
    {withEqual : TokenKind} (hc : CharClass.ofChar c = .paired alone withEqual) (l : Location) :
    Passes s l (Segment.cut c cs).1 (Segment.cut c cs).2 (s.stepFrom c l) := by
  obtain ⟨hspell, -, -, -, halone⟩ := CharClass.paired_spec hc
  obtain ⟨heat, hleft⟩ := h.eat '='
  rw [stepFrom, Segment.cut, hc]
  dsimp only
  rw [← Prod.eta (s.chars.eat '='), heat]
  by_cases hequal : cs.head? = some '='
  · rw [if_pos hequal] at hleft
    rw [if_pos hequal, hequal, beq_self_eq_true]
    exact ⟨rfl, hleft, by simp only [Segment.leave, Segment.chars, hspell]; rfl⟩
  · rw [if_neg hequal] at hleft
    rw [if_neg hequal, beq_eq_false_iff_ne.2 hequal]
    cases alone with
    | none => exact ⟨rfl, hleft, rfl⟩
    | some kind =>
      exact ⟨rfl, hleft, by simp only [Segment.leave, Segment.chars, (halone kind rfl).1]; rfl⟩

/-- What follows the first character of a text is the rest of its first segment. -/
theorem stepFrom_passes {cs : List Char} (h : s.chars.Spells cs) (c : Char) (l : Location) :
    Passes s l (Segment.cut c cs).1 (Segment.cut c cs).2 (s.stepFrom c l) := by
  have honly {d : Char} : (CharClass.ofChar c).only? = some d → c = d := CharClass.eq_of_only
  -- the class of the first character decides how the step goes on and where the segment ends
  cases hc : CharClass.ofChar c with
  | paired alone withEqual => exact passes_paired h hc l
  | newline =>
    obtain rfl : c = '\n' := honly (by rw [hc]; rfl)
    exact ⟨rfl, h, rfl⟩
  | space =>
    obtain rfl : c = ' ' := honly (by rw [hc]; rfl)
    exact ⟨rfl, h, rfl⟩
  | tab =>
    obtain rfl : c = '\t' := honly (by rw [hc]; rfl)
    exact ⟨rfl, h, rfl⟩
  | hash =>
    rw [stepFrom, Segment.cut, hc]
    exact passes_comment h l
  | quote =>
    rw [stepFrom, Segment.cut, hc]
    exact passes_string h l
  | letter =>
    rw [stepFrom, Segment.cut, hc]
    exact passes_identifier h c l
  | digit =>
    rw [stepFrom, Segment.cut, hc]
    exact passes_number h c l
  | single kind =>
    rw [stepFrom, Segment.cut, hc]
    exact ⟨rfl, h, by simp only [Segment.leave, Segment.chars, (CharClass.single_spec hc).1]; rfl⟩
  | other =>
    rw [stepFrom, Segment.cut, hc]
    exact ⟨rfl, h, rfl⟩

/-- A step passes over the segment that stands before it. -/
theorem step_passes {segment : Segment} {rest : List Char} (hsegment : segment.Stands rest)
    (h : s.chars.Spells (segment.chars ++ rest)) : Passes s.here.2 s.here.1 segment rest s.step := by
  obtain ⟨c, cs, hc⟩ := hsegment.exists_cons
  rw [hc, List.cons_append] at h
  have hpasses := stepFrom_passes (s := { s.here.2 with chars := s.chars.pop.2 })
    (Lookahead.spells_cons.1 h).2 c s.here.1
  rw [Segment.cut_of_stands hsegment hc] at hpasses
  rw [step_cons h]
  refine ⟨hpasses.token, hpasses.chars, ?_⟩
  rw [hpasses.leave, Segment.leave_chars]

end Scanner

end SwiftDialect
