import SwiftDialect.Proofs.Scanning

/-!
# The shape of tokens

A *lexeme* is a token without its place. Every token that a scanner produces has the shape that its
kind asks for: the text of an identifier is an identifier and no reserved word, the text of a number
is made of digits, and so on.
-/

namespace SwiftDialect

universe u

/-- A token without its place. -/
structure Lexeme where
  kind : TokenKind
  text : String := ""
  deriving DecidableEq, Repr

/-- What the token is, without its place. -/
def Token.lexeme (t : Token) : Lexeme :=
  ⟨t.kind, t.text⟩

/-- Is the text an identifier, and no reserved word? -/
def IsIdentifier (text : String) : Prop :=
  (∃ c cs, text.toList = c :: cs ∧ isIdentifierStart c ∧ ∀ d ∈ cs, isIdentifierRest d) ∧
    TokenKind.ofKeyword? text = none

/-- Does the lexeme have the shape that its kind asks for? -/
def Lexeme.Valid (x : Lexeme) : Prop :=
  match x.kind with
  | .identifier => IsIdentifier x.text
  | .integerLiteral => x.text.toList ≠ [] ∧ ∀ c ∈ x.text.toList, c.isDigit
  | .floatLiteral => ∃ whole fraction, x.text.toList = whole ++ '.' :: fraction ∧
      (∀ c ∈ whole, c.isDigit) ∧ ∀ c ∈ fraction, c.isDigit
  | .stringLiteral => ∀ c ∈ x.text.toList, c ≠ '"' ∧ c ≠ '\n'
  | .firstMarker | .lastMarker => False
  | _ => x.text = ""

/-! ### What a character can start -/

namespace CharClass

theorem start_of_letter {c : Char} (h : ofChar c = .letter) : isIdentifierStart c := by
  unfold ofChar at h
  split at h <;> try cases h
  split at h
  · assumption
  · split at h <;> cases h

theorem digit_or_point_of_digit {c : Char} (h : ofChar c = .digit) : c.isDigit ∨ c = '.' := by
  unfold ofChar at h
  split at h <;> try cases h
  split at h
  · cases h
  · split at h
    · next hd => simpa using hd
    · cases h

/-- The kinds of the tokens that are made of one or two signs. -/
def signKinds : List TokenKind :=
  [.asterisk, .equal, .notEqual, .leftParen, .rightParen, .leftCurly, .rightCurly, .minus, .plus,
   .colon, .semicolon, .slash, .percent, .greater, .less, .greaterEqual, .lessEqual]

theorem mem_of_single {c : Char} {k : TokenKind} (h : ofChar c = .single k) : k ∈ signKinds := by
  unfold ofChar at h
  split at h <;> try cases h
  all_goals first
    | decide
    | (split at h; cases h; split at h <;> cases h)

theorem mem_of_paired {c : Char} {alone : Option TokenKind} {k : TokenKind}
    (h : ofChar c = .paired alone k) : k ∈ signKinds ∧ ∀ a ∈ alone, a ∈ signKinds := by
  unfold ofChar at h
  split at h <;> try cases h
  all_goals first
    | decide
    | (split at h; cases h; split at h <;> cases h)

end CharClass

theorem Lexeme.valid_sign {k : TokenKind} (h : k ∈ CharClass.signKinds) : Lexeme.Valid ⟨k, ""⟩ := by
  revert h
  cases k <;> simp [CharClass.signKinds, Lexeme.Valid]

theorem Lexeme.valid_keyword {text : String} {k : TokenKind}
    (h : TokenKind.ofKeyword? text = some k) : Lexeme.Valid ⟨k, ""⟩ := by
  have hmem : (text, k) ∈ TokenKind.keywords := by
    obtain ⟨before, after, heq, -⟩ := List.lookup_eq_some_iff.1 h
    rw [heq]
    exact List.mem_append_right _ List.mem_cons_self
  have hall : ∀ p ∈ TokenKind.keywords, p.2.isKeyword := by decide
  have hk := hall _ hmem
  revert hk
  cases k <;> simp [TokenKind.isKeyword, Lexeme.Valid]

/-! ### What a scanner produces -/

namespace Scanner

variable {σ : Type u} [CharSource σ]

/-- The characters of a run pass the test. -/
theorem test_of_mem_takeWhile (test : Char → Bool) (q : Lookahead σ (Option Char)) :
    ∀ c ∈ (q.takeWhile test).1, test c := by
  obtain ⟨cs, hcs⟩ := Lookahead.exists_spells q
  rw [(hcs.takeWhile test).1]
  exact List.all_eq_true.1 List.all_takeWhile

theorem valid_identifier {c : Char} (hc : isIdentifierStart c) (l : Location) (s : Scanner σ) :
    (s.identifier c l).1.lexeme.Valid := by
  have hrest := test_of_mem_takeWhile isIdentifierRest s.chars
  unfold identifier
  dsimp only
  split
  · next k hk => exact Lexeme.valid_keyword hk
  · next hk => exact ⟨⟨c, _, String.toList_ofList, hc, hrest⟩, hk⟩

theorem valid_number {c : Char} (hc : c.isDigit ∨ c = '.') (l : Location) (s : Scanner σ) :
    (s.number c l).1.lexeme.Valid := by
  have hdigits := test_of_mem_takeWhile Char.isDigit s.chars
  unfold number
  by_cases hpoint : c = '.'
  · subst hpoint
    exact ⟨[], _, String.toList_ofList, fun _ h => absurd h List.not_mem_nil, hdigits⟩
  · -- without a point at its start, a number starts with a digit
    have hfirst : ∀ d ∈ c :: (s.chars.takeWhile Char.isDigit).1, d.isDigit := by
      intro d hd
      rcases List.mem_cons.1 hd with rfl | hd
      · exact hc.resolve_right hpoint
      · exact hdigits d hd
    simp only [hpoint, if_false]
    split
    · exact ⟨_, _, String.toList_ofList, hfirst, test_of_mem_takeWhile _ _⟩
    · refine ⟨?_, ?_⟩
      · simp [Token.lexeme]
      · simpa only [Token.lexeme, String.toList_ofList] using hfirst

theorem valid_string (l : Location) (s : Scanner σ) : (s.string l).1.lexeme.Valid := by
  have htext := test_of_mem_takeWhile (fun c => c != '"' && c != '\n') s.chars
  have hvalid : Lexeme.Valid ⟨.stringLiteral,
      String.ofList (s.chars.takeWhile fun c => c != '"' && c != '\n').1⟩ := by
    intro c hc
    rw [String.toList_ofList] at hc
    simpa using htext c hc
  unfold string
  dsimp only
  split
  · exact hvalid
  · exact hvalid

/-- A step yields lexemes of the right shape. -/
theorem valid_step {s : Scanner σ} {t : Token} (h : s.step.1 = some t) : t.lexeme.Valid := by
  unfold step at h
  -- one case for each class of characters; those that give no token are closed at once
  split at h
  · simp only [Option.some.injEq] at h
    rw [← h]
    rfl
  · next c chars _ =>
    dsimp only at h
    unfold stepFrom at h
    split at h
    · cases h
    · cases h
    · cases h
    · cases h
    · rw [← Option.some.inj h]
      exact valid_string _ _
    · next hc =>
      rw [← Option.some.inj h]
      exact valid_identifier (CharClass.start_of_letter hc) _ _
    · next hc =>
      rw [← Option.some.inj h]
      exact valid_number (CharClass.digit_or_point_of_digit hc) _ _
    · next hc =>
      rw [← Option.some.inj h]
      exact Lexeme.valid_sign (CharClass.mem_of_single hc)
    · next alone withEqual hc =>
      obtain ⟨hwith, halone⟩ := CharClass.mem_of_paired hc
      split at h
      · rw [← Option.some.inj h]
        exact Lexeme.valid_sign hwith
      · split at h
        · rw [← Option.some.inj h]
          exact Lexeme.valid_sign (halone _ rfl)
        · cases h
    · cases h

theorem valid_scan (s : Scanner σ) : s.scan.1.lexeme.Valid := by
  obtain ⟨s', -, hstep, -⟩ := exists_last_step (P := fun _ => True) (fun _ _ _ => trivial) s trivial
  exact valid_step hstep

/-- All tokens that a scanner produces have the right shape. -/
theorem valid_of_yields {ts : List Token} {s : Scanner σ} (h : (Lookahead.ofSource s).Yields ts) :
    ∀ t ∈ ts, t.lexeme.Valid := by
  induction ts generalizing s with
  | nil => exact fun _ ht => absurd ht List.not_mem_nil
  | cons t ts ih =>
    intro t' ht'
    rcases List.mem_cons.1 ht' with rfl | ht'
    · rw [← h.1]
      exact s.valid_scan
    · exact ih h.2 t' ht'

end Scanner

end SwiftDialect
