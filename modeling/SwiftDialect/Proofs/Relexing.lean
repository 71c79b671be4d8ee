import SwiftDialect.Proofs.RoundTrip
import SwiftDialect.Proofs.Segments

/-!
# Lexing undoes spelling

What a list of lexemes must be like to be spelled is said character by character, without the scanner:
names, runs of digits, digits around one point, texts without quotes and line ends, and the kinds that
have one spelling only.

Main statement: such a list is what tokenizing its spelling gives back, and whatever is tokenized gives
such a list (`lexing_undoes_spelling`).
-/

namespace SwiftDialect

/-- Is the text a letter or underscore, and then letters, underscores and digits? -/
def IsName (text : String) : Prop :=
  ∃ first more, text.toList = first :: more ∧ IsLetter first ∧ ∀ c ∈ more, IsLetter c ∨ IsDigit c

/-- Is the text that of a reserved word? -/
def IsReserved (text : String) : Prop :=
  ∃ kind : TokenKind, kind.isKeyword ∧ kind.description = text

/-- Can the lexeme be told from its spelling? -/
def Lexeme.Spellable (x : Lexeme) : Prop :=
  match x.kind with
  | .identifier => IsName x.text ∧ ¬ IsReserved x.text
  | .integerLiteral => x.text ≠ "" ∧ ∀ c ∈ x.text.toList, IsDigit c
  | .floatLiteral => (∀ c ∈ x.text.toList, IsDigit c ∨ c = '.') ∧ x.text.toList.count '.' = 1
  | .stringLiteral => '"' ∉ x.text.toList ∧ '\n' ∉ x.text.toList
  | kind => (kind ∈ CharClass.signKinds ∨ kind.isKeyword) ∧ x.text = ""

/-- The lexemes in a row, with single spaces between them. -/
def Lexeme.spelled (xs : List Lexeme) : String :=
  String.ofList (written xs)

/-! ### What can be told from its spelling can be written -/

theorem ofKeyword?_eq_none_iff (text : String) : TokenKind.ofKeyword? text = none ↔ ¬ IsReserved text := by
  rw [TokenKind.ofKeyword?, List.lookup_eq_none_iff]
  constructor
  · rintro h ⟨kind, hkey, rfl⟩
    have hmem : (kind.description, kind) ∈ TokenKind.keywords := by
      revert hkey
      cases kind <;> decide
    simpa using h _ hmem
  · intro h p hp
    obtain ⟨kind, hkind, rfl⟩ := List.mem_map.1 hp
    have hkey : kind.isKeyword := (List.mem_filter.1 hkind).2
    exact bne_iff_ne.2 fun heq => h ⟨kind, hkey, heq.symm⟩

theorem isIdentifier_iff (text : String) : IsIdentifier text ↔ IsName text ∧ ¬ IsReserved text := by
  simp only [IsIdentifier, IsName, ofKeyword?_eq_none_iff, isIdentifierStart_iff, isIdentifierRest_iff]

/-- Digits around a point are digits and points of which there is one. -/
theorem digits_around_point_iff (cs : List Char) :
    (∃ whole fraction, cs = whole ++ '.' :: fraction ∧ (∀ c ∈ whole, IsDigit c) ∧
      ∀ c ∈ fraction, IsDigit c) ↔ (∀ c ∈ cs, IsDigit c ∨ c = '.') ∧ cs.count '.' = 1 := by
  have hpoint : ¬ IsDigit '.' := fun h => absurd (isDigit_iff.2 h) (by decide)
  constructor
  · rintro ⟨whole, fraction, rfl, hwhole, hfraction⟩
    refine ⟨?_, ?_⟩
    · simp only [List.mem_append, List.mem_cons]
      rintro c (hc | rfl | hc)
      · exact .inl (hwhole c hc)
      · exact .inr rfl
      · exact .inl (hfraction c hc)
    · rw [List.count_append, List.count_cons_self,
        List.count_eq_zero_of_not_mem fun h => hpoint (hwhole _ h),
        List.count_eq_zero_of_not_mem fun h => hpoint (hfraction _ h)]
  · rintro ⟨hcs, hcount⟩
    -- the one point cuts the digits in two, and neither part has another
    obtain ⟨whole, fraction, rfl⟩ := List.append_of_mem (List.count_pos_iff.1 (by omega : 0 < cs.count '.'))
    rw [List.count_append, List.count_cons_self] at hcount
    have hwhole : '.' ∉ whole := List.count_eq_zero.1 (by omega)
    have hfraction : '.' ∉ fraction := List.count_eq_zero.1 (by omega)
    refine ⟨whole, fraction, rfl, fun c hc => ?_, fun c hc => ?_⟩
    · exact (hcs c (by simp [hc])).resolve_right fun heq => hwhole (heq ▸ hc)
    · exact (hcs c (by simp [hc])).resolve_right fun heq => hfraction (heq ▸ hc)

/-- What the scanner can read back is what can be told from its spelling. -/
theorem Lexeme.writable_iff_spellable (x : Lexeme) : x.Writable ↔ x.Spellable := by
  obtain ⟨kind, text⟩ := x
  have hempty : text.toList = [] ↔ text = "" := String.toList_eq_nil_iff
  cases kind with
  | identifier => simp [Writable, Valid, Spellable, isIdentifier_iff]
  | integerLiteral => simp [Writable, Valid, Spellable, isDigit_iff, hempty]
  | floatLiteral => simp [Writable, Valid, Spellable, isDigit_iff, digits_around_point_iff]
  | stringLiteral =>
    simp only [Writable, Valid, Spellable]
    grind
  | _ => simp [Writable, Valid, Spellable, CharClass.signKinds, TokenKind.isKeyword]

/-! ### Tokenizing -/

/-- Tokenizing what was spelled gives it back, and reports nothing. -/
theorem tokenizeText_spelled {xs : List Lexeme} (h : ∀ x ∈ xs, x.Writable) (name : String)
    (tabWidth : Nat) :
    (tokenizeText name (Lexeme.spelled xs) tabWidth).tokens.map Token.lexeme =
        xs ++ [⟨.endOfFile, ""⟩] ∧
      (tokenizeText name (Lexeme.spelled xs) tabWidth).diagnostics = [] := by
  obtain ⟨body, eof, hread, -, hbody, heof⟩ := exists_text h name tabWidth .empty
  have hsnd := Lookahead.readToEnd_snd (Lexer.start name (Lexeme.written xs) tabWidth .empty).tokensLeft
    (Lexer.start name (Lexeme.written xs) tabWidth .empty)
  have hquiet := Lexer.takeFailure_text name (Lexeme.written xs) tabWidth .empty
  -- nothing that is spelled is reported, and skipping tokens reports nothing either
  have hclean := Lexer.diagnostics_play (q := Lexer.start name (Lexeme.written xs) tabWidth .empty)
    (List.replicate (body ++ [eof]).length .skip) ⟨xs, .inl (Lookahead.spells_text _), h⟩
  have hreports : reports (List.replicate (body ++ [eof]).length .skip) = [] := by
    simp [reports]
  rw [← Lookahead.readAll, hread] at hsnd
  simp only [tokenizeText, Lexeme.spelled, String.toList_ofList, Analysis.tokenize,
    Tokenized.diagnostics, hread, hsnd, hquiet, Analysis.reportFailure, Journal.diagnostics_record,
    hclean, hreports]
  exact ⟨by simp [hbody, heof], rfl⟩

/-- The tokens of a text are lexemes that can be written, and the end. -/
theorem exists_writable_of_tokenizeText (name text : String) (tabWidth : Nat) :
    ∃ xs, (tokenizeText name text tabWidth).tokens.map Token.lexeme = xs ++ [⟨.endOfFile, ""⟩] ∧
      ∀ x ∈ xs, x.Writable := by
  obtain ⟨body, eof, hread, hend, hvalid⟩ := Lexer.readAll_start name text.toList tabWidth .empty
  have heof : eof.lexeme = ⟨.endOfFile, ""⟩ := by
    have := hvalid eof (List.mem_append_right _ List.mem_cons_self)
    rw [Token.lexeme, hend.eof_kind] at this ⊢
    rw [show eof.text = "" from this]
  refine ⟨body.map Token.lexeme, ?_, ?_⟩
  · simp only [tokenizeText, Analysis.tokenize, hread, List.map_append, List.map_cons, List.map_nil, heof]
  · intro x hx
    obtain ⟨t, ht, rfl⟩ := List.mem_map.1 hx
    exact ⟨hvalid t (List.mem_append_left _ ht), hend.body_kind t ht⟩

/-- Lexemes that can be told from their spelling are what tokenizing their spelling gives back, without
a diagnostic; and the tokens of any text, whatever is wrong with it, are such lexemes and the end. -/
theorem lexing_undoes_spelling (name : String) (tabWidth : Nat) :
    (∀ xs : List Lexeme, (∀ x ∈ xs, x.Spellable) →
      (tokenizeText name (Lexeme.spelled xs) tabWidth).tokens.map Token.lexeme =
          xs ++ [⟨.endOfFile, ""⟩] ∧
        (tokenizeText name (Lexeme.spelled xs) tabWidth).diagnostics = []) ∧
    ∀ text, ∃ xs : List Lexeme,
      (tokenizeText name text tabWidth).tokens.map Token.lexeme = xs ++ [⟨.endOfFile, ""⟩] ∧
      (∀ x ∈ xs, x.Spellable) ∧
      (tokenizeText name (Lexeme.spelled xs) tabWidth).tokens.map Token.lexeme =
        (tokenizeText name text tabWidth).tokens.map Token.lexeme := by
  simp only [← Lexeme.writable_iff_spellable]
  refine ⟨fun xs h => tokenizeText_spelled h name tabWidth, fun text => ?_⟩
  obtain ⟨xs, htokens, hxs⟩ := exists_writable_of_tokenizeText name text tabWidth
  exact ⟨xs, htokens, hxs, (tokenizeText_spelled hxs name tabWidth).1.trans htokens.symm⟩

/-- One lexeme of each sort: a name that begins like a reserved word, numbers with and without digits on
either side of a point, a string that looks like a comment, a sign of two characters. -/
def assorted : List Lexeme :=
  [⟨.identifier, "let_1"⟩, ⟨.integerLiteral, "007"⟩, ⟨.floatLiteral, "."⟩, ⟨.floatLiteral, "1."⟩,
   ⟨.stringLiteral, " # 'x"⟩, ⟨.lessEqual, ""⟩, ⟨.kwLet, ""⟩]

theorem lexing_undoes_spelling_of_assorted :
    Lexeme.spelled assorted = "let_1 007 . 1. \" # 'x\" <= let" ∧
      (∀ x ∈ assorted, x.Spellable) ∧
      (tokenizeText "unit" (Lexeme.spelled assorted) 8).tokens.map Token.lexeme =
        assorted ++ [⟨.endOfFile, ""⟩] ∧
      (tokenizeText "unit" (Lexeme.spelled assorted) 8).diagnostics = [] := by
  have hname : IsName "let_1" := ⟨'l', "et_1".toList, rfl, by simp [IsLetter], by simp [IsLetter, IsDigit]⟩
  have hfree : ¬ IsReserved "let_1" := (ofKeyword?_eq_none_iff _).1 (by decide)
  have hspellable : ∀ x ∈ assorted, x.Spellable := by
    simp [assorted, Lexeme.Spellable, hname, hfree, IsDigit, CharClass.signKinds, TokenKind.isKeyword]
  exact ⟨by decide, hspellable, (lexing_undoes_spelling "unit" 8).1 assorted hspellable⟩

end SwiftDialect
