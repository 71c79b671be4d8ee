import SwiftDialect.Diagnostic.Problem
import SwiftDialect.Journal
import SwiftDialect.Source

/-!
# The scanner

The scanner turns characters into tokens. One *step* looks at the next character and passes over a
blank, a comment or a character that starts no token, or else reads a whole token, always the
longest one that starts there. A token is what the first step that yields one yields.

Along the way the scanner registers line starts, reports what it cannot read, and keeps count of the
column. At the end of the input it yields the same end token over and over.
-/

namespace SwiftDialect

universe u

/-- What a character can start. -/
inductive CharClass where
  | newline
  | space
  | tab
  /-- The start of a comment, which lasts to the end of its line. -/
  | hash
  | quote
  /-- The start of an identifier or reserved word. -/
  | letter
  /-- The start of a number. -/
  | digit
  /-- A token by itself. -/
  | single (kind : TokenKind)
  /-- A character that forms one token with a following equals sign, and perhaps another without. -/
  | paired (alone : Option TokenKind) (withEqual : TokenKind)
  /-- A character that starts no token. -/
  | other
  deriving DecidableEq, Repr

/-- Can the character start an identifier? -/
def isIdentifierStart (c : Char) : Bool :=
  c.isAlpha || c == '_'

/-- Can the character continue an identifier? -/
def isIdentifierRest (c : Char) : Bool :=
  c.isAlphanum || c == '_'

/-- What the character can start. -/
def CharClass.ofChar (c : Char) : CharClass :=
  match c with
  | '\n' => .newline
  | ' ' => .space
  | '\t' => .tab
  | '#' => .hash
  | '"' => .quote
  | '*' => .single .asterisk
  | '=' => .single .equal
  | '(' => .single .leftParen
  | ')' => .single .rightParen
  | '{' => .single .leftCurly
  | '}' => .single .rightCurly
  | '-' => .single .minus
  | '+' => .single .plus
  | ':' => .single .colon
  | ';' => .single .semicolon
  | '/' => .single .slash
  | '%' => .single .percent
  | '<' => .paired (some .less) .lessEqual
  | '>' => .paired (some .greater) .greaterEqual
  | '!' => .paired none .notEqual
  | c =>
    if isIdentifierStart c then .letter
    else if c.isDigit || c == '.' then .digit
    else .other

/-- A scanner in the middle of a unit. -/
structure Scanner (σ : Type u) where
  /-- The characters to come. -/
  chars : Lookahead σ (Option Char)
  /-- The line starts registered so far. -/
  lines : LineTable
  /-- What has happened so far. -/
  journal : Journal
  /-- The line of the next character. -/
  line : Nat := 1
  /-- The column of the next character. -/
  column : Nat := 1
  /-- How many columns a tab advances. -/
  tabWidth : Nat

/-- How many columns a tab advances unless settings say otherwise. -/
def defaultTabWidth : Nat := 8

namespace Scanner

variable {σ : Type u}

/-- A scanner at the start of a unit called `name`. -/
def start (name : String) (source : σ) (tabWidth : Nat) (journal : Journal) : Scanner σ where
  chars := .ofSource source
  lines := LineTable.empty.enterFile name
  journal := journal
  tabWidth := tabWidth

/-- Enters an event into the journal. -/
def record (e : Event) (s : Scanner σ) : Scanner σ :=
  { s with journal := s.journal.record e }

/-- Reports a problem at a place. -/
def report (p : Problem) (location : Location) (s : Scanner σ) : Scanner σ :=
  s.record (.reported (p.diagnose location))

/-- The location of the next character. -/
def here (s : Scanner σ) : Location × Scanner σ :=
  let (location, lines) := s.lines.locate s.column
  (location, { s with lines })

/-- Moves on by some columns. -/
def advance (columns : Nat) (s : Scanner σ) : Scanner σ :=
  { s with column := stickyAdd s.column columns }

/-- Moves on to the first column of the next line. -/
def newLine (s : Scanner σ) : Scanner σ :=
  let line := stickyAdd s.line 1
  { s with line, column := 1, lines := s.lines.startLine line }

variable [CharSource σ]

/-- Passes over the rest of a comment, up to its line end. -/
def comment (s : Scanner σ) : Scanner σ :=
  let (text, chars) := s.chars.takeWhile (· != '\n')
  { s with chars }.advance (1 + text.length)

/-- Reads the rest of an identifier or reserved word. -/
def identifier (first : Char) (location : Location) (s : Scanner σ) : Token × Scanner σ :=
  let (rest, chars) := s.chars.takeWhile isIdentifierRest
  let text := String.ofList (first :: rest)
  let token := match TokenKind.ofKeyword? text with
    | some kind => { kind, location }
    | none => { kind := .identifier, location, text }
  (token, { s with chars }.advance (1 + rest.length))

/-- Reads the rest of a number: digits with at most one point among them. -/
def number (first : Char) (location : Location) (s : Scanner σ) : Token × Scanner σ :=
  let (digits, chars) := s.chars.takeWhile Char.isDigit
  -- a number that starts with its point has no other
  let (point, chars) := if first = '.' then (false, chars) else chars.eat '.'
  if point then
    let (fraction, chars) := chars.takeWhile Char.isDigit
    let text := String.ofList (first :: digits ++ '.' :: fraction)
    ({ kind := .floatLiteral, location, text },
      { s with chars }.advance (2 + digits.length + fraction.length))
  else
    let kind := if first = '.' then .floatLiteral else .integerLiteral
    ({ kind, location, text := String.ofList (first :: digits) },
      { s with chars }.advance (1 + digits.length))

/-- Reads the rest of a string literal. There are no escapes; a line end or the end of the input
cuts the literal off, which is reported where it happens. -/
def string (location : Location) (s : Scanner σ) : Token × Scanner σ :=
  let (text, chars) := s.chars.takeWhile fun c => c != '"' && c != '\n'
  let (closed, chars) := chars.eat '"'
  let token := { kind := .stringLiteral, location, text := String.ofList text }
  if closed then (token, { s with chars }.advance (2 + text.length))
  else
    -- a line feed is left for the next step, which counts the line
    let (place, s) := ({ s with chars }.advance (1 + text.length)).here
    (token, s.report .unendedString place)

/-- What follows a first character that has already been consumed: a token, or `none` if the
character and what belongs to it are passed over. -/
def stepFrom (c : Char) (location : Location) (s : Scanner σ) : Option Token × Scanner σ :=
  match CharClass.ofChar c with
  | .newline => (none, s.newLine)
  | .space => (none, s.advance 1)
  | .tab => (none, s.advance s.tabWidth)
  | .hash => (none, s.comment)
  | .quote => let (token, s) := s.string location; (some token, s)
  | .letter => let (token, s) := s.identifier c location; (some token, s)
  | .digit => let (token, s) := s.number c location; (some token, s)
  | .single kind => (some { kind, location }, s.advance 1)
  | .paired alone withEqual =>
    match s.chars.eat '=' with
    | (true, chars) => (some { kind := withEqual, location }, { s with chars }.advance 2)
    | (false, chars) =>
      let s := { s with chars }.advance 1
      match alone with
      | some kind => (some { kind, location }, s)
      | none => (none, s.report (.unexpectedCharacter c) location)
  | .other => (none, (s.report (.unexpectedCharacter c) location).advance 1)

/-- One step: a token, or `none` if a character was passed over. -/
def step (s : Scanner σ) : Option Token × Scanner σ :=
  match s.chars.pop with
  | (none, chars) =>
    let (location, s) := s.here
    -- the end is put back, so the source is not asked again
    (some { kind := .endOfFile, location }, { s with chars := chars.unread none })
  | (some c, chars) =>
    let (location, s) := s.here
    { s with chars }.stepFrom c location

/-! ### Every step but the last uses up characters -/

theorem charsLeft_comment_le (s : Scanner σ) : s.comment.chars.charsLeft ≤ s.chars.charsLeft :=
  Lookahead.charsLeft_takeWhile_le _ s.chars

theorem charsLeft_identifier_le (first : Char) (location : Location) (s : Scanner σ) :
    (s.identifier first location).2.chars.charsLeft ≤ s.chars.charsLeft :=
  Lookahead.charsLeft_takeWhile_le _ s.chars

theorem charsLeft_number_le (first : Char) (location : Location) (s : Scanner σ) :
    (s.number first location).2.chars.charsLeft ≤ s.chars.charsLeft := by
  have digits := Lookahead.charsLeft_takeWhile_le Char.isDigit s.chars
  have point := Lookahead.charsLeft_eat_le '.' (s.chars.takeWhile Char.isDigit).2
  have fraction := Lookahead.charsLeft_takeWhile_le Char.isDigit
    ((s.chars.takeWhile Char.isDigit).2.eat '.').2
  unfold number
  by_cases h : first = '.'
  · simpa [h, advance] using digits
  · simp only [h, if_false]
    split <;> simp only [advance] <;> omega

theorem charsLeft_string_le (location : Location) (s : Scanner σ) :
    (s.string location).2.chars.charsLeft ≤ s.chars.charsLeft := by
  have text := Lookahead.charsLeft_takeWhile_le (fun c => c != '"' && c != '\n') s.chars
  have quote := Lookahead.charsLeft_eat_le '"'
    (s.chars.takeWhile fun c => c != '"' && c != '\n').2
  unfold string
  dsimp only
  split
  · simp only [advance]
    omega
  · simp only [report, record, here, advance]
    omega

/-- What follows the first character never gives characters back. -/
theorem charsLeft_stepFrom_le (c : Char) (location : Location) (s : Scanner σ) :
    (s.stepFrom c location).2.chars.charsLeft ≤ s.chars.charsLeft := by
  have equal := Lookahead.charsLeft_eat_le '=' s.chars
  unfold stepFrom
  split
  · exact Nat.le_refl _
  · exact Nat.le_refl _
  · exact Nat.le_refl _
  · exact charsLeft_comment_le s
  · exact charsLeft_string_le location s
  · exact charsLeft_identifier_le c location s
  · exact charsLeft_number_le c location s
  · exact Nat.le_refl _
  · split
    · next eaten => rw [eaten] at equal; exact equal
    · next eaten =>
      rw [eaten] at equal
      split <;> exact equal
  · exact Nat.le_refl _

/-- A step that passes over something uses up characters. -/
theorem charsLeft_step_lt {s : Scanner σ} (h : s.step.1 = none) :
    s.step.2.chars.charsLeft < s.chars.charsLeft := by
  unfold step at h ⊢
  split
  · next chars popped => simp [popped] at h
  · next c chars popped =>
    have used := Lookahead.charsLeft_pop_lt (q := s.chars) (c := c) (by rw [popped])
    have kept := charsLeft_stepFrom_le c s.here.1 { s.here.2 with chars }
    rw [popped] at used
    simp only [here] at used kept ⊢
    omega

/-- Reads the next token: steps until one yields a token. -/
def scan (s : Scanner σ) : Token × Scanner σ :=
  match h : s.step.1 with
  | some token => (token, s.step.2)
  | none =>
    have := charsLeft_step_lt h
    scan s.step.2
termination_by s.chars.charsLeft

/-- A scanner produces tokens, and each one is entered into the journal. -/
instance : Producer (Scanner σ) Token where
  next s :=
    let (token, s) := s.scan
    (token, s.record (.scanned token.kind token.text))

end Scanner

end SwiftDialect
