import SwiftDialect.FileTree
import SwiftDialect.Parser.Statement

/-!
# Analysing a unit

A unit is a named text, or a named reader of bytes. It can be tokenized, or tokenized and parsed in
one pass. Either way the outcome holds what was found, the journal of the run and the line table
that explains its locations. A unit whose reading fails part way through keeps what was found before
the failure, except that it is no program.
-/

namespace SwiftDialect

/-- Why a unit has no program to offer. -/
inductive UnitError where
  /-- The unit cannot be opened. -/
  | cannotOpen (diagnostic : Diagnostic)
  /-- The unit was read, and something is wrong with it. -/
  | faulty (diagnostics : List Diagnostic)
  deriving DecidableEq, Repr, Inhabited

/-- The error in words: the first thing that is wrong, and how many there are. -/
def UnitError.message : UnitError → String
  | .cannotOpen d => d.display
  | .faulty ds =>
    match Diagnostic.firstError? ds with
    | some first =>
      first.display ++ " (" ++ toString (Diagnostic.errorCount ds) ++ " error(s) in total)"
    | none => "parsing failed"

/-- The outcome of tokenizing a unit. -/
structure Tokenized where
  /-- The tokens; the last one is the only end token. -/
  tokens : List Token
  journal : Journal
  lines : LineTable
  deriving DecidableEq, Repr, Inhabited

/-- What was reported, in order. -/
def Tokenized.diagnostics (t : Tokenized) : List Diagnostic :=
  t.journal.diagnostics

/-- The outcome of parsing a unit. -/
structure Parsed where
  /-- The program, unless the unit was rejected. -/
  program : Option Program
  journal : Journal
  lines : LineTable
  deriving Repr, Inhabited

namespace Parsed

/-- What was reported, in order. -/
def diagnostics (p : Parsed) : List Diagnostic :=
  p.journal.diagnostics

/-- Is anything wrong with the unit? -/
def hasErrors (p : Parsed) : Bool :=
  p.program.isNone || Diagnostic.hasErrors p.diagnostics

/-- The program, unless anything is wrong with the unit. -/
def result (p : Parsed) : Except UnitError Program :=
  match p.program with
  | some program =>
    if Diagnostic.hasErrors p.diagnostics then .error (.faulty p.diagnostics) else .ok program
  | none => .error (.faulty p.diagnostics)

end Parsed

namespace Analysis

/-- Reports a failure to read, if there was one. -/
def reportFailure (name : String) (failure : Option String) (journal : Journal) : Journal :=
  match failure with
  | some reason => journal.report (Problem.readFailed name reason).draft.build
  | none => journal

variable {σ : Type} [CharSource σ]

/-- Tokenizes the unit called `name`. -/
def tokenize (name : String) (source : σ) (tabWidth : Nat) : Tokenized :=
  let (tokens, lexer) := (Lexer.start name source tabWidth .empty).readAll
  let journal := reportFailure name (Lexer.takeFailure lexer).1 lexer.source.journal
  { tokens, journal := journal.record (.tokenized name tokens.length), lines := lexer.source.lines }

/-- The program that a procedure came to, if it came to one. -/
def programOf : Except Stop Program → Option Program
  | .ok program => some program
  | .error _ => none

/-- Parses the unit called `name`; the journal holds what happened before. -/
def parse (name : String) (source : σ) (tabWidth : Nat) (journal : Journal) : Parsed :=
  let (outcome, parser) := Parse.program { tokens := Lexer.start name source tabWidth journal }
  let failure := (Lexer.takeFailure parser.tokens).1
  let journal := reportFailure name failure parser.tokens.source.journal
  let errors := Diagnostic.errorCount journal.diagnostics
  let warnings := Diagnostic.warningCount journal.diagnostics
  { program := if failure.isSome then none else programOf outcome
    journal := journal.record (.parseFinished errors warnings)
    lines := parser.tokens.source.lines }

end Analysis

/-! ### Texts in memory -/

/-- The name of a text that has none of its own. -/
def anonymousUnit : String := "<input>"

/-- Tokenizes a text. -/
def tokenizeText (name text : String) (tabWidth : Nat) : Tokenized :=
  Analysis.tokenize name text.toList tabWidth

/-- Parses a text, after what the journal holds. -/
def parseTextAfter (journal : Journal) (name text : String) (tabWidth : Nat) : Parsed :=
  Analysis.parse name text.toList tabWidth
    (journal.record (.parsingText name text.utf8ByteSize))

/-- Parses a text. -/
def parseText (name text : String) (tabWidth : Nat) : Parsed :=
  parseTextAfter .empty name text tabWidth

/-- Lists the tokens of a text and what is wrong with them, and nothing else. -/
def listTokens (name text : String) (tabWidth : Nat) : List Token × Journal :=
  let journal := Journal.empty.record (.tokenizingText name text.utf8ByteSize)
  let (tokens, lexer) := (Lexer.start name text.toList tabWidth journal).readAll
  let errors := Diagnostic.errorCount lexer.source.journal.diagnostics
  (tokens, lexer.source.journal.record (.tokenizedText name tokens.length errors))

/-- Parses an unnamed text with the default settings. -/
def parseUnnamed (text : String) : Parsed :=
  parseTextAfter (Journal.empty.record (.parseCalled text.utf8ByteSize)) anonymousUnit text
    defaultTabWidth

/-! ### Readers -/

/-- Tokenizes what a reader brings. -/
def tokenizeReader (name : String) (reader : Reader) (tabWidth : Nat) : Tokenized :=
  Analysis.tokenize name reader tabWidth

/-- Parses what a reader brings. -/
def parseReader (name : String) (reader : Reader) (tabWidth : Nat) : Parsed :=
  Analysis.parse name reader tabWidth (Journal.empty.record (.parsingReader name))

/-! ### Files -/

/-- The reader of a file. A unit that cannot be opened has a fatal diagnostic without a place. -/
def openUnit (path : String) : Opening → Except UnitError Reader
  | .missing reason => .error (.cannotOpen (Problem.cannotOpen path reason).draft.build)
  | .closed reason => .error (.cannotOpen (Problem.cannotOpen path reason).draft.build)
  | .opened reader => .ok reader

/-- Tokenizes the file called `path`. -/
def tokenizeFile (path : String) (opening : Opening) (tabWidth : Nat) :
    Except UnitError Tokenized := do
  return tokenizeReader path (← openUnit path opening) tabWidth

/-- Parses the file called `path`. -/
def parseFile (path : String) (opening : Opening) (tabWidth : Nat) : Except UnitError Parsed := do
  return parseReader path (← openUnit path opening) tabWidth

/-- The program of the file called `path`, with the default settings. -/
def loadProgram (path : String) (opening : Opening) : Except UnitError Program := do
  (← parseFile path opening defaultTabWidth).result

end SwiftDialect
