import SwiftDialect.Diagnostic
import SwiftDialect.Text.Quoted
import SwiftDialect.Token

/-!
# The journal of a run

While a unit is read, tokenized and parsed, every noteworthy step is entered into a journal in the
order in which it happens. The diagnostics of a run are the journal's reports, and the log is the
journal written out, one line for each event that is important enough.
-/

namespace SwiftDialect

/-- How important an event is, the least important first. -/
inductive Level where
  | trace
  | debug
  | info
  | warn
  | error
  deriving DecidableEq, Repr, Inhabited

namespace Level

/-- The place of a level in the order of importance. -/
def rank : Level → Nat
  | .trace => 0
  | .debug => 1
  | .info => 2
  | .warn => 3
  | .error => 4

/-- The name of a level in settings. -/
def name : Level → String
  | .trace => "trace"
  | .debug => "debug"
  | .info => "info"
  | .warn => "warn"
  | .error => "error"

/-- The name of a level at the start of a log line, five columns wide. -/
def label : Level → String
  | .trace => "TRACE"
  | .debug => "DEBUG"
  | .info => " INFO"
  | .warn => " WARN"
  | .error => "ERROR"

/-- Every level. -/
def all : List Level :=
  [.trace, .debug, .info, .warn, .error]

/-- The level with a given name. -/
def ofName? (name : String) : Option Level :=
  all.find? (·.name == name)

end Level

/-- A noteworthy step of a run. -/
inductive Event where
  /-- A text is about to be parsed with the default settings. -/
  | parseCalled (bytes : Nat)
  /-- A text is about to be parsed. -/
  | parsingText (name : String) (bytes : Nat)
  /-- A unit that is read piece by piece is about to be parsed. -/
  | parsingReader (name : String)
  | parsingProgram
  | parsingStatement
  | parsingExpression
  | parsedProgram (statements : Nat)
  | parseFinished (errors warnings : Nat)
  /-- A text is about to be tokenized with the default settings. -/
  | tokenizingText (name : String) (bytes : Nat)
  | tokenizedText (name : String) (tokens errors : Nat)
  | tokenized (name : String) (tokens : Nat)
  /-- The scanner has produced a token. -/
  | scanned (kind : TokenKind) (text : String)
  /-- A scope was opened; `depth` scopes are open now. -/
  | scopeOpened (depth : Nat)
  /-- A scope was closed; `depth` scopes are open now. -/
  | scopeClosed (depth : Nat)
  /-- A diagnostic was reported. -/
  | reported (diagnostic : Diagnostic)
  deriving DecidableEq, Repr, Inhabited

namespace Event

/-- The diagnostic that the event reports, if it is a report. -/
def diagnostic? : Event → Option Diagnostic
  | .reported d => some d
  | _ => none

/-- How important the event is. -/
def level : Event → Level
  | .scanned .. | .scopeOpened _ | .scopeClosed _ => .trace
  | _ => .debug

/-- What happened, in words. -/
def message : Event → String
  | .parseCalled bytes => "parse called (" ++ toString bytes ++ " bytes)"
  | .parsingText name bytes => "parsing " ++ name ++ " (" ++ toString bytes ++ " bytes)"
  | .parsingReader name => "parsing " ++ name ++ " from reader"
  | .parsingProgram => "parsing program"
  | .parsingStatement => "parsing statement"
  | .parsingExpression => "parsing expression"
  | .parsedProgram n => "parsed " ++ toString n ++ " top-level statements"
  | .parseFinished errors warnings =>
    "parse finished: " ++ toString errors ++ " errors, " ++ toString warnings ++ " warnings"
  | .tokenizingText name bytes => "tokenizing " ++ name ++ " (" ++ toString bytes ++ " bytes)"
  | .tokenizedText name tokens errors =>
    "tokenized " ++ name ++ ": " ++ toString tokens ++ " tokens, " ++ toString errors ++ " errors"
  | .tokenized name tokens => name ++ ": " ++ toString tokens ++ " tokens"
  | .scanned .. => "token"
  | .scopeOpened _ => "push scope"
  | .scopeClosed _ => "pop scope"
  | .reported d => d.display

/-- The particulars of the event, as names with values. -/
def fields : Event → List (String × String)
  | .scanned kind text => [("kind", Quoted.quote kind.name), ("text", Quoted.quote text)]
  | .scopeOpened depth | .scopeClosed depth => [("depth", toString depth)]
  | _ => []

/-- A character of a log message. Characters that could steer a terminal are written out. -/
def shownInLog (c : Char) : List Char :=
  if c.toNat = 0x1B then "\\x1b".toList
  else if c.toNat = 0x07 then "\\x07".toList
  else if c.toNat = 0x08 then "\\x08".toList
  else if c.toNat = 0x0C then "\\x0c".toList
  else if c.toNat = 0x7F then "\\x7f".toList
  else if 0x80 ≤ c.toNat ∧ c.toNat ≤ 0x9F then Quoted.codePoint c
  else [c]

/-- The log line of the event. -/
def line (e : Event) : String :=
  e.level.label ++ " " ++ String.ofList (e.message.toList.flatMap shownInLog)
    ++ String.join (e.fields.map fun (name, value) => " " ++ name ++ "=" ++ value) ++ "\n"

end Event

/-- The events of a run, in order. -/
structure Journal where
  events : Array Event := #[]
  deriving DecidableEq, Repr, Inhabited

namespace Journal

/-- The journal without entries. -/
def empty : Journal := {}

/-- Enters an event after all others. -/
def record (j : Journal) (e : Event) : Journal :=
  ⟨j.events.push e⟩

/-- Enters the report of a diagnostic. -/
def report (j : Journal) (d : Diagnostic) : Journal :=
  j.record (.reported d)

/-- The diagnostics reported so far, in order. -/
def diagnostics (j : Journal) : List Diagnostic :=
  j.events.toList.filterMap Event.diagnostic?

/-- The log: a line for each event at or above the threshold. -/
def log (j : Journal) (threshold : Level) : String :=
  String.join <| (j.events.toList.filter (threshold.rank ≤ ·.level.rank)).map Event.line

end Journal

end SwiftDialect
