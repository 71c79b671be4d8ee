import SwiftDialect.Location
import SwiftDialect.Diagnostic.Template

/-!
# Diagnostics

A diagnostic is what a user is told about a program: how serious it is, a registered code, a
message, perhaps a hint, and the place it speaks of. Diagnostics are made from drafts, which pair a
message template with the values for its holes.
-/

namespace SwiftDialect

/-- How serious a diagnostic is. -/
inductive Severity where
  | warning
  /-- The input is wrong, but the work goes on. -/
  | error
  /-- The input unit cannot be processed further. -/
  | fatal
  deriving DecidableEq, Repr, Inhabited

namespace Severity

/-- Errors and fatal errors both fail the unit. -/
def isError : Severity → Bool
  | .warning => false
  | .error | .fatal => true

/-- The severity in words. -/
def display : Severity → String
  | .warning => "warning"
  | .error => "error"
  | .fatal => "fatal error"

/-- The severity as a one-word tag. -/
def tag : Severity → String
  | .warning => "warning"
  | .error => "error"
  | .fatal => "fatal"

/-- The more serious of two severities. -/
def max : Severity → Severity → Severity
  | .fatal, _ | _, .fatal => .fatal
  | .error, _ | _, .error => .error
  | .warning, .warning => .warning

end Severity

/-- What a user is told. -/
structure Diagnostic where
  severity : Severity
  /-- The registered code. -/
  code : String
  message : String
  /-- A hint; empty if there is none. -/
  help : String := ""
  location : Option Location := none
  deriving DecidableEq, Repr, Inhabited

namespace Diagnostic

/-- Does this diagnostic fail the unit? -/
def isError (d : Diagnostic) : Bool :=
  d.severity.isError

/-- Severity, code and message on one line. -/
def display (d : Diagnostic) : String :=
  d.severity.display ++ "[" ++ d.code ++ "]: " ++ d.message

/-- How many of the diagnostics fail the unit. -/
def errorCount (ds : List Diagnostic) : Nat :=
  ds.countP isError

/-- How many of the diagnostics are only warnings. -/
def warningCount (ds : List Diagnostic) : Nat :=
  ds.countP (!·.isError)

/-- Does any of the diagnostics fail the unit? -/
def hasErrors (ds : List Diagnostic) : Bool :=
  ds.any isError

/-- Is any of the diagnostics fatal? -/
def hasFatal (ds : List Diagnostic) : Bool :=
  ds.any (·.severity == .fatal)

/-- The first diagnostic that fails the unit. -/
def firstError? (ds : List Diagnostic) : Option Diagnostic :=
  ds.find? isError

/-- The most serious severity among the diagnostics. -/
def maxSeverity? (ds : List Diagnostic) : Option Severity :=
  ds.foldl (fun worst d => some ((worst.map (·.max d.severity)).getD d.severity)) none

end Diagnostic

/-- A diagnostic in the making: a template, the values for its holes, and what else is known. -/
structure Draft where
  code : String
  severity : Severity
  template : String
  params : Template.Params := []
  help : String := ""
  location : Option Location := none
  deriving DecidableEq, Repr, Inhabited

namespace Draft

/-- Adds values after those already given. -/
def withParams (d : Draft) (params : Template.Params) : Draft :=
  { d with params := d.params ++ params }

/-- Sets the place. -/
def located (d : Draft) (location : Location) : Draft :=
  { d with location := some location }

/-- Sets the hint. -/
def withHelp (d : Draft) (help : String) : Draft :=
  { d with help }

/-- The finished diagnostic. -/
def build (d : Draft) : Diagnostic where
  severity := d.severity
  code := d.code
  message := Template.fill d.params d.template
  help := d.help
  location := d.location

end Draft

end SwiftDialect
