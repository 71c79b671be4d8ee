import SwiftDialect.Diagnostic
import SwiftDialect.Text.Lines

/-!
# Diagnostics as text

A diagnostic is a line with its place, severity, code and message. If its place is known and the
source text is at hand, the source line follows with a mark under the column, and a hint comes last.
-/

namespace SwiftDialect

/-- How diagnostics are shown. -/
structure TextStyle where
  /-- Is the severity coloured? -/
  colors : Bool := false
  /-- Is the source line shown? -/
  showSource : Bool := true
  /-- Is the hint shown? -/
  showHelp : Bool := true
  /-- The mark under the column. -/
  indicator : Char := '^'
  deriving DecidableEq, Repr, Inhabited

namespace Severity

/-- The colour of a severity, as a terminal code. -/
def colorCode : Severity → String
  | .warning => "33"
  | .error => "31"
  | .fatal => "1;31"

/-- The severity in words, in its colour if colours are wanted. -/
def styled (style : TextStyle) (s : Severity) : String :=
  if style.colors then "\x1b[" ++ s.colorCode ++ "m" ++ s.display ++ "\x1b[0m" else s.display

end Severity

namespace Diagnostic

/-- The place that the diagnostic speaks of, if it is known. -/
def position? (d : Diagnostic) (table : LineTable) : Option FilePosition :=
  d.location.bind table.expand

/-- The line with place, severity, code and message. -/
def header (style : TextStyle) (table : LineTable) (d : Diagnostic) : String :=
  let place := match d.position? table with
    | some p => p.render ++ ": "
    | none => ""
  place ++ d.severity.styled style ++ "[" ++ d.code ++ "]: " ++ d.message ++ "\n"

/-- The source line of the diagnostic with a mark under its column. -/
def snippet? (style : TextStyle) (table : LineTable) (source : String) (d : Diagnostic) :
    Option String := do
  let p ← d.position? table
  if p.position.line = 0 then none
  else
    let line ← (Text.lines source.toList)[p.position.line - 1]?
    let padding := List.replicate (p.position.column - 1) ' '
    some (Text.padLeft 4 (toString p.position.line) ++ " | " ++ String.ofList line ++ "\n"
      ++ "     | " ++ String.ofList (padding ++ [style.indicator]) ++ "\n")

/-- The line with the hint; nothing if there is no hint. -/
def helpLine (d : Diagnostic) : String :=
  if d.help.isEmpty then "" else "     = help: " ++ d.help ++ "\n"

/-- The diagnostic as text. -/
def toText (style : TextStyle) (table : LineTable) (source : Option String) (d : Diagnostic) :
    String :=
  let snippet := if style.showSource then source.bind (d.snippet? style table) else none
  d.header style table ++ snippet.getD "" ++ if style.showHelp then d.helpLine else ""

/-- The diagnostics as text, one after the other. -/
def listToText (style : TextStyle) (table : LineTable) (source : Option String)
    (ds : List Diagnostic) : String :=
  String.join (ds.map (toText style table source))

end Diagnostic

end SwiftDialect
