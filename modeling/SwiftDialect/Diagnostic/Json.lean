import SwiftDialect.Diagnostic.Text
import SwiftDialect.Json

/-!
# Diagnostics as JSON

A diagnostic is an object with its place spelt out; the fields of an unknown place are `null`, and a
hint is written only if there is one.
-/

namespace SwiftDialect.Diagnostic

/-- The diagnostic with its place spelt out. -/
def toJson (table : LineTable) (d : Diagnostic) : Json :=
  let p := d.position? table
  .object <|
    [("severity", .string d.severity.tag), ("code", .string d.code),
     ("message", .string d.message)]
    ++ (if d.help.isEmpty then [] else [("help", .string d.help)])
    ++ [("file", .option (.string ·.file) p), ("line", .option (.nat ·.position.line) p),
        ("column", .option (.nat ·.position.column) p)]

/-- The diagnostic on a line of its own. -/
def toJsonLine (table : LineTable) (d : Diagnostic) : String :=
  (d.toJson table).compact ++ "\n"

/-- The diagnostics as one array, laid out for reading. -/
def listToJson (table : LineTable) (ds : List Diagnostic) : String :=
  (Json.array (ds.map (toJson table))).pretty

end SwiftDialect.Diagnostic
