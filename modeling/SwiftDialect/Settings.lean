import SwiftDialect.FileTree
import SwiftDialect.Journal
import SwiftDialect.Scanner
import SwiftDialect.Text.Utf8
import SwiftDialect.Toml.Document

/-!
# Settings

The settings of a run are read from a document. Each has a default and may be left out; keys that
name no setting are passed over. A group of settings is a table, or a list with its settings in
order.
-/

namespace SwiftDialect

/-- The form in which diagnostics are printed. -/
inductive DiagnosticFormat where
  | text
  | json
  deriving DecidableEq, Repr, Inhabited

namespace DiagnosticFormat

/-- The name of a form in settings. -/
def name : DiagnosticFormat → String
  | .text => "text"
  | .json => "json"

/-- Every form. -/
def all : List DiagnosticFormat :=
  [.text, .json]

end DiagnosticFormat

/-- How diagnostics are printed. -/
structure DiagnosticSettings where
  format : DiagnosticFormat := .text
  colors : Bool := false
  showSource : Bool := true
  showHelp : Bool := true
  deriving DecidableEq, Repr, Inhabited

/-- The settings of a run. -/
structure Settings where
  /-- The columns that a tab takes. -/
  tabWidth : Nat := defaultTabWidth
  diagnostics : DiagnosticSettings := {}
  /-- Events below this level stay out of the log. -/
  logLevel : Level := .warn
  deriving DecidableEq, Repr, Inhabited

/-! ### Decoding -/

namespace Toml

/-- A member of a group, by its name in a table or by its place in a list. A date is a group without
members; other values are no groups. -/
def member (place : Nat) (name : String) : Toml → Option (Option Toml)
  | .table entries => some (entries.lookup name)
  | .array items => some items[place]?
  | .datetime => some none
  | _ => none

/-- Decodes a member of a group, with a default for one that is left out. -/
def memberD {α : Type} (group : Toml) (place : Nat) (name : String) (default : α)
    (decode : Toml → Option α) : Option α := do
  match ← group.member place name with
  | none => some default
  | some value => decode value

/-- A truth value. -/
def toBool? : Toml → Option Bool
  | .boolean value => some value
  | _ => none

/-- A count is at most `counterLimit`. -/
def toCount? : Toml → Option Nat
  | .integer (.ofNat n) => if n ≤ counterLimit then some n else none
  | _ => none

/-- Is it a table or a list with nothing in it? -/
def isVoid : Toml → Bool
  | .table entries => entries.isEmpty
  | .array items => items.isEmpty
  | _ => false

/-- One of several things by its name. The name may also be the only key of a table, with nothing
under it. -/
def toChoice? {α : Type} (name : α → String) (choices : List α) : Toml → Option α
  | .string text => choices.find? (name · == text)
  | .table [(key, value)] => if value.isVoid then choices.find? (name · == key) else none
  | _ => none

/-- The settings for diagnostics. -/
def toDiagnosticSettings? (group : Toml) : Option DiagnosticSettings := do
  let format ← group.memberD 0 "format" .text (toChoice? DiagnosticFormat.name DiagnosticFormat.all)
  let colors ← group.memberD 1 "colors" false toBool?
  let showSource ← group.memberD 2 "show_source" true toBool?
  let showHelp ← group.memberD 3 "show_help" true toBool?
  return { format, colors, showSource, showHelp }

/-- The level of the log. -/
def toLogLevel? (group : Toml) : Option Level :=
  group.memberD 0 "level" .warn (toChoice? Level.name Level.all)

/-- All settings. -/
def toSettings? (group : Toml) : Option Settings := do
  let tabWidth ← group.memberD 0 "tab_width" defaultTabWidth toCount?
  let diagnostics ← group.memberD 1 "diagnostics" {} toDiagnosticSettings?
  let logLevel ← group.memberD 2 "log" .warn toLogLevel?
  return { tabWidth, diagnostics, logLevel }

end Toml

/-! ### Loading -/

/-- Why settings cannot be had. -/
inductive SettingsError where
  /-- The file cannot be read. -/
  | unreadable (path reason : String)
  /-- The file is not a document of settings. -/
  | malformed (path : String)
  | tabWidthOutOfRange (width : Nat)
  deriving DecidableEq, Repr, Inhabited

namespace Settings

/-- The settings of a document. -/
def parse? (text : String) : Option Settings := do
  (← Toml.parse? text).toSettings?

/-- The widest tab that settings may ask for. -/
def maxTabWidth : Nat := 64

/-- The file that holds the settings of a directory. -/
def fileName : String := "swiftlet.toml"

/-- What is wrong with a malformed document, in words. -/
def malformedReason : String := "TOML parse error"

/-- The reason for bytes that are no text. -/
def notText : String := "stream did not contain valid UTF-8"

/-- The text of a file. -/
def readText (opening : Opening) : Except String String := do
  match Utf8.decode? (← opening.contents) with
  | some text => return String.ofList text
  | none => throw notText

/-- The settings, if the width of a tab is within range. -/
def validate (s : Settings) : Except SettingsError Settings :=
  if 1 ≤ s.tabWidth ∧ s.tabWidth ≤ maxTabWidth then .ok s
  else .error (.tabWidthOutOfRange s.tabWidth)

/-- Loads the settings from the file called `path`. -/
def load (path : String) (opening : Opening) : Except SettingsError Settings :=
  match readText opening with
  | .error reason => .error (.unreadable path reason)
  | .ok text =>
    match parse? text with
    | some settings => settings.validate
    | none => .error (.malformed path)

/-- The path of the settings file of a directory. -/
def pathIn (directory : String) : String :=
  if directory.isEmpty || directory.endsWith "/" then directory ++ fileName
  else directory ++ "/" ++ fileName

/-- Loads the settings of a directory; the defaults, if it has no settings file. -/
def loadFrom (directory : String) (files : String → Opening) : Except SettingsError Settings :=
  match files (pathIn directory) with
  | .missing _ => .ok {}
  | opening => load (pathIn directory) opening

end Settings

namespace SettingsError

/-- The error in words. -/
def message : SettingsError → String
  | .unreadable path reason => "cannot read config " ++ path ++ ": " ++ reason
  | .malformed path => "invalid config " ++ path ++ ": " ++ Settings.malformedReason
  | .tabWidthOutOfRange width =>
    "invalid config: tab_width must be between 1 and " ++ toString Settings.maxTabWidth
      ++ ", got " ++ toString width

/-- What lies behind the error, if anything does. -/
def causes : SettingsError → List String
  | .unreadable _ reason => [reason]
  | .malformed _ => [Settings.malformedReason]
  | .tabWidthOutOfRange _ => []

end SettingsError

end SwiftDialect
