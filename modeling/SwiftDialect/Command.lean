import SwiftDialect.Analysis
import SwiftDialect.Arguments
import SwiftDialect.Diagnostic.Json
import SwiftDialect.Diagnostic.Text
import SwiftDialect.Settings
import SwiftDialect.Syntax.Json
import SwiftDialect.Syntax.Outline

/-!
# Commands

What the program prints, and how it exits, for a command line and the files at hand. The log and the
diagnostics go to the error channel; a run fails exactly if it ends with an error message there.
-/

namespace SwiftDialect

/-- The name of the program. -/
def programName : String := "Swiftlet"

/-- The name by which the program is called. -/
def commandName : String := "swiftlet"

/-- The version of the program. -/
def programVersion : String := "0.1.0"

/-- What a run leaves behind. -/
structure Outcome where
  code : Nat := 0
  stdout : String := ""
  stderr : String := ""
  deriving DecidableEq, Repr, Inhabited

namespace Outcome

/-- Further lines of a text that has several are set in from the margin. -/
def indent (margin text : String) : String :=
  ("\n" ++ margin).intercalate (text.splitOn "\n")

/-- An error message with what lies behind it; several causes are numbered. -/
def errorText (message : String) (causes : List String) : String :=
  let listed := match causes with
    | [] => ""
    | [cause] => "\n\nCaused by:\n    " ++ indent "    " cause
    | causes =>
      "\n\nCaused by:" ++ String.join (causes.zipIdx.map fun (cause, i) =>
        "\n" ++ Text.padLeft 5 (toString i) ++ ": " ++ indent "       " cause)
  "Error: " ++ message ++ listed ++ "\n"

/-- Writes to the output channel. -/
def print (o : Outcome) (text : String) : Outcome :=
  { o with stdout := o.stdout ++ text }

/-- Writes to the error channel. -/
def warn (o : Outcome) (text : String) : Outcome :=
  { o with stderr := o.stderr ++ text }

/-- Ends the run with an error message. -/
def fail (o : Outcome) (message : String) (causes : List String) : Outcome :=
  { o.warn (errorText message causes) with code := 1 }

end Outcome

/-! ### Parts of the output -/

/-- A line of the token listing. -/
def Token.listing (lines : LineTable) (t : Token) : String :=
  let position := match lines.expand t.location with
    | some p => p.position.render
    | none => ""
  Text.padRight 8 position ++ " " ++ t.kind.name
    ++ (if t.text.isEmpty then "" else " " ++ Quoted.quote t.text) ++ "\n"

/-- The diagnostics in the form that the settings ask for, as whole lines. -/
def DiagnosticSettings.render (s : DiagnosticSettings) (lines : LineTable) (source : Option String)
    (ds : List Diagnostic) : String :=
  if ds.isEmpty then ""
  else
    let text := match s.format with
      | .json => Diagnostic.listToJson lines ds
      | .text =>
        Diagnostic.listToText
          { colors := s.colors, showSource := s.showSource, showHelp := s.showHelp } lines source ds
    if text.endsWith "\n" then text else text ++ "\n"

/-- The text of a file for the source lines in diagnostics. -/
def Opening.sourceText? (opening : Opening) : Option String :=
  match opening.contents with
  | .ok bytes => some (String.ofList (Utf8.decodeLossy bytes))
  | .error _ => none

namespace Command

/-- Prints the diagnostics of a file. The run fails if one of them is an error. -/
def finish (settings : Settings) (file : String) (opening : Opening) (lines : LineTable)
    (ds : List Diagnostic) (o : Outcome) : Outcome :=
  let o := o.warn (settings.diagnostics.render lines opening.sourceText? ds)
  if Diagnostic.hasErrors ds then
    o.fail (toString (Diagnostic.errorCount ds) ++ " error(s) in " ++ file) []
  else o

/-- Ends a run whose file offers nothing to look at. -/
def refuse (settings : Settings) (file : String) : UnitError → Outcome
  | .cannotOpen d =>
    ({} : Outcome).warn (settings.diagnostics.render .empty none [d])
      |>.fail ("cannot read " ++ file) []
  | .faulty ds => ({} : Outcome).fail (UnitError.faulty ds).message []

/-- Lists the tokens of a file. -/
def tokens (settings : Settings) (threshold : Level) (file : String) (opening : Opening) :
    Outcome :=
  match tokenizeFile file opening settings.tabWidth with
  | .error e => refuse settings file e
  | .ok t =>
    (({} : Outcome).warn (t.journal.log threshold)
      |>.print (String.join (t.tokens.map (Token.listing t.lines)))
      |> finish settings file opening t.lines t.diagnostics)

/-- The program as the settings of the command ask for it. -/
def showProgram (json : Bool) (program : Program) : String :=
  if json then program.toJson.pretty else program.outline.render

/-- Prints the program that a file holds. -/
def parse (settings : Settings) (threshold : Level) (file : String) (json : Bool)
    (opening : Opening) : Outcome :=
  match parseFile file opening settings.tabWidth with
  | .error e => refuse settings file e
  | .ok p =>
    let shown := match p.program with
      | some program => showProgram json program ++ "\n"
      | none => ""
    (({} : Outcome).warn (p.journal.log threshold)
      |>.print shown
      |> finish settings file opening p.lines p.diagnostics)

/-- Reports what is wrong with a file, or that nothing is. -/
def check (settings : Settings) (threshold : Level) (file : String) (opening : Opening) : Outcome :=
  match parseFile file opening settings.tabWidth with
  | .error e => refuse settings file e
  | .ok p =>
    let o := finish settings file opening p.lines p.diagnostics
      (({} : Outcome).warn (p.journal.log threshold))
    if o.code ≠ 0 then o
    else if p.program.isNone then o.fail (file ++ ": parse failed") []
    else o.warn (file ++ ": ok\n")

/-- Does a task with the given settings. -/
def perform (settings : Settings) (threshold : Level) (files : String → Opening) : Task → Outcome
  | .tokens file => tokens settings threshold file (files file)
  | .parse file json => parse settings threshold file json (files file)
  | .check file => check settings threshold file (files file)
  | .version => ({} : Outcome).print (programName ++ " " ++ programVersion ++ "\n")

/-- The settings of a run: from the file that the options name, else from the working directory. -/
def settings (options : Options) (files : String → Opening) : Except Outcome Settings :=
  match options.config with
  | some path =>
    match Settings.load path (files path) with
    | .ok settings => .ok settings
    | .error e => .error (({} : Outcome).fail e.message e.causes)
  | none =>
    match Settings.loadFrom "." files with
    | .ok settings => .ok settings
    | .error e =>
      .error (({} : Outcome).fail ("Failed to load " ++ Settings.fileName) (e.message :: e.causes))

/-- The summary of the command line. -/
def usage : String :=
  programName ++ "\n\n"
    ++ "Usage: " ++ commandName ++ " [OPTIONS] <COMMAND>\n\n"
    ++ "Commands:\n"
    ++ "  tokens   Print the token stream\n"
    ++ "  parse    Parse and print the syntax tree\n"
    ++ "  check    Parse and report diagnostics only\n"
    ++ "  version  Print version information\n"
    ++ "  help     Print this message or the help of the given subcommand(s)\n\n"
    ++ "Options:\n"
    ++ "  -v, --verbose        Enable debug logging\n"
    ++ "      --config <PATH>  Config file (defaults to ./" ++ Settings.fileName
    ++ " when present)\n"
    ++ "  -h, --help           Print help\n"
    ++ "  -V, --version        Print version\n"

/-- Does what a command line asks for. -/
def execute (files : String → Opening) : Invocation → Outcome
  | .help => ({} : Outcome).print usage
  | .showVersion => ({} : Outcome).print (commandName ++ " " ++ programVersion ++ "\n")
  | .misused => { code := 2, stderr := usage }
  | .run options task =>
    match settings options files with
    | .error o => o
    | .ok settings =>
      perform settings (if options.verbose then .debug else settings.logLevel) files task

/-- Runs the program on its arguments. -/
def run (arguments : List String) (files : String → Opening) : Outcome :=
  execute files (.ofArguments arguments)

/-- The paths that a command line can make the program open. -/
def paths : Invocation → List String
  | .run options task =>
    let unit := match task with
      | .tokens file | .parse file _ | .check file => [file]
      | .version => []
    options.config.getD (Settings.pathIn ".") :: unit
  | _ => []

end Command

end SwiftDialect
