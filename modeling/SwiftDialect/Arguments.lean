/-!
# Command lines

The arguments of the program: options, then a command with options and operands of its own. An
argument that cannot be understood makes the whole line unusable, unless a request for help or for
the version comes before it.
-/

namespace SwiftDialect

/-- What the program can be asked to do. -/
inductive Task where
  /-- List the tokens of a file. -/
  | tokens (file : String)
  /-- Print the program that a file holds. -/
  | parse (file : String) (json : Bool)
  /-- Report what is wrong with a file. -/
  | check (file : String)
  /-- Name the program and its version. -/
  | version
  deriving DecidableEq, Repr, Inhabited

/-- Options that stand before the command. -/
structure Options where
  /-- Is the log to tell more? -/
  verbose : Bool := false
  /-- The file with the settings. -/
  config : Option String := none
  deriving DecidableEq, Repr, Inhabited

/-- What a command line asks for. -/
inductive Invocation where
  | run (options : Options) (task : Task)
  /-- A request for help. -/
  | help
  /-- A request for the version, as an option. -/
  | showVersion
  /-- The arguments make no sense. -/
  | misused
  deriving DecidableEq, Repr, Inhabited

namespace Invocation

/-- Options start with a hyphen; a hyphen alone is an operand. -/
def isOption (argument : String) : Bool :=
  argument.startsWith "-" && argument != "-"

/-- The operands and options that a command takes. -/
structure Shape where
  takesFile : Bool
  takesJson : Bool := false
  /-- The task, from the operand and whether the option was given. -/
  task : String → Bool → Task

/-- The commands by their names. -/
def shape? : String → Option Shape
  | "tokens" => some { takesFile := true, task := fun file _ => .tokens file }
  | "parse" => some { takesFile := true, takesJson := true, task := .parse }
  | "check" => some { takesFile := true, task := fun file _ => .check file }
  | "version" => some { takesFile := false, task := fun _ _ => .version }
  | _ => none

/-- Reads the arguments of a command. After two hyphens (`literal`) all arguments are operands. -/
def ofOperands (options : Options) (shape : Shape) (file : Option String) (json literal : Bool) :
    List String → Invocation
  | [] =>
    if shape.takesFile && file.isNone then .misused
    else .run options (shape.task (file.getD "") json)
  | argument :: rest =>
    if !literal && isOption argument then
      if argument = "--" then ofOperands options shape file json true rest
      else if argument = "--help" ∨ argument.startsWith "-h" then .help
      else if argument = "--json" ∧ shape.takesJson ∧ !json then
        ofOperands options shape file true literal rest
      else .misused
    else if shape.takesFile ∧ file.isNone ∧ argument ≠ "" then
      ofOperands options shape (some argument) json literal rest
    else .misused

/-- Reads the arguments of the request for help about a command. -/
def ofHelp : List String → Invocation
  | [] => .help
  | [command] => if (shape? command).isSome ∨ command = "help" then .help else .misused
  | _ => .misused

/-- Reads options of one letter that stand together. -/
def ofLetters (options : Options) : List Char → Except Invocation Options
  | [] => .ok options
  | 'v' :: rest =>
    if options.verbose then .error .misused else ofLetters { options with verbose := true } rest
  | 'h' :: _ => .error .help
  | 'V' :: _ => .error .showVersion
  | _ => .error .misused

/-- Reads a command line after the options read so far. -/
def ofRest (options : Options) : List String → Invocation
  | [] => .misused
  | argument :: rest =>
    if argument = "--help" then .help
    else if argument = "--version" then .showVersion
    else if argument = "--verbose" then
      if options.verbose then .misused else ofRest { options with verbose := true } rest
    else if argument = "--config" then
      match rest with
      | value :: rest =>
        if value = "" ∨ isOption value ∨ options.config.isSome then .misused
        else ofRest { options with config := some value } rest
      | [] => .misused
    else if argument.startsWith "--config=" then
      let value := (argument.drop "--config=".length).toString
      if value = "" ∨ options.config.isSome then .misused
      else ofRest { options with config := some value } rest
    else if argument.startsWith "--" then .misused
    else if isOption argument then
      match ofLetters options (argument.toList.drop 1) with
      | .ok options => ofRest options rest
      | .error invocation => invocation
    else if argument = "help" then ofHelp rest
    else
      match shape? argument with
      | some shape => ofOperands options shape none false false rest
      | none => .misused

/-- Reads a command line. -/
def ofArguments (arguments : List String) : Invocation :=
  ofRest {} arguments

end Invocation

end SwiftDialect
