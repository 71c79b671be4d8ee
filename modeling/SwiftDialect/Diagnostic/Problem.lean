import SwiftDialect.Diagnostic
import SwiftDialect.Text.Quoted
import SwiftDialect.Text.Utf8

/-!
# The problems the front end reports

Every problem has an entry in the catalogue, which fixes its code, its category, how serious it is
and the template of its message. A `Problem` is the cause with its particulars; `Problem.draft` puts
it into words.
-/

namespace SwiftDialect

/-- The part of the work that a problem belongs to. -/
inductive Category where
  /-- Reading characters. -/
  | lexer
  /-- The grammar. -/
  | parser
  /-- Names and their declarations. -/
  | semantic
  /-- Input units. -/
  | io
  deriving DecidableEq, Repr, Inhabited

/-- The category in words. -/
def Category.display : Category → String
  | .lexer => "Lexer"
  | .parser => "Parser"
  | .semantic => "Semantic"
  | .io => "I/O"

/-- What is fixed about a kind of problem. -/
structure Entry where
  code : String
  category : Category
  severity : Severity
  /-- The message, with holes for the particulars. -/
  template : String
  deriving DecidableEq, Repr, Inhabited

namespace Entry

def unexpectedCharacter : Entry :=
  ⟨"E0001", .lexer, .error, "unexpected character '\x7bchar\x7d'"⟩

def unendedString : Entry :=
  ⟨"E0002", .lexer, .error, "unended string literal"⟩

def expectedToken : Entry :=
  ⟨"E0010", .parser, .error, "expected \x7bexpected\x7d, but got \x7bfound\x7d"⟩

def unexpectedToken : Entry :=
  ⟨"E0011", .parser, .error, "unexpected \x7btoken\x7d"⟩

def unsupported : Entry :=
  ⟨"E0012", .parser, .error, "\x7bfeature\x7d are not supported yet"⟩

def invalidLiteral : Entry :=
  ⟨"E0013", .parser, .error, "invalid \x7bkind\x7d literal '\x7bliteral\x7d'"⟩

def nestedTooDeeply : Entry :=
  ⟨"E0014", .parser, .error, "expression nested too deeply (limit is \x7blimit\x7d)"⟩

def unresolvedName : Entry :=
  ⟨"E0020", .semantic, .error, "use of unresolved identifier '\x7bname\x7d'"⟩

def redeclaredName : Entry :=
  ⟨"W0021", .semantic, .warning, "invalid redeclaration of '\x7bname\x7d'"⟩

def cannotOpen : Entry :=
  ⟨"E7001", .io, .fatal, "cannot open '\x7bpath\x7d': \x7breason\x7d"⟩

def readFailed : Entry :=
  ⟨"E7002", .io, .fatal, "error reading '\x7bpath\x7d': \x7breason\x7d"⟩

/-- Every kind of problem, in the order of the codes. -/
def catalogue : List Entry :=
  [unexpectedCharacter, unendedString, expectedToken, unexpectedToken, unsupported, invalidLiteral,
   nestedTooDeeply, unresolvedName, redeclaredName, cannotOpen, readFailed]

/-- The entry with a given code. -/
def find? (code : String) : Option Entry :=
  catalogue.find? (·.code == code)

/-- The entries of one category. -/
def ofCategory (category : Category) : List Entry :=
  catalogue.filter (·.category == category)

/-- A draft without any particulars. -/
def draft (e : Entry) : Draft where
  code := e.code
  severity := e.severity
  template := e.template

end Entry

/-- The cause of a diagnostic, with its particulars. -/
inductive Problem where
  /-- A character that starts no token. -/
  | unexpectedCharacter (c : Char)
  /-- A string literal that the end of its line or of the input cuts off. -/
  | unendedString
  /-- A token that is required and missing. -/
  | expectedToken (expected found : String)
  /-- A token that cannot stand where it does. -/
  | unexpectedToken (found : String)
  /-- A form that trees can represent but the grammar does not accept. -/
  | unsupported (feature : String)
  /-- A literal without a value. -/
  | invalidLiteral (kind text : String)
  /-- Parentheses and prefix operators beyond the limit. -/
  | nestedTooDeeply (limit : Nat)
  /-- A name that no open scope declares. -/
  | unresolvedName (name : String)
  /-- A name declared twice in one scope. -/
  | redeclaredName (name : String)
  /-- An input unit that cannot be opened. -/
  | cannotOpen (path reason : String)
  /-- An input unit that fails part way through. -/
  | readFailed (path reason : String)
  deriving DecidableEq, Repr, Inhabited

namespace Problem

/-- Control characters are those of the Unicode category `Cc`. -/
def isControl (c : Char) : Bool :=
  c.toNat < 0x20 || (0x7F ≤ c.toNat && c.toNat < 0xA0)

/-- A character as messages show it: control characters and the replacement character stand by
their code points. -/
def showChar (c : Char) : String :=
  if isControl c || c == Utf8.replacement then String.ofList (Quoted.codePoint c) else c.toString

/-- The catalogue entry of a problem. -/
def entry : Problem → Entry
  | .unexpectedCharacter _ => .unexpectedCharacter
  | .unendedString => .unendedString
  | .expectedToken .. => .expectedToken
  | .unexpectedToken _ => .unexpectedToken
  | .unsupported _ => .unsupported
  | .invalidLiteral .. => .invalidLiteral
  | .nestedTooDeeply _ => .nestedTooDeeply
  | .unresolvedName _ => .unresolvedName
  | .redeclaredName _ => .redeclaredName
  | .cannotOpen .. => .cannotOpen
  | .readFailed .. => .readFailed

/-- The values for the holes of the message. -/
def params : Problem → Template.Params
  | .unexpectedCharacter c => [("char", showChar c)]
  | .unendedString => []
  | .expectedToken expected found => [("expected", expected), ("found", found)]
  | .unexpectedToken found => [("token", found)]
  | .unsupported feature => [("feature", feature)]
  | .invalidLiteral kind text => [("kind", kind), ("literal", text)]
  | .nestedTooDeeply limit => [("limit", toString limit)]
  | .unresolvedName name => [("name", name)]
  | .redeclaredName name => [("name", name)]
  | .cannotOpen path reason => [("path", path), ("reason", reason)]
  | .readFailed path reason => [("path", path), ("reason", reason)]

/-- The hint that goes with a problem; empty for most. -/
def help : Problem → String
  | .unsupported _ => "only variable declarations and expression statements are parsed"
  | .nestedTooDeeply _ => "split the expression with intermediate variables"
  | .unresolvedName name => "declare '" ++ name ++ "' with `let` or `var` before this use"
  | _ => ""

/-- The problem in words, without a place. -/
def draft (p : Problem) : Draft :=
  (p.entry.draft.withParams p.params).withHelp p.help

/-- The diagnostic of a problem at a known place. -/
def diagnose (p : Problem) (location : Location) : Diagnostic :=
  (p.draft.located location).build

end Problem

end SwiftDialect
