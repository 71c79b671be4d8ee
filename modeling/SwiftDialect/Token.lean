import SwiftDialect.Location

/-!
# Tokens

The kinds of token, how each is described in messages, and the reserved words. A token carries its
kind, the place where it starts and, for identifiers and literals, its text.
-/

namespace SwiftDialect

/-- The kind of a token. -/
inductive TokenKind where
  /-- Stands before every kind; the scanner never yields it. -/
  | firstMarker
  /-- The end of the input. -/
  | endOfFile
  | asterisk
  | equal
  | notEqual
  | leftParen
  | rightParen
  | leftCurly
  | rightCurly
  | minus
  | plus
  | colon
  | semicolon
  | slash
  | percent
  | greater
  | less
  | greaterEqual
  | lessEqual
  | identifier
  | integerLiteral
  | floatLiteral
  | stringLiteral
  | kwLet
  | kwVar
  | kwIf
  | kwElse
  | kwFor
  | kwIn
  | kwWhile
  | kwInt32
  | kwInt64
  | kwUint32
  | kwUint64
  | kwFloat
  | kwDouble
  | kwFalse
  | kwTrue
  /-- Stands after every kind; the scanner never yields it. -/
  | lastMarker
  deriving DecidableEq, Repr, Inhabited

namespace TokenKind

/-- Every kind, in order. -/
def all : List TokenKind :=
  [.firstMarker, .endOfFile, .asterisk, .equal, .notEqual, .leftParen, .rightParen,
   .leftCurly, .rightCurly, .minus, .plus, .colon, .semicolon, .slash, .percent, .greater,
   .less, .greaterEqual, .lessEqual, .identifier, .integerLiteral, .floatLiteral,
   .stringLiteral, .kwLet, .kwVar, .kwIf, .kwElse, .kwFor, .kwIn, .kwWhile, .kwInt32,
   .kwInt64, .kwUint32, .kwUint64, .kwFloat, .kwDouble, .kwFalse, .kwTrue, .lastMarker]

/-- What the kind is called in messages: its spelling, or a phrase where it has many. -/
def description : TokenKind → String
  | .firstMarker => "<first marker>"
  | .endOfFile => "end of file"
  | .asterisk => "*"
  | .equal => "="
  | .notEqual => "!="
  | .leftParen => "("
  | .rightParen => ")"
  | .leftCurly => "\x7b"
  | .rightCurly => "\x7d"
  | .minus => "-"
  | .plus => "+"
  | .colon => ":"
  | .semicolon => ";"
  | .slash => "/"
  | .percent => "%"
  | .greater => ">"
  | .less => "<"
  | .greaterEqual => ">="
  | .lessEqual => "<="
  | .identifier => "identifier"
  | .integerLiteral => "integer literal"
  | .floatLiteral => "floating point literal"
  | .stringLiteral => "string literal"
  | .kwLet => "let"
  | .kwVar => "var"
  | .kwIf => "if"
  | .kwElse => "else"
  | .kwFor => "for"
  | .kwIn => "in"
  | .kwWhile => "while"
  | .kwInt32 => "Int32"
  | .kwInt64 => "Int64"
  | .kwUint32 => "Uint32"
  | .kwUint64 => "Uint64"
  | .kwFloat => "Float"
  | .kwDouble => "Double"
  | .kwFalse => "false"
  | .kwTrue => "true"
  | .lastMarker => "<last marker>"

/-- The name of the kind in token listings. -/
def name : TokenKind → String
  | .firstMarker => "FirstMarker"
  | .endOfFile => "EndOfFile"
  | .asterisk => "Asterisk"
  | .equal => "Eq"
  | .notEqual => "Neq"
  | .leftParen => "LeftParen"
  | .rightParen => "RightParen"
  | .leftCurly => "LeftCurly"
  | .rightCurly => "RightCurly"
  | .minus => "Minus"
  | .plus => "Plus"
  | .colon => "Colon"
  | .semicolon => "Semicolon"
  | .slash => "Slash"
  | .percent => "Percent"
  | .greater => "Gt"
  | .less => "Lt"
  | .greaterEqual => "Geq"
  | .lessEqual => "Leq"
  | .identifier => "Identifier"
  | .integerLiteral => "IntegerLiteral"
  | .floatLiteral => "FloatLiteral"
  | .stringLiteral => "StringLiteral"
  | .kwLet => "KwLet"
  | .kwVar => "KwVar"
  | .kwIf => "KwIf"
  | .kwElse => "KwElse"
  | .kwFor => "KwFor"
  | .kwIn => "KwIn"
  | .kwWhile => "KwWhile"
  | .kwInt32 => "KwInt32"
  | .kwInt64 => "KwInt64"
  | .kwUint32 => "KwUint32"
  | .kwUint64 => "KwUint64"
  | .kwFloat => "KwFloat"
  | .kwDouble => "KwDouble"
  | .kwFalse => "KwFalse"
  | .kwTrue => "KwTrue"
  | .lastMarker => "LastMarker"

/-- Is this the kind of a reserved word? -/
def isKeyword : TokenKind → Bool
  | .kwLet | .kwVar | .kwIf | .kwElse | .kwFor | .kwIn | .kwWhile | .kwInt32
  | .kwInt64 | .kwUint32 | .kwUint64 | .kwFloat | .kwDouble | .kwFalse | .kwTrue => true
  | _ => false

/-- Is the description a phrase, and not the text of the token? -/
def isPhrase : TokenKind → Bool
  | .firstMarker | .endOfFile | .identifier | .integerLiteral | .floatLiteral | .stringLiteral
  | .lastMarker => true
  | _ => false

/-- The kind as messages show it: spellings stand in backquotes, phrases do not. -/
def display (kind : TokenKind) : String :=
  if kind.isPhrase then kind.description else "`" ++ kind.description ++ "`"

/-- The reserved words, each with its kind. -/
def keywords : List (String × TokenKind) :=
  (all.filter isKeyword).map fun kind => (kind.description, kind)

/-- The kind of a reserved word; `none` for any other text. -/
def ofKeyword? (text : String) : Option TokenKind :=
  keywords.lookup text

end TokenKind

/-- A token: what it is, where it starts and, for identifiers and literals, its text. The text of a
string literal stands without its quotes. -/
structure Token where
  kind : TokenKind
  location : Location
  text : String := ""
  deriving DecidableEq, Repr, Inhabited

end SwiftDialect
