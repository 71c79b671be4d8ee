import SwiftDialect.Binary64
import SwiftDialect.Toml

/-!
# Scalars

How strings, numbers and dates are written in a TOML document. A scanner takes what it understands
from the front of the text and leaves the rest; it fails where the text is not well formed.
-/

namespace SwiftDialect.Toml

/-- Takes something from the front of a text. -/
abbrev Scan := StateT (List Char) Option

namespace Scan

/-- The next character, which is left in place. -/
def peek? : Scan (Option Char) := do
  return (← get).head?

/-- Takes a character that passes the test. -/
def char (test : Char → Bool) : Scan Char
  | [] => none
  | c :: rest => if test c then some (c, rest) else none

/-- Takes characters as long as they pass the test. -/
def takeWhile (test : Char → Bool) : Scan (List Char) :=
  fun text => some (text.takeWhile test, text.dropWhile test)

/-- Takes a given text. -/
def literal (expected : String) : Scan Unit :=
  fun text =>
    if expected.toList.isPrefixOf text then some ((), text.drop expected.length) else none

/-- Takes a given text if it is there, and says whether it was. -/
def eat (expected : String) : Scan Bool := do
  return (← optional (literal expected)).isSome

/-- Nothing is left. -/
def done : Scan Unit
  | [] => some ((), [])
  | _ :: _ => none

end Scan

open Scan

/-- Spaces and tabs. -/
def isBlank (c : Char) : Bool :=
  c == ' ' || c == '\t'

/-- Characters that may stand in comments and strings: all but control characters. -/
def isText (c : Char) : Bool :=
  c == '\t' || (0x20 ≤ c.toNat && c.toNat != 0x7F)

/-- Takes spaces and tabs. -/
def blanks : Scan Unit := do
  let _ ← takeWhile isBlank

/-- Takes a line end. -/
def newline : Scan Unit :=
  literal "\n" <|> literal "\r\n"

/-- The value of a hexadecimal digit. -/
def hexValue? (c : Char) : Option Nat :=
  if c.isDigit then some (c.toNat - '0'.toNat)
  else if 'a' ≤ c ∧ c ≤ 'f' then some (c.toNat - 'a'.toNat + 10)
  else if 'A' ≤ c ∧ c ≤ 'F' then some (c.toNat - 'A'.toNat + 10)
  else none

/-! ### Strings -/

/-- The quote around strings that know no escapes. -/
def apostrophe : Char := '\x27'

/-- Where the scanner stands in a string with escapes. -/
inductive StringMode where
  /-- At an ordinary character. -/
  | plain
  /-- Just after a backslash. -/
  | escaped
  /-- In a code point, with so many digits to come after those read so far. -/
  | code (left value : Nat)
  /-- In blanks that a backslash at a line end makes disappear; has the line ended yet? -/
  | gap (ended : Bool)
  deriving DecidableEq, Repr

/-- The mode in which a character is read: the first visible one after a line end ends the gap. -/
def StringMode.before (mode : StringMode) (c : Char) : StringMode :=
  match mode with
  | .gap true => if isBlank c || c == '\n' || c == '\r' then .gap true else .plain
  | mode => mode

/-- The character that an escape with one letter stands for. -/
def escapedChar? : Char → Option Char
  | 'b' => some '\x08'
  | 't' => some '\t'
  | 'n' => some '\n'
  | 'f' => some '\x0c'
  | 'r' => some '\r'
  | '"' => some '"'
  | '\\' => some '\\'
  | _ => none

/-- Up to two quotes before the three that close a string belong to it. The first of the quotes has
been taken; gives the quotes that belong to the string and what comes after it. -/
def closing? (quote : Char) (rest : List Char) : Option (List Char × List Char) :=
  match rest with
  | a :: b :: rest =>
    if a ≠ quote ∨ b ≠ quote then none
    else
      match rest with
      | c :: d :: rest' =>
        if c = quote ∧ d = quote then some ([quote, quote], rest')
        else if c = quote then some ([quote], d :: rest')
        else some ([], rest)
      | [c] => if c = quote then some ([quote], []) else some ([], [c])
      | [] => some ([], [])
  | _ => none

/-- Takes a string with escapes up to and with its closing quotes; it may span lines if `multi`. -/
def escapedString (multi : Bool) : StringMode → List Char → Option (List Char × List Char)
  | _, [] => none
  | mode, c :: rest =>
    let emit (d : Char) (r : Option (List Char × List Char)) := r.map fun (s, rest) => (d :: s, rest)
    let beforeNewline := c == '\r' && rest.head? == some '\n'
    match mode.before c with
    | .plain =>
      if c = '"' then
        if multi then
          match closing? '"' rest with
          | some closed => some closed
          | none => emit '"' (escapedString multi .plain rest)
        else some ([], rest)
      else if c = '\\' then escapedString multi .escaped rest
      else if isText c then emit c (escapedString multi .plain rest)
      else if multi && c == '\n' then emit '\n' (escapedString multi .plain rest)
      else if multi && beforeNewline then escapedString multi .plain rest
      else none
    | .escaped =>
      match escapedChar? c with
      | some d => emit d (escapedString multi .plain rest)
      | none =>
        if c = 'u' then escapedString multi (.code 4 0) rest
        else if c = 'U' then escapedString multi (.code 8 0) rest
        else if multi && (isBlank c || beforeNewline) then escapedString multi (.gap false) rest
        else if multi && c == '\n' then escapedString multi (.gap true) rest
        else none
    | .code left value =>
      match hexValue? c with
      | none => none
      | some digit =>
        let value := 16 * value + digit
        if 1 < left then escapedString multi (.code (left - 1) value) rest
        else if value.isValidChar then emit (Char.ofNat value) (escapedString multi .plain rest)
        else none
    | .gap ended =>
      if isBlank c then escapedString multi (.gap ended) rest
      else if c = '\n' then escapedString multi (.gap true) rest
      else if beforeNewline then escapedString multi (.gap ended) rest
      else none

/-- Takes a string without escapes that may span lines, up to and with its closing quotes. -/
def rawString : List Char → Option (List Char × List Char)
  | [] => none
  | c :: rest =>
    let emit (d : Char) (r : Option (List Char × List Char)) := r.map fun (s, rest) => (d :: s, rest)
    if c = apostrophe then
      match closing? apostrophe rest with
      | some closed => some closed
      | none => emit c (rawString rest)
    else if isText c || c == '\n' then emit c (rawString rest)
    else if c = '\r' ∧ rest.head? = some '\n' then rawString rest
    else none

/-- Takes a string in quotation marks that stays on its line. -/
def quotedString : Scan String := do
  literal "\""
  return String.ofList (← escapedString false .plain)

/-- Takes a string in apostrophes that stays on its line. -/
def literalString : Scan String := do
  literal "\x27"
  let text ← takeWhile fun c => isText c && c != apostrophe
  literal "\x27"
  return String.ofList text

/-- Takes a string in three quotation marks; a line end just after them does not count. -/
def longQuotedString : Scan String := do
  literal "\"\"\""
  let _ ← optional newline
  return String.ofList (← escapedString true .plain)

/-- Takes a string in three apostrophes; a line end just after them does not count. -/
def longLiteralString : Scan String := do
  literal "\x27\x27\x27"
  let _ ← optional newline
  return String.ofList (← rawString)

/-- Takes a string of any form. -/
def stringValue : Scan String :=
  longQuotedString <|> quotedString <|> longLiteralString <|> literalString

/-! ### Numbers -/

/-- The digits at the front of a text; a single underscore may stand between two digits. -/
def digitRun (test : Char → Bool) : List Char → List Char × List Char
  | [] => ([], [])
  | c :: rest =>
    if test c then
      let (digits, rest) := digitRun test rest
      (c :: digits, rest)
    else if c = '_' ∧ rest.head?.any test then digitRun test rest
    else ([], c :: rest)

/-- Takes at least one digit. -/
def digits (test : Char → Bool) : Scan (List Char) := do
  let first ← char test
  return first :: (← fun text => some (digitRun test text))

/-- Takes the digits of a whole number: no zero stands before others. -/
def wholeDigits : Scan (List Char) := do
  if ← eat "0" then return ['0'] else digits Char.isDigit

/-- Takes an exponent. -/
def exponent : Scan Int := do
  let _ ← char fun c => c == 'e' || c == 'E'
  let sign ← optional (char fun c => c == '+' || c == '-')
  let magnitude : Int := Binary64.digitsValue 0 (← digits Char.isDigit)
  return if sign = some '-' then -magnitude else magnitude

/-- Is the decimal too large for a floating point number? Only decimals near the limit are
computed. -/
def tooLarge (whole fraction : List Char) (exponent : Int) : Bool :=
  let digits := whole ++ fraction
  let value := Binary64.digitsValue 0 digits
  let shift : Int := exponent - fraction.length
  let size : Int := (digits.dropWhile (· == '0')).length + shift
  if value = 0 ∨ size < 300 then false
  else if 310 < size then true
  else
    match shift with
    | .ofNat n => (Binary64.ofRatio (value * Nat.pow 10 n) 1).isInfinite
    | .negSucc n => (Binary64.ofRatio value (Nat.pow 10 (n + 1))).isInfinite

/-- The greatest integer; the least is one further from zero. -/
def integerLimit : Nat := Nat.pow 2 63 - 1

/-- Takes the digits of an integer in another base, after its mark. -/
def basedInteger (mark : String) (base : Nat) : Scan Toml := do
  literal mark
  let digits ← digits fun c => (hexValue? c).any (· < base)
  let value := digits.foldl (fun n c => base * n + (hexValue? c).getD 0) 0
  if value ≤ integerLimit then return .integer value else failure

/-- Takes a number in base ten, with or without a fraction and an exponent. -/
def decimalNumber : Scan Toml := do
  let sign ← optional (char fun c => c == '+' || c == '-')
  let negative := sign = some '-'
  if ← (eat "inf" <||> eat "nan") then return .float
  else
    let whole ← wholeDigits
    let fraction ← optional (do literal "."; digits Char.isDigit)
    let exponent ← optional exponent
    if fraction.isNone && exponent.isNone then
      let value := Binary64.digitsValue 0 whole
      if negative && value ≤ integerLimit + 1 then return .integer (-value)
      else if !negative && value ≤ integerLimit then return .integer value
      else failure
    else if !negative && tooLarge whole (fraction.getD []) (exponent.getD 0) then failure
    else return .float

/-! ### Dates and times -/

/-- Takes exactly `count` digits. -/
def fixedDigits (count : Nat) : Scan Nat :=
  fun text =>
    let digits := text.take count
    if digits.length = count ∧ digits.all Char.isDigit then
      some (Binary64.digitsValue 0 digits, text.drop count)
    else none

/-- Takes two digits whose value lies in a range. -/
def twoDigits (least greatest : Nat) : Scan Nat := do
  let value ← fixedDigits 2
  if least ≤ value ∧ value ≤ greatest then return value else failure

/-- How many days a month has. -/
def daysInMonth (year month : Nat) : Nat :=
  if month = 2 then
    if year % 4 = 0 ∧ (year % 100 ≠ 0 ∨ year % 400 = 0) then 29 else 28
  else if month = 4 ∨ month = 6 ∨ month = 9 ∨ month = 11 then 30
  else 31

/-- Takes a date. -/
def date : Scan Unit := do
  let year ← fixedDigits 4
  literal "-"
  let month ← twoDigits 1 12
  literal "-"
  let _ ← twoDigits 1 (daysInMonth year month)

/-- Takes a time of day; a minute may have a leap second. -/
def time : Scan Unit := do
  let _ ← twoDigits 0 23
  literal ":"
  let _ ← twoDigits 0 59
  literal ":"
  let _ ← twoDigits 0 60
  let _ ← optional do
    literal "."
    let _ ← char Char.isDigit
    takeWhile Char.isDigit

/-- Takes the distance of a time from universal time. -/
def offset : Scan Unit := do
  let mark ← char fun c => c == 'Z' || c == 'z' || c == '+' || c == '-'
  if mark == '+' || mark == '-' then
    let _ ← twoDigits 0 23
    literal ":"
    let _ ← twoDigits 0 59

/-- Takes a date, a time, or a date with a time. -/
def dateOrTime : Scan Toml := do
  let dated : Scan Unit := do
    date
    let _ ← optional do
      let _ ← char fun c => c == 'T' || c == 't' || c == ' '
      time
      optional offset
  dated <|> time
  return .datetime

/-! ### Any scalar -/

/-- Takes a value that holds no other values. -/
def scalar : Scan Toml := do
  match ← peek? with
  | some 't' =>
    literal "true"
    return .boolean true
  | some 'f' =>
    literal "false"
    return .boolean false
  | some c =>
    if c == '"' || c == apostrophe then return .string (← stringValue)
    else
      dateOrTime <|> basedInteger "0x" 16 <|> basedInteger "0o" 8 <|> basedInteger "0b" 2
        <|> decimalNumber
  | none => failure

end SwiftDialect.Toml
