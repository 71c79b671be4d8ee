import SwiftDialect.Binary64.Shortest

/-!
# JSON

Values with ordered fields, and their two written forms: compact, on one line without blanks, and
pretty, with one item a line and two columns of indentation for each level.
-/

namespace SwiftDialect

/-- A value; the fields of an object stand in the order in which they are written. -/
inductive Json where
  | null
  | bool (value : Bool)
  | int (value : Int)
  | float (value : Binary64)
  | string (text : String)
  | array (items : List Json)
  | object (fields : List (String × Json))
  deriving Repr, Inhabited

namespace Json

/-- A natural number. -/
def nat (n : Nat) : Json :=
  .int n

/-- `null` in place of a missing value. -/
def option {α : Type} (f : α → Json) : Option α → Json
  | none => .null
  | some a => f a

/-- Numbers keep a fraction or an exponent, positional notation lasts from `1e-5` up to `1e16`, and
what is not finite becomes `null`. -/
def floatLayout : Binary64.Layout where
  positionalFrom := -5
  positionalTo := 16
  plus := "+"
  tie := .even
  infinity := none
  noNumber := "null"

/-- One character inside the quotes. -/
def escape (c : Char) : List Char :=
  if c = '"' then ['\\', '"']
  else if c = '\\' then ['\\', '\\']
  else if c.toNat = 0x08 then ['\\', 'b']
  else if c.toNat = 0x0C then ['\\', 'f']
  else if c = '\n' then ['\\', 'n']
  else if c = '\r' then ['\\', 'r']
  else if c = '\t' then ['\\', 't']
  else if c.toNat < 0x20 then
    ['\\', 'u', '0', '0', Nat.digitChar (c.toNat / 16), Nat.digitChar (c.toNat % 16)]
  else [c]

/-- A text in quotes. -/
def quote (text : String) : String :=
  String.ofList ('"' :: text.toList.flatMap escape ++ ['"'])

mutual

/-- The value on one line, without blanks. -/
def compact : Json → String
  | .null => "null"
  | .bool value => if value then "true" else "false"
  | .int value => toString value
  | .float value => value.render floatLayout
  | .string text => quote text
  | .array items => "[" ++ ",".intercalate (compactItems items) ++ "]"
  | .object fields => "\x7b" ++ ",".intercalate (compactFields fields) ++ "\x7d"

/-- Each item on one line. -/
def compactItems : List Json → List String
  | [] => []
  | item :: rest => compact item :: compactItems rest

/-- Each field on one line. -/
def compactFields : List (String × Json) → List String
  | [] => []
  | field :: rest => compactField field :: compactFields rest

/-- A field on one line. -/
def compactField : String × Json → String
  | (name, value) => quote name ++ ":" ++ compact value

end

/-- A line end followed by the indentation of a level. -/
def newline (level : Nat) : String :=
  String.ofList ('\n' :: List.replicate (2 * level) ' ')

/-- Entries between brackets, one a line; nothing at all stands between the brackets of an empty
value. -/
def enclose (opening closing : String) (level : Nat) (entries : List String) : String :=
  if entries.isEmpty then opening ++ closing
  else
    let separator := "," ++ newline (level + 1)
    opening ++ newline (level + 1) ++ separator.intercalate entries ++ newline level ++ closing

mutual

/-- The value with one entry a line, at a level of indentation. -/
def prettyAt (level : Nat) : Json → String
  | .null => "null"
  | .bool value => if value then "true" else "false"
  | .int value => toString value
  | .float value => value.render floatLayout
  | .string text => quote text
  | .array items => enclose "[" "]" level (prettyItems (level + 1) items)
  | .object fields => enclose "\x7b" "\x7d" level (prettyFields (level + 1) fields)

/-- Each item at a level of indentation. -/
def prettyItems (level : Nat) : List Json → List String
  | [] => []
  | item :: rest => prettyAt level item :: prettyItems level rest

/-- Each field at a level of indentation. -/
def prettyFields (level : Nat) : List (String × Json) → List String
  | [] => []
  | field :: rest => prettyField level field :: prettyFields level rest

/-- A field at a level of indentation. -/
def prettyField (level : Nat) : String × Json → String
  | (name, value) => quote name ++ ": " ++ prettyAt level value

end

/-- The value with one entry a line. -/
def pretty (value : Json) : String :=
  prettyAt 0 value

end Json

end SwiftDialect
