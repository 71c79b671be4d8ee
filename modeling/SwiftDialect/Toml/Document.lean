import SwiftDialect.Toml.Scalar
import SwiftDialect.Toml.Table

/-!
# Documents

A document is a sequence of lines: entries with a key and a value, headers that say which table the
entries after them belong to, comments and empty lines. Arrays may span lines; inline tables may
not. Values can be nested up to a limit, and so can keys.
-/

namespace SwiftDialect.Toml

open Scan

/-- How deep values may be nested, and how many parts a key may have. -/
def nestingLimit : Nat := 79

/-- Can the character stand in a key without quotes? -/
def isKeyChar (c : Char) : Bool :=
  c.isAlphanum || c == '-' || c == '_'

/-- Takes one part of a key. -/
def keyPart : Scan String := do
  match ← peek? with
  | some '"' => quotedString
  | some c =>
    if c == apostrophe then literalString
    else
      let first ← char isKeyChar
      return String.ofList (first :: (← takeWhile isKeyChar))
  | none => failure

/-- Takes a key with at most `bound` parts and dots between them. -/
def keyPartsWithin : Nat → Scan (List String)
  | 0 => failure
  | bound + 1 => do
    blanks
    let part ← keyPart
    blanks
    if ← eat "." then return part :: (← keyPartsWithin bound) else return [part]

/-- Takes a key: the parts on the way, and the last one. -/
def key : Scan (List String × String) := do
  let parts ← keyPartsWithin nestingLimit
  match parts.getLast? with
  | some last => return (parts.dropLast, last)
  | none => failure

/-- What is left after blanks, line ends and comments. -/
def skipGaps : Bool → List Char → List Char
  | _, [] => []
  | inComment, c :: rest =>
    if inComment && isText c then skipGaps true rest
    else if isBlank c || c == '\n' then skipGaps false rest
    else if c = '\r' ∧ rest.head? = some '\n' then skipGaps false rest
    else if !inComment && c == '#' then skipGaps true rest
    else c :: rest

/-- Takes blanks, line ends and comments. -/
def gaps : Scan Unit :=
  fun text => some ((), skipGaps false text)

/-- Takes the items of an array up to its closing bracket, at most `bound` of them. -/
def itemsWithin (item : Scan Toml) : Nat → Scan (List Toml)
  | 0 => failure
  | bound + 1 => do
    gaps
    if ← eat "]" then return []
    else
      let first ← item
      gaps
      if ← eat "," then return first :: (← itemsWithin item bound)
      else
        literal "]"
        return [first]

/-- Takes an array. -/
def arrayValue (item : Scan Toml) : Scan Toml := do
  literal "["
  return .array (← itemsWithin item ((← get).length + 1))

/-- Takes a key, an equals sign and a value. -/
def entry (value : Scan Toml) : Scan (List String × String × Toml) := do
  let (path, last) ← key
  literal "="
  blanks
  return (path, last, ← value)

/-- Takes the entries of an inline table up to its closing brace, at most `bound` of them. -/
def entriesWithin (value : Scan Toml) : Nat → Entries → Scan Entries
  | 0, _ => failure
  | bound + 1, entries => do
    let (path, last, value') ← entry value
    let entries ← (Entries.insert path last value' .header entries : Option Entries)
    blanks
    if ← eat "," then entriesWithin value bound entries
    else
      literal "\x7d"
      return entries

/-- Takes an inline table. -/
def inlineTable (value : Scan Toml) : Scan Toml := do
  literal "\x7b"
  blanks
  let entries ←
    if ← eat "\x7d" then pure [] else entriesWithin value ((← get).length + 1) []
  return (Node.table .header entries).finish

/-- Takes a value with others nested in it up to a depth. -/
def valueWithin : Nat → Scan Toml
  | 0 => scalar
  | depth + 1 => arrayValue (valueWithin depth) <|> inlineTable (valueWithin depth) <|> scalar

/-- Takes a value. -/
def value : Scan Toml :=
  valueWithin nestingLimit

/-- Takes a comment. -/
def comment : Scan Unit := do
  literal "#"
  let _ ← takeWhile isText

/-- Takes the end of a line: blanks, perhaps a comment, and a line end or the end of the text. -/
def lineEnd : Scan Unit := do
  blanks
  let _ ← optional comment
  newline <|> done

/-- A document in the making. -/
structure Draft where
  /-- The table that entries belong to. -/
  current : List String := []
  root : Entries := []

/-- Takes the header of a table or of the next table in an array of tables. -/
def header (draft : Draft) : Scan Draft := do
  let element ← eat "[["
  if !element then literal "["
  let (path, last) ← key
  literal (if element then "]]" else "]")
  lineEnd
  let place := if element then Entries.openElement else Entries.openTable
  return { current := path ++ [last], root := ← (place path last draft.root : Option Entries) }

/-- Takes the entry on a line. -/
def line (draft : Draft) : Scan Draft := do
  let (path, last, value) ← entry value
  lineEnd
  return { draft with
    root := ← (Entries.insertAt draft.current path last value draft.root : Option Entries) }

/-- Takes lines up to the end of the text, at most `bound` of them. -/
def linesWithin : Nat → Draft → Scan Draft
  | 0, _ => failure
  | bound + 1, draft => do
    blanks
    match ← peek? with
    | none => return draft
    | some c =>
      if c == '#' || c == '\n' || c == '\r' then
        lineEnd
        linesWithin bound draft
      else if c == '[' then linesWithin bound (← header draft)
      else linesWithin bound (← line draft)

/-- The value of a document: the table that it describes. A byte order mark may stand first. -/
def parse? (text : String) : Option Toml :=
  let chars := match text.toList with
    | c :: rest => if c = '\ufeff' then rest else c :: rest
    | [] => []
  ((linesWithin (chars.length + 1) {}).run chars).map fun (draft, _) =>
    (Node.table .header draft.root).finish

end SwiftDialect.Toml
