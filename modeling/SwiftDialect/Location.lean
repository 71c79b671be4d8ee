/-!
# Locations and the line table

A location is a small number, a *handle*; the line table turns it back into file, line and column.
Each line registered in the table gets a *base*, the handle of its first column, and the handle of
column `c` is `base + (c - 1)`. A new line starts just past the highest handle given out so far, so
the lines of one table occupy disjoint, increasing ranges of handles.

Handles, columns and line numbers are 32-bit quantities that stick at their greatest value.
-/

namespace SwiftDialect

/-- The greatest handle, column or line number. -/
def counterLimit : Nat := 4294967295

/-- Addition that sticks at `counterLimit`. -/
def stickyAdd (a b : Nat) : Nat :=
  min (a + b) counterLimit

/-- A handle for a place in the source; zero stands for no known place. -/
structure Location where
  /-- The number that stands for the place. -/
  handle : Nat
  deriving DecidableEq, Repr, Inhabited

namespace Location

/-- No known place. -/
def unknown : Location := ⟨0⟩

/-- Is this the handle of no known place? -/
def isUnknown (l : Location) : Bool :=
  l.handle == 0

end Location

/-- A place as people write it: both counts start at one. -/
structure Position where
  line : Nat
  column : Nat
  deriving DecidableEq, Repr, Inhabited

/-- Line and column with a colon between them. -/
def Position.render (p : Position) : String :=
  toString p.line ++ ":" ++ toString p.column

/-- A position in a named file. -/
structure FilePosition where
  file : String
  position : Position
  deriving DecidableEq, Repr, Inhabited

/-- File, line and column with colons between them. -/
def FilePosition.render (p : FilePosition) : String :=
  p.file ++ ":" ++ p.position.render

/-- The start of a line: whose line it is, and the handle of its first column. -/
structure LineStart where
  /-- The place of its file among the files of the table. -/
  file : Nat
  line : Nat
  base : Nat
  deriving DecidableEq, Repr, Inhabited

/-- The files and lines seen so far, and the highest handle given out. -/
structure LineTable where
  /-- The files entered so far, the newest last; new lines belong to that one. -/
  files : List String := []
  /-- The registered line starts, the newest first. -/
  starts : List LineStart := []
  /-- The highest handle given out. -/
  highest : Nat := 0
  deriving DecidableEq, Repr, Inhabited

namespace LineTable

/-- The table with no file and no line. -/
def empty : LineTable := {}

/-- The file name that stands in when a line starts before any file was entered. -/
def anonymousFile : String := "<input>"

/-- The file that new lines belong to. -/
def file (t : LineTable) : Option String :=
  t.files.getLast?

/-- How many line starts are registered. -/
def lineCount (t : LineTable) : Nat :=
  t.starts.length

/-- Registers a line just past everything given out so far. -/
def startLine (t : LineTable) (line : Nat) : LineTable :=
  let files := if t.files.isEmpty then [anonymousFile] else t.files
  let base := stickyAdd t.highest 1
  { files, starts := ⟨files.length - 1, line, base⟩ :: t.starts, highest := base }

/-- Makes `name` the current file and registers its first line. -/
def enterFile (t : LineTable) (name : String) : LineTable :=
  { t with files := t.files ++ [name] }.startLine 1

/-- Gives out the handle of a column of the current line; a table without lines starts one. -/
def locate (t : LineTable) (column : Nat) : Location × LineTable :=
  match t.starts with
  | current :: _ =>
    let handle := stickyAdd current.base (column - 1)
    (⟨handle⟩, { t with highest := max t.highest handle })
  | [] =>
    let t := t.startLine 1
    let handle := stickyAdd t.highest (column - 1)
    (⟨handle⟩, { t with highest := max t.highest handle })

/-- The place that a handle stands for: on the newest line that starts at or before it, in the file of
that line. -/
def expand (t : LineTable) (l : Location) : Option FilePosition :=
  if l.isUnknown then none
  else
    (t.starts.find? (·.base ≤ l.handle)).bind fun start =>
      t.files[start.file]?.map (⟨·, start.line, l.handle - start.base + 1⟩)

end LineTable

end SwiftDialect
