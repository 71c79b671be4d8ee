import SwiftDialect.Toml

/-!
# Building tables

A document names its tables piece by piece, and each table may be defined only once. How a table
came to be decides what may still be added to it:

* a table with a header of its own is complete when the next header comes;
* a table that only occurs on the way to another one may still get its header;
* a table that dotted keys have made may be extended by dotted keys, but gets no header.
-/

namespace SwiftDialect.Toml

/-- How a table came to be. -/
inductive TableKind where
  /-- It has a header, or it is the whole document. -/
  | header
  /-- It lies on the way to a table with a header. -/
  | implied
  /-- Dotted keys made it. -/
  | dotted
  deriving DecidableEq, Repr

/-- What an entry of an unfinished table holds. -/
inductive Node where
  | value (value : Toml)
  | table (kind : TableKind) (entries : List (String × Node))
  /-- An array of tables, of which only the last can be added to. -/
  | tables (earlier : List (List (String × Node))) (last : List (String × Node))
  deriving Inhabited

/-- The entries of an unfinished table. -/
abbrev Entries := List (String × Node)

namespace Entries

/-- Puts a node in the place of the one under `key`. -/
def replace (key : String) (node : Node) (entries : Entries) : Entries :=
  entries.map fun (k, n) => if k == key then (k, node) else (k, n)

/-- Adds a node at the end. -/
def add (key : String) (node : Node) (entries : Entries) : Entries :=
  entries ++ [(key, node)]

/-- Changes the table at the end of a path, and makes the tables on the way if need be, of kind
`made`. A path of dotted keys may not pass through a table that has a header. -/
def update (made : TableKind) (change : TableKind → Entries → Option Entries) :
    List String → TableKind → Entries → Option Entries
  | [], kind, entries => change kind entries
  | key :: path, _, entries =>
    match entries.lookup key with
    | none => do
      let inner ← update made change path made []
      return entries.add key (.table made inner)
    | some (.value _) => none
    | some (.table kind inner) =>
      if made = .dotted ∧ kind = .header then none
      else do
        let inner ← update made change path kind inner
        return entries.replace key (.table kind inner)
    | some (.tables earlier last) => do
      let last ← update made change path .header last
      return entries.replace key (.tables earlier last)

/-- Adds a value under a dotted key. -/
def insert (path : List String) (key : String) (value : Toml) (kind : TableKind)
    (entries : Entries) : Option Entries :=
  let change (kind : TableKind) (entries : Entries) : Option Entries :=
    if (kind == .dotted) == path.isEmpty || (entries.lookup key).isSome then none
    else some (entries.add key (.value value))
  update .dotted change path kind entries

/-- Adds a value under a dotted key to the table at the end of a path. -/
def insertAt (current path : List String) (key : String) (value : Toml) (root : Entries) :
    Option Entries :=
  update .implied (insert path key value) current .header root

/-- Gives a table its header. -/
def openTable (path : List String) (key : String) (root : Entries) : Option Entries :=
  let change (_ : TableKind) (entries : Entries) : Option Entries :=
    match entries.lookup key with
    | none => some (entries.add key (.table .header []))
    | some (.table .implied inner) => some (entries.replace key (.table .header inner))
    | some _ => none
  update .implied change path .header root

/-- Starts the next table of an array of tables. -/
def openElement (path : List String) (key : String) (root : Entries) : Option Entries :=
  let change (_ : TableKind) (entries : Entries) : Option Entries :=
    match entries.lookup key with
    | none => some (entries.add key (.tables [] []))
    | some (.tables earlier last) =>
      some (entries.replace key (.tables (earlier ++ [last]) []))
    | some _ => none
  update .implied change path .header root

end Entries

mutual

/-- The finished value of a node. -/
def Node.finish : Node → Toml
  | .value held => held
  | .table _ entries => .table (Node.finishEntries entries)
  | .tables earlier last =>
    .array (Node.finishTables earlier ++ [.table (Node.finishEntries last)])

/-- The finished entries of a table. -/
def Node.finishEntries : List (String × Node) → List (String × Toml)
  | [] => []
  | entry :: rest => Node.finishEntry entry :: Node.finishEntries rest

/-- The finished form of an entry. -/
def Node.finishEntry : String × Node → String × Toml
  | (key, node) => (key, node.finish)

/-- The finished tables of an array. -/
def Node.finishTables : List (List (String × Node)) → List Toml
  | [] => []
  | entries :: rest => .table (Node.finishEntries entries) :: Node.finishTables rest

end

end SwiftDialect.Toml
