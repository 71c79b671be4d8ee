import SwiftDialect.Source

/-!
# Files

Opening a file gives a reader, or a reason why there is none. A file tree is a directory with all
that is in it; paths are followed in it one component at a time, with the reasons that an operating
system would give.
-/

namespace SwiftDialect

/-- What comes of an attempt to open a file. -/
inductive Opening where
  /-- There is nothing under that name. -/
  | missing (reason : String)
  /-- There is something, but it cannot be opened. -/
  | closed (reason : String)
  | opened (reader : Reader)
  deriving DecidableEq, Repr, Inhabited

/-- All that a sequence of reads brings up to its end, unless one of them fails. -/
def Read.collect : List Read → Except String (List UInt8)
  | [] => .ok []
  | .interrupted :: rest => collect rest
  | .failed reason :: _ => .error reason
  | .bytes [] :: _ => .ok []
  | .bytes chunk :: rest => (collect rest).map (chunk ++ ·)

/-- All the bytes that a reader still brings. -/
def Reader.contents (r : Reader) : Except String (List UInt8) :=
  (Read.collect r.reads).map (r.pending ++ ·)

/-- All the bytes of a file. -/
def Opening.contents : Opening → Except String (List UInt8)
  | .missing reason => .error reason
  | .closed reason => .error reason
  | .opened reader => reader.contents

/-- A file, or a directory with all that is in it. -/
inductive FileTree where
  | file (bytes : List UInt8)
  | directory (entries : List (String × FileTree))
  deriving Inhabited

namespace FileTree

/-! ### Reasons -/

/-- No entry has that name. -/
def noEntry : String := "No such file or directory (os error 2)"

/-- A path leads through a file. -/
def notDirectory : String := "Not a directory (os error 20)"

/-- A directory has no bytes to read. -/
def isDirectory : String := "Is a directory (os error 21)"

/-- A name is longer than a directory can hold. -/
def nameTooLong : String := "File name too long (os error 36)"

/-- A path holds the character that ends all paths. -/
def holdsNul : String := "file name contained an unexpected NUL byte"

/-! ### Following paths -/

/-- The longest name, in bytes. -/
def maxName : Nat := 255

/-- The longest path, in bytes. -/
def maxPath : Nat := 4095

/-- The components of a path. -/
def components (path : String) : List String :=
  path.splitOn "/"

/-- Does the component of a path stay where it is? -/
def isIdle (name : String) : Bool :=
  name == "" || name == "."

/-- Follows the components of a path from a place in the tree; `above` holds the directories around
it, the innermost first. Nothing is known of what lies outside the tree, so a path that leaves it
finds empty directories there. -/
def follow : List FileTree → FileTree → List String → Except String FileTree
  | _, here, [] => .ok here
  | _, .file _, _ :: _ => .error notDirectory
  | above, .directory entries, name :: rest =>
    if isIdle name then follow above (.directory entries) rest
    else if name = ".." then
      match above with
      | [] => follow [] (.directory []) rest
      | outer :: above => follow above outer rest
    else if maxName < name.utf8ByteSize then .error nameTooLong
    else
      match entries.lookup name with
      | some inner => follow (.directory entries :: above) inner rest
      | none => .error noEntry

/-- What a path leads to. A path that starts with a slash starts outside the tree. -/
def find (path : String) (tree : FileTree) : Except String FileTree :=
  if path.contains '\x00' then .error holdsNul
  else if path.isEmpty then .error noEntry
  else if maxPath < path.utf8ByteSize then .error nameTooLong
  else follow [] (if path.startsWith "/" then .directory [] else tree) (components path)

/-- The reader of a file. A directory can be opened, but not read. -/
def reader : FileTree → Reader
  | .file bytes => .ofBytes bytes
  | .directory _ => { reads := [.failed isDirectory] }

/-- Opens what a path leads to. -/
def openAt (tree : FileTree) (path : String) : Opening :=
  match tree.find path with
  | .ok found => .opened found.reader
  | .error reason => .missing reason

/-! ### Building -/

/-- The names on the way to a place, after those in `above` (the innermost first); `none` if the
path leaves the tree. -/
def placeFrom : List String → List String → Option (List String)
  | above, [] => some above.reverse
  | above, name :: rest =>
    if isIdle name then placeFrom above rest
    else if name = ".." then
      match above with
      | [] => none
      | _ :: above => placeFrom above rest
    else placeFrom (name :: above) rest

/-- The names on the way to the place that a path means; `none` if it lies outside the tree. -/
def place? (path : String) : Option (List String) :=
  if path.startsWith "/" then none else placeFrom [] (components path)

/-- Puts something in a place. A directory joins one that is there already; all else gives way. -/
def put : FileTree → FileTree → FileTree
  | .directory added, .directory entries => .directory (entries ++ added)
  | added, _ => added

/-- Adds a tree in a place, and the directories on the way. -/
def insert (added : FileTree) : List String → FileTree → FileTree
  | [], tree => put added tree
  | name :: rest, tree =>
    let entries := match tree with
      | .directory entries => entries
      | .file _ => []
    let inner := insert added rest ((entries.lookup name).getD (.directory []))
    .directory ((entries.filter (·.1 != name)) ++ [(name, inner)])

/-- The tree of a list of paths with what they lead to. Paths outside the tree are left out. -/
def ofList (entries : List (String × FileTree)) : FileTree :=
  let add (tree : FileTree) (entry : String × FileTree) : FileTree :=
    match place? entry.1 with
    | some names => insert entry.2 names tree
    | none => tree
  entries.foldl add (.directory [])

end FileTree

end SwiftDialect
