import SwiftDialect.Command

/-!
# The program

Opens the files that the command line names, does what it asks for, and prints the outcome.
-/

namespace SwiftDialect

/-- The number and the details of a failure of the operating system. -/
def failureOf : IO.Error → Nat × String
  | .noFileOrDirectory _ code details | .interrupted _ code details => (code.toNat, details)
  | .permissionDenied _ code details | .inappropriateType _ code details
  | .noSuchThing _ code details | .invalidArgument _ code details
  | .resourceExhausted _ code details | .alreadyExists _ code details => (code.toNat, details)
  | .otherError code details | .unsupportedOperation code details => (code.toNat, details)
  | e => (0, toString e)

/-- What comes of an attempt to open a file that failed. Numbers may arrive with their sign
turned. -/
def openingOf (e : IO.Error) : Opening :=
  let (code, details) := failureOf e
  let number := if Nat.pow 2 31 ≤ code then Nat.pow 2 32 - code else code
  match number with
  | 2 => .missing FileTree.noEntry
  | 20 => .missing FileTree.notDirectory
  | 21 => .opened (FileTree.directory []).reader
  | 36 => .missing FileTree.nameTooLong
  | 13 => .closed "Permission denied (os error 13)"
  | _ => .closed (details ++ " (os error " ++ toString number ++ ")")

/-- Opens a file. -/
def openPath (path : String) : IO Opening := do
  try
    let bytes ← IO.FS.readBinFile path
    return .opened (.ofBytes bytes.toList)
  catch e => return openingOf e

/-- Runs the program on its arguments and prints the outcome; gives the exit code. -/
def runWith (arguments : List String) : IO UInt32 := do
  let opened ← (Command.paths (.ofArguments arguments)).mapM fun path =>
    return (path, ← openPath path)
  let files (path : String) := (opened.lookup path).getD (.missing FileTree.noEntry)
  let outcome := Command.run arguments files
  IO.print outcome.stdout
  IO.eprint outcome.stderr
  return UInt32.ofNat outcome.code

end SwiftDialect

/-- Runs the program. -/
def main (arguments : List String) : IO UInt32 :=
  SwiftDialect.runWith arguments
