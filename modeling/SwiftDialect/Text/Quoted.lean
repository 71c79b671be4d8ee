import SwiftDialect.Text.Unshown

/-!
# Quoted text

Text between double quotes, so written that it fits on one line and every character can be seen:
quotes, backslashes and the common control characters stand behind a backslash, and whatever else
would not be seen is written as its code point.
-/

namespace SwiftDialect.Quoted

/-- A code point in hexadecimal, in braces. -/
def codePoint (c : Char) : List Char :=
  ['\\', 'u', '{'] ++ Nat.toDigits 16 c.toNat ++ ['}']

/-- One character inside the quotes. -/
def escape (c : Char) : List Char :=
  if c = '"' then ['\\', '"']
  else if c = '\\' then ['\\', '\\']
  else if c = '\n' then ['\\', 'n']
  else if c = '\r' then ['\\', 'r']
  else if c = '\t' then ['\\', 't']
  else if c.toNat = 0 then ['\\', '0']
  else if Unshown.isUnshown c then codePoint c
  else [c]

/-- The text in quotes. -/
def quote (text : String) : String :=
  String.ofList ('"' :: text.toList.flatMap escape ++ ['"'])

end SwiftDialect.Quoted
