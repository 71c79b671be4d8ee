/-!
# Message templates

A template is a text with named holes, each a name in braces. Filling a template is one pass from
left to right: each hole is replaced by the value of the first parameter with its name, a hole that
no parameter names is left as it stands, and so is an opening brace that is never closed. What is
filled in is not looked at again.
-/

namespace SwiftDialect.Template

/-- Named values, in the order in which they were given. -/
abbrev Params := List (String × String)

/-- The text of the hole called `name`: the first value under that name, else the hole itself. -/
def hole (params : Params) (name : List Char) : List Char :=
  match params.find? (·.1.toList == name) with
  | some (_, value) => value.toList
  | none => '{' :: name ++ ['}']

/-- Fills the rest of a template. Outside a hole the first argument is `none`; inside one it holds
the letters of the hole's name read so far, the last one first. -/
def fillFrom (params : Params) : Option (List Char) → List Char → List Char
  | none, [] => []
  | none, c :: rest =>
    if c = '{' then fillFrom params (some []) rest else c :: fillFrom params none rest
  | some name, [] => '{' :: name.reverse
  | some name, c :: rest =>
    if c = '}' then hole params name.reverse ++ fillFrom params none rest
    else fillFrom params (some (c :: name)) rest

/-- Fills the holes of a template. -/
def fill (params : Params) (template : String) : String :=
  String.ofList (fillFrom params none template.toList)

end SwiftDialect.Template
