/-!
# TOML values

The values that a TOML document can hold. Floating point numbers and dates carry no content here:
no setting takes one, so only their presence counts.
-/

namespace SwiftDialect

/-- A value of a document; the entries of a table stand in the order in which they were written. -/
inductive Toml where
  | string (text : String)
  | integer (value : Int)
  | float
  | boolean (value : Bool)
  | datetime
  | array (items : List Toml)
  | table (entries : List (String × Toml))
  deriving Repr, Inhabited

end SwiftDialect
