import SwiftDialect.Syntax

/-!
# Scopes

A scope maps names to symbols, in the order in which the names were first declared. Scopes are
nested: a name means the symbol of the innermost open scope that knows it.

Some operations may only be used under a precondition, for instance that a scope is open. Breaking
one is a mistake of the caller, which the operation answers with a `Violation`.
-/

namespace SwiftDialect

/-- What a symbol names. -/
inductive SymbolKind where
  | invalid
  | var
  | typename
  deriving DecidableEq, Repr, Inhabited

namespace SymbolKind

/-- The name of a kind of symbol. -/
def name : SymbolKind → String
  | .invalid => "Invalid"
  | .var => "Variable"
  | .typename => "Typename"

/-- Every kind of symbol. -/
def all : List SymbolKind :=
  [.invalid, .var, .typename]

end SymbolKind

/-- A precondition that a caller broke. -/
inductive Violation where
  /-- There is no scope to close. -/
  | noScopeToClose
  /-- There is no scope to declare something in. -/
  | noOpenScope
  /-- There is no scope to look a name up in. -/
  | lookupWithoutScope
  /-- A symbol must have a name. -/
  | emptyName
  /-- Only variables have declarations. -/
  | notVariable (name : String) (kind : SymbolKind)
  deriving DecidableEq, Repr, Inhabited

/-- The violation in words. -/
def Violation.message : Violation → String
  | .noScopeToClose => "pop_scope with no open scope"
  | .noOpenScope => "no open scope"
  | .lookupWithoutScope => "lookup with no open scope"
  | .emptyName => "symbol name must not be empty"
  | .notVariable name kind =>
    "assertion `left == right` failed: only variables bind a declaration (symbol '" ++ name
      ++ "')\n  left: " ++ kind.name ++ "\n right: " ++ SymbolKind.var.name

/-- A named entity; only variables carry a declaration. -/
structure Symbol where
  name : String
  kind : SymbolKind
  declaration : Option Declaration := none
  deriving DecidableEq, Repr, Inhabited

namespace Symbol

/-- A symbol without a declaration. -/
def make (name : String) (kind : SymbolKind) : Except Violation Symbol :=
  if name.isEmpty then .error .emptyName else .ok { name, kind }

/-- Gives a variable its declaration. -/
def bind (s : Symbol) (declaration : Declaration) : Except Violation Symbol :=
  if s.kind = .var then .ok { s with declaration := some declaration }
  else .error (.notVariable s.name s.kind)

end Symbol

/-- The symbols of one scope, in the order in which their names were first declared. -/
structure Mapping where
  symbols : List Symbol := []
  deriving DecidableEq, Repr, Inhabited

namespace Mapping

/-- The symbol with a given name. -/
def get? (m : Mapping) (name : String) : Option Symbol :=
  m.symbols.find? (·.name == name)

/-- Is there a symbol with this name? -/
def contains (m : Mapping) (name : String) : Bool :=
  (m.get? name).isSome

/-- Puts a symbol in the place of the one with its name, or at the end if there is none. -/
def insertInto (symbol : Symbol) : List Symbol → List Symbol
  | [] => [symbol]
  | other :: rest =>
    if other.name == symbol.name then symbol :: rest else other :: insertInto symbol rest

/-- Declares a symbol; gives back the symbol that it replaces. -/
def insert (m : Mapping) (symbol : Symbol) : Option Symbol × Mapping :=
  (m.get? symbol.name, ⟨insertInto symbol m.symbols⟩)

end Mapping

/-- The open scopes, the innermost first. -/
structure Scopes where
  mappings : List Mapping := []
  deriving DecidableEq, Repr, Inhabited

namespace Scopes

/-- How many scopes are open. -/
def depth (s : Scopes) : Nat :=
  s.mappings.length

/-- Opens a scope without symbols. -/
def push (s : Scopes) : Scopes :=
  ⟨{} :: s.mappings⟩

/-- Closes the innermost scope. -/
def pop (s : Scopes) : Except Violation (Mapping × Scopes) :=
  match s.mappings with
  | [] => .error .noScopeToClose
  | innermost :: rest => .ok (innermost, ⟨rest⟩)

/-- The innermost scope. -/
def current (s : Scopes) : Except Violation Mapping :=
  match s.mappings with
  | [] => .error .noOpenScope
  | innermost :: _ => .ok innermost

/-- Declares a symbol in the innermost scope; gives back the symbol that it replaces. -/
def insert (s : Scopes) (symbol : Symbol) : Except Violation (Option Symbol × Scopes) :=
  match s.mappings with
  | [] => .error .noOpenScope
  | innermost :: rest =>
    let (replaced, mapping) := innermost.insert symbol
    .ok (replaced, ⟨mapping :: rest⟩)

/-- The symbol that a name means. -/
def lookup (s : Scopes) (name : String) : Except Violation (Option Symbol) :=
  if s.mappings.isEmpty then .error .lookupWithoutScope
  else .ok (s.mappings.findSome? (·.get? name))

end Scopes

end SwiftDialect
