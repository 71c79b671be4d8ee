import SwiftDialect.Binary64.Shortest
import SwiftDialect.Syntax
import SwiftDialect.Text.Quoted

/-!
# Syntax trees as outlines

An outline shows a tree with one part a line, each level four columns further in. Every part, the
last one too, ends in a comma.
-/

namespace SwiftDialect

/-- What an outline is made of. -/
inductive Outline where
  /-- A text on one line. -/
  | atom (text : String)
  /-- Named parts in braces. -/
  | record (name : String) (parts : List (String × Outline))
  /-- One part in parentheses. -/
  | wrapper (name : String) (part : Outline)
  /-- Items in brackets. -/
  | list (items : List Outline)
  deriving Repr, Inhabited

namespace Outline

/-- A line end followed by the indentation of a level. -/
def newline (level : Nat) : String :=
  String.ofList ('\n' :: List.replicate (4 * level) ' ')

mutual

/-- The outline at a level of indentation. -/
def renderAt (level : Nat) : Outline → String
  | .atom text => text
  | .record name parts =>
    name ++ " \x7b" ++ renderParts (level + 1) parts ++ newline level ++ "\x7d"
  | .wrapper name part =>
    name ++ "(" ++ newline (level + 1) ++ renderAt (level + 1) part ++ "," ++ newline level ++ ")"
  | .list [] => "[]"
  | .list (item :: rest) =>
    "[" ++ renderItems (level + 1) (item :: rest) ++ newline level ++ "]"

/-- Named parts, each on lines of its own. -/
def renderParts (level : Nat) : List (String × Outline) → String
  | [] => ""
  | part :: rest => renderPart level part ++ renderParts level rest

/-- A named part on lines of its own. -/
def renderPart (level : Nat) : String × Outline → String
  | (name, part) => newline level ++ name ++ ": " ++ renderAt level part ++ ","

/-- Items, each on lines of its own. -/
def renderItems (level : Nat) : List Outline → String
  | [] => ""
  | item :: rest => newline level ++ renderAt level item ++ "," ++ renderItems level rest

end

/-- The outline as text. -/
def render (o : Outline) : String :=
  renderAt 0 o

/-- Numbers keep a fraction or an exponent, and positional notation lasts from `1e-4` up to
`1e16`. -/
def floatLayout : Binary64.Layout where
  positionalFrom := -4
  positionalTo := 16
  plus := ""
  tie := .up
  infinity := some "inf"
  noNumber := "NaN"

end Outline

def Location.outline (l : Location) : Outline :=
  .wrapper "Location" (.atom (toString l.handle))

def TypeRef.outline (t : TypeRef) : Outline :=
  .record "Type" [("kind", .atom t.kind.name), ("location", t.location.outline)]

def Declaration.outline (d : Declaration) : Outline :=
  .record "DeclRef"
    [("location", d.location.outline), ("ty", .atom d.type.name), ("binding", .atom d.binding.name)]

def Expr.outline : Expr → Outline
  | .integer value location =>
    .record "IntegerLit" [("value", .atom (toString value)), ("location", location.outline)]
  | .float value location =>
    .record "FloatLit"
      [("value", .atom (value.render Outline.floatLayout)), ("location", location.outline)]
  | .string value location =>
    .record "StringLit" [("value", .atom (Quoted.quote value)), ("location", location.outline)]
  | .name ident declaration location =>
    let referent := match declaration with
      | none => .atom "None"
      | some declaration => .wrapper "Some" declaration.outline
    .record "Name"
      [("ident", .atom (Quoted.quote ident)), ("decl", referent), ("location", location.outline)]
  | .binary op lhs rhs =>
    .record "BinaryOp" [("op", .atom op.name), ("lhs", lhs.outline), ("rhs", rhs.outline)]
  | .unary op operand location =>
    .record "UnaryOp"
      [("op", .atom op.name), ("operand", operand.outline), ("location", location.outline)]
  | .ifThen condition thenBranch location =>
    .record "If"
      [("condition", condition.outline), ("then_branch", thenBranch.outline),
       ("else_branch", .atom "None"), ("location", location.outline)]
  | .ifThenElse condition thenBranch elseBranch location =>
    .record "If"
      [("condition", condition.outline), ("then_branch", thenBranch.outline),
       ("else_branch", .wrapper "Some" elseBranch.outline), ("location", location.outline)]

def VarDecl.outline (d : VarDecl) : Outline :=
  .record "VarDecl"
    [("ident", .atom (Quoted.quote d.ident)), ("ty", d.type.outline),
     ("binding", .atom d.binding.name), ("location", d.location.outline)]

/-- A list of statements in braces. -/
def Outline.block (statements : List Outline) : Outline :=
  .record "BraceStmt" [("stmts", .list statements)]

mutual

def Stmt.outline : Stmt → Outline
  | .declare declaration => declaration.outline
  | .eval expr => .wrapper "Expr" expr.outline
  | .loop condition body location =>
    .record "While"
      [("condition", condition.outline), ("body", .block (Stmt.outlineList body)),
       ("location", location.outline)]

def Stmt.outlineList : List Stmt → List Outline
  | [] => []
  | s :: rest => s.outline :: Stmt.outlineList rest

end

def Program.outline (p : Program) : Outline :=
  .record "TopLevelCodeDecl" [("body", .block (Stmt.outlineList p.body))]

end SwiftDialect
