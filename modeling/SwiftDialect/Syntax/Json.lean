import SwiftDialect.Json
import SwiftDialect.Syntax

/-!
# Syntax trees as JSON

A node is an object with one field, which is named for the form of the node and holds its parts.
-/

namespace SwiftDialect

/-- A location is its handle. -/
def Location.toJson (l : Location) : Json :=
  .nat l.handle

/-- The parts of a node under the name of its form. -/
def Json.tagged (form : String) (parts : List (String × Json)) : Json :=
  .object [(form, .object parts)]

def TypeRef.toJson (t : TypeRef) : Json :=
  .object [("kind", .string t.kind.name), ("location", t.location.toJson)]

def Declaration.toJson (d : Declaration) : Json :=
  .object
    [("location", d.location.toJson), ("ty", .string d.type.name),
     ("binding", .string d.binding.name)]

def Expr.toJson : Expr → Json
  | .integer value location =>
    .tagged "IntegerLit" [("value", .int value), ("location", location.toJson)]
  | .float value location =>
    .tagged "FloatLit" [("value", .float value), ("location", location.toJson)]
  | .string value location =>
    .tagged "StringLit" [("value", .string value), ("location", location.toJson)]
  | .name ident declaration location =>
    .tagged "Name"
      [("ident", .string ident), ("decl", .option Declaration.toJson declaration),
       ("location", location.toJson)]
  | .binary op lhs rhs =>
    .tagged "BinaryOp" [("op", .string op.name), ("lhs", lhs.toJson), ("rhs", rhs.toJson)]
  | .unary op operand location =>
    .tagged "UnaryOp"
      [("op", .string op.name), ("operand", operand.toJson), ("location", location.toJson)]
  | .ifThen condition thenBranch location =>
    .tagged "If"
      [("condition", condition.toJson), ("then_branch", thenBranch.toJson),
       ("else_branch", .null), ("location", location.toJson)]
  | .ifThenElse condition thenBranch elseBranch location =>
    .tagged "If"
      [("condition", condition.toJson), ("then_branch", thenBranch.toJson),
       ("else_branch", elseBranch.toJson), ("location", location.toJson)]

def VarDecl.toJson (d : VarDecl) : Json :=
  .tagged "VarDecl"
    [("ident", .string d.ident), ("ty", d.type.toJson), ("binding", .string d.binding.name),
     ("location", d.location.toJson)]

mutual

def Stmt.toJson : Stmt → Json
  | .declare declaration => declaration.toJson
  | .eval expr => .object [("Expr", expr.toJson)]
  | .loop condition body location =>
    .tagged "While"
      [("condition", condition.toJson), ("body", .array (Stmt.listToJson body)),
       ("location", location.toJson)]

def Stmt.listToJson : List Stmt → List Json
  | [] => []
  | s :: rest => s.toJson :: Stmt.listToJson rest

end

def Program.toJson (p : Program) : Json :=
  .object [("body", .array (Stmt.listToJson p.body))]

end SwiftDialect
