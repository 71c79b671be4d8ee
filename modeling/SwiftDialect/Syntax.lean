import SwiftDialect.Binary64
import SwiftDialect.Location
import SwiftDialect.Token

/-!
# Syntax trees

Every node carries the location of its first token, except a binary operation, which stands where
its left operand does. Trees can represent conditional expressions, loops, truth values and a test
for equality, none of which can be written in a program yet.
-/

namespace SwiftDialect

/-- The scalar types. -/
inductive TypeName where
  | int32
  | int64
  | uint32
  | uint64
  | float
  | double
  /-- The type of truth values, which has no spelling. -/
  | bool
  deriving DecidableEq, Repr, Inhabited

namespace TypeName

/-- Every type. -/
def all : List TypeName :=
  [.int32, .int64, .uint32, .uint64, .float, .double, .bool]

/-- The name of a type in written trees. -/
def name : TypeName → String
  | .int32 => "Int32"
  | .int64 => "Int64"
  | .uint32 => "Uint32"
  | .uint64 => "Uint64"
  | .float => "Float"
  | .double => "Double"
  | .bool => "Bool"

/-- How the type is written in a program. -/
def spelling? : TypeName → Option String
  | .bool => none
  | type => some type.name

/-- The type that a reserved word stands for. -/
def ofKeyword? : TokenKind → Option TypeName
  | .kwInt32 => some .int32
  | .kwInt64 => some .int64
  | .kwUint32 => some .uint32
  | .kwUint64 => some .uint64
  | .kwFloat => some .float
  | .kwDouble => some .double
  | _ => none

end TypeName

/-- A type written at some place. -/
structure TypeRef where
  kind : TypeName
  location : Location
  deriving DecidableEq, Repr, Inhabited

/-- The operators between two operands. -/
inductive BinaryOp where
  | add
  | sub
  | mul
  | div
  | mod
  /-- Equality, which has no spelling as an operator. -/
  | eq
  | neq
  | lt
  | gt
  | leq
  | geq
  deriving DecidableEq, Repr, Inhabited

namespace BinaryOp

/-- Every operator. -/
def all : List BinaryOp :=
  [.add, .sub, .mul, .div, .mod, .eq, .neq, .lt, .gt, .leq, .geq]

/-- The name of an operator in written trees. -/
def name : BinaryOp → String
  | .add => "Add"
  | .sub => "Sub"
  | .mul => "Mul"
  | .div => "Div"
  | .mod => "Mod"
  | .eq => "Eq"
  | .neq => "Neq"
  | .lt => "Lt"
  | .gt => "Gt"
  | .leq => "Leq"
  | .geq => "Geq"

end BinaryOp

/-- The operators before an operand. -/
inductive UnaryOp where
  | neg
  | plus
  deriving DecidableEq, Repr, Inhabited

/-- The name of an operator in written trees. -/
def UnaryOp.name : UnaryOp → String
  | .neg => "Neg"
  | .plus => "Plus"

/-- How a variable was introduced. -/
inductive Binding where
  | byLet
  | byVar
  deriving DecidableEq, Repr, Inhabited

namespace Binding

/-- The name of a binding in written trees. -/
def name : Binding → String
  | .byLet => "Let"
  | .byVar => "Var"

/-- The binding that a reserved word introduces. -/
def ofKeyword? : TokenKind → Option Binding
  | .kwLet => some .byLet
  | .kwVar => some .byVar
  | _ => none

end Binding

/-- The declaration that a name refers to. -/
structure Declaration where
  location : Location
  type : TypeName
  binding : Binding
  deriving DecidableEq, Repr, Inhabited

/-- Expressions. -/
inductive Expr where
  | integer (value : Int) (location : Location)
  | float (value : Binary64) (location : Location)
  | string (value : String) (location : Location)
  /-- A use of a variable. -/
  | name (ident : String) (declaration : Option Declaration) (location : Location)
  | binary (op : BinaryOp) (lhs rhs : Expr)
  | unary (op : UnaryOp) (operand : Expr) (location : Location)
  | ifThen (condition thenBranch : Expr) (location : Location)
  | ifThenElse (condition thenBranch elseBranch : Expr) (location : Location)
  deriving DecidableEq, Repr, Inhabited

/-- Where the expression stands. -/
def Expr.location : Expr → Location
  | .integer _ location | .float _ location | .string _ location | .name _ _ location
  | .unary _ _ location | .ifThen _ _ location | .ifThenElse _ _ _ location => location
  | .binary _ lhs _ => lhs.location

/-- Are the two trees equal, with numbers compared by value? -/
def Expr.same : Expr → Expr → Bool
  | .float x l, .float y m => x.same y && l == m
  | .binary op a b, .binary op' a' b' => op == op' && a.same a' && b.same b'
  | .unary op a l, .unary op' a' m => op == op' && a.same a' && l == m
  | .ifThen c t l, .ifThen c' t' m => c.same c' && t.same t' && l == m
  | .ifThenElse c t e l, .ifThenElse c' t' e' m =>
    c.same c' && t.same t' && e.same e' && l == m
  | .integer n l, .integer k m => n == k && l == m
  | .string s l, .string t m => s == t && l == m
  | .name x d l, .name y e m => x == y && d == e && l == m
  | _, _ => false

/-- The declaration of a variable. -/
structure VarDecl where
  ident : String
  type : TypeRef
  binding : Binding
  location : Location
  deriving DecidableEq, Repr, Inhabited

/-- Statements. -/
inductive Stmt where
  | declare (declaration : VarDecl)
  | eval (expr : Expr)
  | loop (condition : Expr) (body : List Stmt) (location : Location)
  deriving Repr, Inhabited

/-- Where the statement stands. -/
def Stmt.location : Stmt → Location
  | .declare declaration => declaration.location
  | .eval expr => expr.location
  | .loop _ _ location => location

mutual

/-- Are the two statements equal, with numbers compared by value? -/
def Stmt.same : Stmt → Stmt → Bool
  | .declare d, .declare e => d == e
  | .eval a, .eval b => a.same b
  | .loop c body l, .loop c' body' m => c.same c' && Stmt.sameList body body' && l == m
  | _, _ => false

/-- Are the two lists of statements equal, with numbers compared by value? -/
def Stmt.sameList : List Stmt → List Stmt → Bool
  | [], [] => true
  | s :: rest, t :: rest' => s.same t && Stmt.sameList rest rest'
  | _, _ => false

end

/-- A whole program. -/
structure Program where
  body : List Stmt := []
  deriving Repr, Inhabited

/-- Are the two programs equal, with numbers compared by value? -/
def Program.same (p q : Program) : Bool :=
  Stmt.sameList p.body q.body

end SwiftDialect
