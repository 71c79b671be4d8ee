import SwiftDialect.Parser

/-!
# Expressions

    expr      = unary (binop unary)*
    unary     = ("-" | "+") unary | primary
    primary   = INT | FLOAT | STRING | IDENT | "(" expr ")"

Operators are read by binding power: an operator takes as its right operand everything that binds
more tightly than itself, so operators of equal power group to the left. Comparisons bind loosest,
then come sums, then products.

Prefix operators and parentheses can be nested. The procedures below count how much *room* for
nesting is left, and reject an operand for which there is none.
-/

namespace SwiftDialect

/-- How many operands can stand one inside the other. -/
def maxNesting : Nat := 128

/-- The greatest value of an integer literal. -/
def maxInteger : Nat := Nat.pow 2 63 - 1

namespace BinaryOp

/-- The operator that a token between two operands stands for. -/
def ofToken? : TokenKind → Option BinaryOp
  | .less => some .lt
  | .greater => some .gt
  | .lessEqual => some .leq
  | .greaterEqual => some .geq
  | .notEqual => some .neq
  | .plus => some .add
  | .minus => some .sub
  | .asterisk => some .mul
  | .slash => some .div
  | .percent => some .mod
  | _ => none

/-- How tightly the operator binds its operands. -/
def power : BinaryOp → Nat
  | .eq | .neq | .lt | .gt | .leq | .geq => 10
  | .add | .sub => 20
  | .mul | .div | .mod => 30

/-- How many operators can wait for their right operands at one level of nesting, the one being
read included: one of each power, and the operand itself. -/
def levels : Nat := 4

end BinaryOp

/-- The operator that a token before an operand stands for. -/
def UnaryOp.ofToken? : TokenKind → Option UnaryOp
  | .minus => some .neg
  | .plus => some .plus
  | _ => none

/-- A literal whose text has no value. -/
inductive LiteralError where
  | integer (text : String)
  | float (text : String)
  deriving DecidableEq, Repr, Inhabited

namespace LiteralError

/-- What kind of literal it is. -/
def kind : LiteralError → String
  | .integer _ => "integer"
  | .float _ => "floating point"

/-- The text of the literal. -/
def text : LiteralError → String
  | .integer text | .float text => text

/-- The problem to report. -/
def problem (e : LiteralError) : Problem :=
  .invalidLiteral e.kind e.text

/-- The error in words. -/
def message (e : LiteralError) : String :=
  e.problem.draft.build.message

end LiteralError

/-- The value of an integer literal. -/
def integerValue (text : String) : Except LiteralError Int :=
  let digits := text.toList
  let value := Binary64.digitsValue 0 digits
  if !digits.isEmpty && digits.all Char.isDigit && value ≤ maxInteger then .ok value
  else .error (.integer text)

/-- The value of a floating point literal. -/
def floatValue (text : String) : Except LiteralError Binary64 :=
  match Binary64.ofDecimal? text.toList with
  | some value => .ok value
  | none => .error (.float text)

namespace Parse

variable {τ : Type} [TokenSource τ]

/-- Reads a literal. A literal without a value is not consumed. -/
def literal : Parse τ Expr := do
  let token ← peek
  let value : Except LiteralError Expr ← match token.kind with
    | .integerLiteral =>
      pure ((integerValue token.text).map (.integer · token.location))
    | .floatLiteral => pure ((floatValue token.text).map (.float · token.location))
    | .stringLiteral => pure (.ok (.string token.text token.location))
    | _ => unexpected token
  match value with
  | .ok expr =>
    skip
    return expr
  | .error e => reject e.problem token.location

/-- Finds out what a name means. -/
def resolve (token : Token) : Parse τ Expr := do
  match ← ofExcept ((← scopes).lookup token.text) with
  | some symbol => return .name token.text symbol.declaration token.location
  | none => reject (.unresolvedName token.text) token.location

/-- Reads a name and finds out what it means. -/
def name : Parse τ Expr := do
  let token ← expect .identifier
  skip
  resolve token

/-- Rejects a conditional expression, which has no grammar yet. -/
def conditional : Parse τ Expr := do
  let token ← peek
  reject (.unsupported "if expressions") token.location

/-- Reads an operand without prefix operators; `inner` reads what stands in parentheses. -/
def primaryWith (inner : Parse τ Expr) : Parse τ Expr := do
  let token ← peek
  match token.kind with
  | .integerLiteral | .floatLiteral | .stringLiteral => literal
  | .identifier => name
  | .leftParen =>
    skip
    let expr ← inner
    skipExpected .rightParen
    return expr
  | .kwIf => conditional
  | _ => unexpected token

/-- Reads the operators that bind at least as tightly as `min` and stand after `lhs`, at most
`bound` of them, each with its right operand; `right` reads operands that bind at least as tightly
as a given power. -/
def operators (right : Nat → Parse τ Expr) (min : Nat) : Nat → Expr → Parse τ Expr
  -- the bound was the number of tokens left, so the next one is the end
  | 0, lhs => do
    let _ ← peek
    return lhs
  | bound + 1, lhs => do
    let token ← peek
    match BinaryOp.ofToken? token.kind with
    | none => return lhs
    | some op =>
      if op.power < min then return lhs
      else
        skip
        -- an operator of equal power is left to this loop, which makes it group to the left
        let rhs ← right (op.power + 1)
        operators right min bound (.binary op lhs rhs)

/-- Reads an operand and the operators after it that bind at least as tightly as `min`, at most
`bound` in a row. Operators that wait for their right operands can be nested `levels` deep. -/
def binaryWith (operand : Parse τ Expr) (bound : Nat) : Nat → Nat → Parse τ Expr
  | 0, _ => operand
  | levels + 1, min => do
    let first ← operand
    operators (binaryWith operand bound levels) min bound first

/-- Reads an expression made of such operands. -/
def expressionWith (operand : Parse τ Expr) (bound : Nat) : Parse τ Expr := do
  record .parsingExpression
  binaryWith operand bound BinaryOp.levels 0

/-- Reads an operand with its prefix operators, where there is room for so many operands one inside
the other. -/
def unaryWithin (bound : Nat) : Nat → Parse τ Expr
  | 0 => do
    let token ← peek
    reject (.nestedTooDeeply maxNesting) token.location
  | room + 1 => deeper do
    let token ← peek
    match UnaryOp.ofToken? token.kind with
    | some op =>
      skip
      let operand ← unaryWithin bound room
      return .unary op operand token.location
    | none => primaryWith (expressionWith (unaryWithin bound room) bound)

/-- How many more operands can stand one inside the other. -/
def room : Parse τ Nat := do
  return maxNesting - (← depth)

/-- Reads an expression with at most `bound` operators in a row. -/
def expressionWithin (bound : Nat) : Parse τ Expr := do
  expressionWith (unaryWithin bound (← room)) bound

/-! ### The procedures themselves

No more operators can come than there are tokens left, which is the bound to start with. -/

/-- Reads an operand with its prefix operators. -/
def unary : Parse τ Expr := do
  unaryWithin (← tokensLeft) (← room)

/-- Reads an operand without prefix operators. -/
def primary : Parse τ Expr := do
  primaryWith (expressionWithin (← tokensLeft))

/-- Reads an operand and the operators after it that bind at least as tightly as `min`. -/
def binary (min : Nat) : Parse τ Expr := do
  let bound ← tokensLeft
  binaryWith (unaryWithin bound (← room)) bound BinaryOp.levels min

/-- Reads an expression. -/
def expression : Parse τ Expr := do
  expressionWithin (← tokensLeft)

end Parse

end SwiftDialect
