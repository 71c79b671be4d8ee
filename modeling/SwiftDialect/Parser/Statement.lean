import SwiftDialect.Parser.Expression

/-!
# Statements and programs

    program   = stmt* EOF
    stmt      = var_decl | expr ";"
    var_decl  = ("let" | "var") IDENT ":" type ";"
    type      = "Int32" | "Int64" | "Uint32" | "Uint64" | "Float" | "Double"

A program opens a scope of its own. Declaring a name that its scope already knows draws a warning,
and the later declaration counts from then on.
-/

namespace SwiftDialect.Parse

variable {τ : Type} [TokenSource τ]

/-- Reads a type. -/
def type : Parse τ TypeRef := do
  let token ← peek
  match TypeName.ofKeyword? token.kind with
  | some kind =>
    skip
    return ⟨kind, token.location⟩
  | none => unexpected token

/-- Declares a variable in the innermost scope. -/
def declare (ident : Token) (declaration : Declaration) : Parse τ Unit := do
  let mapping ← ofExcept (← scopes).current
  if mapping.contains ident.text then
    report (.redeclaredName ident.text) ident.location
  -- the warning comes before the checks of the symbol, which never fail for an identifier
  let symbol ← ofExcept (Symbol.make ident.text .var)
  let symbol ← ofExcept (symbol.bind declaration)
  let (_, extended) ← ofExcept ((← scopes).insert symbol)
  setScopes extended

/-- Reads the declaration of a variable, and declares it. -/
def varDecl : Parse τ Stmt := do
  let intro ← peek
  match Binding.ofKeyword? intro.kind with
  | none => unexpected intro
  | some binding =>
    skip
    let ident ← expect .identifier
    skip
    skipExpected .colon
    let type ← type
    skipExpected .semicolon
    -- the name is known only after the semicolon, and not if that is missing
    declare ident ⟨intro.location, type.kind, binding⟩
    return .declare ⟨ident.text, type, binding, intro.location⟩

/-- Reads an expression that stands as a statement, with at most `bound` operators in a row. -/
def evaluationWithin (bound : Nat) : Parse τ Stmt := do
  let expr ← expressionWithin bound
  skipExpected .semicolon
  return .eval expr

/-- Rejects a loop, which has no grammar yet. -/
def loop : Parse τ Stmt := do
  let token ← peek
  reject (.unsupported "while statements") token.location

/-- Reads a statement; its first token tells which form it has. -/
def statementWithin (bound : Nat) : Parse τ Stmt := do
  record .parsingStatement
  let token ← peek
  match token.kind with
  | .kwLet | .kwVar => varDecl
  | .kwWhile => loop
  | .identifier | .kwIf | .integerLiteral | .floatLiteral | .stringLiteral | .leftParen
  | .rightParen | .plus | .minus => evaluationWithin bound
  | _ => unexpected token

/-- Reads statements up to the end token; at most `bound` tokens come before it. -/
def statementsWithin : Nat → Parse τ (List Stmt)
  | 0 => do
    let _ ← peek
    return []
  | bound + 1 => do
    let token ← peek
    if token.kind = .endOfFile then return []
    else
      let first ← statementWithin (bound + 1)
      let rest ← statementsWithin bound
      return first :: rest

/-! ### The procedures themselves

Every statement and every operator takes at least one token, so the number of tokens left bounds
how many of them come. -/

/-- Reads an expression that stands as a statement. -/
def evaluation : Parse τ Stmt := do
  evaluationWithin (← tokensLeft)

/-- Reads a statement. -/
def statement : Parse τ Stmt := do
  statementWithin (← tokensLeft)

/-- Reads statements up to the end token. -/
def statements : Parse τ (List Stmt) := do
  statementsWithin (← tokensLeft)

/-- Reads a whole program, in a scope of its own. -/
def program : Parse τ Program := do
  record .parsingProgram
  openScope
  -- the scope is closed on the way out of a rejection as well
  let body ← attempt statements
  closeScope
  match body with
  | some body =>
    record (.parsedProgram body.length)
    return ⟨body⟩
  | none => stop .rejected

end SwiftDialect.Parse
