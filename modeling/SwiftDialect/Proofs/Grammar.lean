import Mathlib.Data.Nat.Digits.Defs
import SwiftDialect.Proofs.Precedence

/-!
# The grammar as parse trees

    program   = stmt* EOF
    stmt      = var_decl | expr ";"
    var_decl  = ("let" | "var") IDENT ":" type ";"
    expr      = unary (binop unary)*
    unary     = ("-" | "+") unary | INT | FLOAT | STRING | IDENT | "(" expr ")"

A parse tree carries the tokens it derives, each with the proof that its kind is one that the rule
allows, so that a tree which breaks a rule cannot be written down. The tokens of a tree are what it
derives; its *leaves* are the literals and names in it, each with the number of parentheses and
prefix operators around it.
-/

namespace SwiftDialect

/-- A token of one of the given kinds. -/
abbrev Terminal (kinds : List TokenKind) : Type :=
  { token : Token // token.kind ∈ kinds }

/-- The kinds of the operators between two operands. -/
def operatorKinds : List TokenKind :=
  [.less, .greater, .lessEqual, .greaterEqual, .notEqual, .plus, .minus, .asterisk, .slash, .percent]

/-- The kinds of the scalar types. -/
def typeKinds : List TokenKind :=
  [.kwInt32, .kwInt64, .kwUint32, .kwUint64, .kwFloat, .kwDouble]

/-- The two kinds of phrase in an expression. -/
inductive Phrase where
  | expr
  | unary

/-- Parse trees of expressions and of operands. -/
inductive Tree : Phrase → Type where
  | leaf (token : Terminal [.integerLiteral, .floatLiteral, .stringLiteral, .identifier]) :
      Tree .unary
  | sign (token : Terminal [.minus, .plus]) (operand : Tree .unary) : Tree .unary
  | group (left : Terminal [.leftParen]) (inner : Tree .expr) (right : Terminal [.rightParen]) :
      Tree .unary
  | single (operand : Tree .unary) : Tree .expr
  | chain (lhs : Tree .expr) (op : Terminal operatorKinds) (rhs : Tree .unary) : Tree .expr

namespace Tree

/-- The tokens that the tree derives. -/
def tokens {f : Phrase} : Tree f → List Token
  | .leaf t => [t.1]
  | .sign t e => t.1 :: e.tokens
  | .group l e r => l.1 :: (e.tokens ++ [r.1])
  | .single e => e.tokens
  | .chain l op r => l.tokens ++ op.1 :: r.tokens

/-- The literals and names of the tree, each with the number of parentheses and prefix operators
around it, `depth` of which stand outside of the tree. -/
def leaves {f : Phrase} (depth : Nat) : Tree f → List (Nat × Token)
  | .leaf t => [(depth, t.1)]
  | .sign _ e => e.leaves (depth + 1)
  | .group _ e _ => e.leaves (depth + 1)
  | .single e => e.leaves depth
  | .chain l _ r => l.leaves depth ++ r.leaves depth

/-- Every tree has a leaf, and no leaf lies outside of its tree. -/
theorem exists_leaf {f : Phrase} (t : Tree f) (depth : Nat) : ∃ l ∈ t.leaves depth, depth ≤ l.1 := by
  induction t generalizing depth with
  | leaf t => exact ⟨(depth, t.1), List.mem_singleton_self _, Nat.le_refl _⟩
  | sign t e ih =>
    obtain ⟨l, hl, hle⟩ := ih (depth + 1)
    exact ⟨l, hl, Nat.le_of_succ_le hle⟩
  | group l e r ih =>
    obtain ⟨l, hl, hle⟩ := ih (depth + 1)
    exact ⟨l, hl, Nat.le_of_succ_le hle⟩
  | single e ih => exact ih depth
  | chain l op r ih _ =>
    obtain ⟨x, hx, hle⟩ := ih depth
    exact ⟨x, List.mem_append_left _ hx, hle⟩

end Tree

/-- Parse trees of statements. -/
inductive Sentence where
  | declaration (intro : Terminal [.kwLet, .kwVar]) (ident : Terminal [.identifier])
      (colon : Terminal [.colon]) (type : Terminal typeKinds) (semicolon : Terminal [.semicolon])
  | evaluation (expr : Tree .expr) (semicolon : Terminal [.semicolon])

namespace Sentence

/-- The tokens that the statement derives. -/
def tokens : Sentence → List Token
  | .declaration intro ident colon type semicolon =>
    [intro.1, ident.1, colon.1, type.1, semicolon.1]
  | .evaluation expr semicolon => expr.tokens ++ [semicolon.1]

/-- The literals and names in the expressions of the statement. -/
def leaves : Sentence → List (Nat × Token)
  | .declaration .. => []
  | .evaluation expr _ => expr.leaves 0

/-- The name that the statement declares. -/
def declared? : Sentence → Option String
  | .declaration _ ident .. => some ident.1.text
  | .evaluation .. => none

end Sentence

/-- The number that a run of decimal digits denotes. -/
def decimalValue (text : String) : Nat :=
  Nat.ofDigits 10 (text.toList.reverse.map fun c => c.toNat - '0'.toNat)

/-- What the grammar alone does not say about the statements of a program. -/
structure Admissible (sentences : List Sentence) : Prop where
  /-- A name is declared by an earlier statement. -/
  declared : ∀ before s after, sentences = before ++ s :: after → ∀ l ∈ s.leaves,
    l.2.kind = .identifier → ∃ d ∈ before, d.declared? = some l.2.text
  /-- Integer literals fit. -/
  integers : ∀ s ∈ sentences, ∀ l ∈ s.leaves, l.2.kind = .integerLiteral →
    decimalValue l.2.text ≤ 2 ^ 63 - 1
  /-- Floating point literals have a digit. -/
  floats : ∀ s ∈ sentences, ∀ l ∈ s.leaves, l.2.kind = .floatLiteral →
    ∃ c ∈ l.2.text.toList, c.isDigit
  /-- No more than 127 parentheses and prefix operators stand around a literal or name. -/
  nesting : ∀ s ∈ sentences, ∀ l ∈ s.leaves, l.1 ≤ 127

/-- The tokens derive from the grammar, and the program that they form is admissible. -/
def IsProgram (ts : List Token) : Prop :=
  ∃ (sentences : List Sentence) (eof : Token), eof.kind = .endOfFile ∧
    ts = sentences.flatMap Sentence.tokens ++ [eof] ∧ Admissible sentences

end SwiftDialect
