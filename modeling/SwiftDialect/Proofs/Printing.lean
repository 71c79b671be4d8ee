import SwiftDialect.Parser.Expression
import SwiftDialect.Proofs.Spelling

/-!
# Writing programs down

A program is written down with parentheses only where the grouping asks for them, and with single
spaces between its lexemes. Not every tree can be written: conditional expressions, loops, truth values
and the test for equality have no spelling, names must be declared, and nothing may be nested too
deeply. The trees that can be are called *printable*.
-/

namespace SwiftDialect

/-! ### Trees without places -/

/-- The declaration without its place. -/
def Declaration.erase (d : Declaration) : Declaration :=
  { d with location := default }

/-- The expression without its places. -/
def Expr.erase : Expr → Expr
  | .integer n _ => .integer n default
  | .float x _ => .float x default
  | .string s _ => .string s default
  | .name x d _ => .name x (d.map Declaration.erase) default
  | .binary op l r => .binary op l.erase r.erase
  | .unary op e _ => .unary op e.erase default
  | .ifThen c t _ => .ifThen c.erase t.erase default
  | .ifThenElse c t e _ => .ifThenElse c.erase t.erase e.erase default

mutual

/-- The statement without its places. -/
def Stmt.erase : Stmt → Stmt
  | .declare d => .declare { d with type := { d.type with location := default }, location := default }
  | .eval e => .eval e.erase
  | .loop c body _ => .loop c.erase (Stmt.eraseAll body) default

/-- The statements without their places. -/
def Stmt.eraseAll : List Stmt → List Stmt
  | [] => []
  | s :: ss => s.erase :: Stmt.eraseAll ss

end

/-- The program without its places. -/
def Program.erase (p : Program) : Program :=
  ⟨Stmt.eraseAll p.body⟩

/-! ### The lexemes of a program -/

/-- The token before an operand. -/
def UnaryOp.kind : UnaryOp → TokenKind
  | .neg => .minus
  | .plus => .plus

/-- The token between two operands; equality has none. -/
def BinaryOp.kind : BinaryOp → TokenKind
  | .add => .plus
  | .sub => .minus
  | .mul => .asterisk
  | .div => .slash
  | .mod => .percent
  | .eq => .lastMarker
  | .neq => .notEqual
  | .lt => .less
  | .gt => .greater
  | .leq => .lessEqual
  | .geq => .greaterEqual

/-- The reserved word of a binding. -/
def Binding.kind : Binding → TokenKind
  | .byLet => .kwLet
  | .byVar => .kwVar

/-- The reserved word of a type; that of truth values has none. -/
def TypeName.kind : TypeName → TokenKind
  | .int32 => .kwInt32
  | .int64 => .kwInt64
  | .uint32 => .kwUint32
  | .uint64 => .kwUint64
  | .float => .kwFloat
  | .double => .kwDouble
  | .bool => .lastMarker

namespace Expr

/-- Is the expression an operation on two operands? -/
def isBinary : Expr → Bool
  | .binary .. => true
  | _ => false

/-- Is the expression an operation on two operands that binds less tightly than `power`? -/
def looserThan (power : Nat) : Expr → Bool
  | .binary op _ _ => op.power < power
  | _ => false

/-- Puts parentheses around the lexemes where they are needed. -/
def enclose (needed : Bool) (xs : List Lexeme) : List Lexeme :=
  if needed then ⟨.leftParen, ""⟩ :: (xs ++ [⟨.rightParen, ""⟩]) else xs

/-- The lexemes of an expression. Parentheses stand around an operation on two operands if it is the
operand of a prefix operator, a left operand that binds less tightly than its operator, or a right
operand that binds no more tightly. -/
def lexemes : Expr → List Lexeme
  | .integer n _ => [⟨.integerLiteral, toString n⟩]
  | .string s _ => [⟨.stringLiteral, s⟩]
  | .name x _ _ => [⟨.identifier, x⟩]
  | .unary op e _ => ⟨op.kind, ""⟩ :: enclose e.isBinary e.lexemes
  | .binary op l r =>
    enclose (l.looserThan op.power) l.lexemes ++
      ⟨op.kind, ""⟩ :: enclose (r.looserThan (op.power + 1)) r.lexemes
  | .float .. | .ifThen .. | .ifThenElse .. => []

/-- The greatest number of parentheses and prefix operators that stand around a literal or name. -/
def nesting : Expr → Nat
  | .unary _ e _ => e.nesting + e.isBinary.toNat + 1
  | .binary op l r =>
    max (l.nesting + (l.looserThan op.power).toNat)
      (r.nesting + (r.looserThan (op.power + 1)).toNat)
  | _ => 0

end Expr

/-- The lexemes of a statement. -/
def Stmt.lexemes : Stmt → List Lexeme
  | .declare d => [⟨d.binding.kind, ""⟩, ⟨.identifier, d.ident⟩, ⟨.colon, ""⟩, ⟨d.type.kind.kind, ""⟩,
      ⟨.semicolon, ""⟩]
  | .eval e => e.lexemes ++ [⟨.semicolon, ""⟩]
  | .loop .. => []

/-- The text of a program: its lexemes with single spaces between them. -/
def Program.text (p : Program) : String :=
  String.ofList (Lexeme.written (p.body.flatMap Stmt.lexemes))

/-! ### Printable programs -/

/-- The variable that the statement declares. -/
def Stmt.declared? : Stmt → Option VarDecl
  | .declare d => some d
  | _ => none

/-- The latest declaration of a name among the statements. -/
def latest? (earlier : List Stmt) (name : String) : Option VarDecl :=
  earlier.reverse.findSome? fun s => s.declared?.filter (·.ident = name)

/-- What a name that refers to the variable is bound to. -/
def VarDecl.declaration (d : VarDecl) : Declaration :=
  ⟨d.location, d.type.kind, d.binding⟩

/-- Can the expression be written after these statements? Integers are those of 64 bits, and a name
refers to its latest declaration. -/
def Expr.Printable (earlier : List Stmt) : Expr → Prop
  | .integer n _ => 0 ≤ n ∧ n ≤ maxInteger
  | .string s _ => ∀ c ∈ s.toList, c ≠ '"' ∧ c ≠ '\n'
  | .name x d _ => ∃ v, latest? earlier x = some v ∧
      d.map Declaration.erase = some v.declaration.erase
  | .unary _ e _ => e.Printable earlier
  | .binary op l r => op ≠ .eq ∧ l.Printable earlier ∧ r.Printable earlier
  | .float .. | .ifThen .. | .ifThenElse .. => False

/-- Can the statement be written after these statements? -/
def Stmt.Printable (earlier : List Stmt) : Stmt → Prop
  | .declare d => IsIdentifier d.ident ∧ d.type.kind ≠ .bool
  | .eval e => e.Printable earlier ∧ e.nesting ≤ 127
  | .loop .. => False

/-- Can the program be written? -/
def Program.Printable (p : Program) : Prop :=
  ∀ before s after, p.body = before ++ s :: after → s.Printable before

/-! ### What is printed can be written -/

theorem toList_decimal (k : Nat) : (toString (k : Int)).toList = Nat.toDigits 10 k := by
  rw [show toString (k : Int) = k.repr from rfl, Nat.repr_eq_ofList_toDigits, String.toList_ofList]

/-- The value of an integer that is written down is that integer. -/
theorem integerValue_decimal {n : Int} (h : 0 ≤ n) (hmax : n ≤ maxInteger) :
    integerValue (toString n) = .ok n := by
  obtain ⟨k, rfl⟩ := Int.eq_ofNat_of_zero_le h
  have hvalue : Binary64.digitsValue 0 (Nat.toDigits 10 k) = k :=
    Nat.ofDigitChars_toDigits (by decide) (by decide)
  have hdigits : (Nat.toDigits 10 k).all Char.isDigit :=
    List.all_eq_true.2 fun c hc => Nat.isDigit_of_mem_toDigits (by decide) (by decide) hc
  have hne : (Nat.toDigits 10 k).isEmpty = false := by simp [Nat.toDigits_ne_nil]
  have hle : k ≤ maxInteger := Int.ofNat_le.1 hmax
  simp only [integerValue, toList_decimal, hvalue, hdigits, hne]
  simp [hle]

namespace Lexeme

theorem writable_sign {k : TokenKind} (h : k ∈ CharClass.signKinds) : Writable ⟨k, ""⟩ := by
  refine ⟨valid_sign h, fun hk => ?_⟩
  rw [show k = .endOfFile from hk] at h
  exact absurd h (by decide)

theorem writable_word {k : TokenKind} (h : k.isKeyword) : Writable ⟨k, ""⟩ := by
  refine ⟨valid_keyword (CharClass.description_keyword h).2, fun hk => ?_⟩
  rw [show k = .endOfFile from hk] at h
  exact absurd h (by decide)

theorem writable_identifier {text : String} (h : IsIdentifier text) : Writable ⟨.identifier, text⟩ :=
  ⟨h, nofun⟩

theorem writable_decimal {n : Int} (h : 0 ≤ n) : Writable ⟨.integerLiteral, toString n⟩ := by
  obtain ⟨k, rfl⟩ := Int.eq_ofNat_of_zero_le h
  refine ⟨⟨?_, ?_⟩, nofun⟩
  · rw [toList_decimal]
    exact Nat.toDigits_ne_nil
  · rw [toList_decimal]
    exact fun c hc => Nat.isDigit_of_mem_toDigits (by decide) (by decide) hc

end Lexeme

theorem UnaryOp.kind_sign (op : UnaryOp) : op.kind ∈ CharClass.signKinds := by
  cases op <;> decide

theorem BinaryOp.kind_sign {op : BinaryOp} (h : op ≠ .eq) : op.kind ∈ CharClass.signKinds := by
  cases op <;> first | exact absurd rfl h | decide

theorem Binding.kind_word (b : Binding) : b.kind.isKeyword := by
  cases b <;> rfl

theorem TypeName.kind_word {t : TypeName} (h : t ≠ .bool) : t.kind.isKeyword := by
  cases t <;> first | exact absurd rfl h | rfl

theorem Expr.writable_enclose {xs : List Lexeme} (h : ∀ x ∈ xs, x.Writable) (needed : Bool) :
    ∀ x ∈ enclose needed xs, x.Writable := by
  have hleft : Lexeme.Writable ⟨.leftParen, ""⟩ := Lexeme.writable_sign (by decide)
  have hright : Lexeme.Writable ⟨.rightParen, ""⟩ := Lexeme.writable_sign (by decide)
  cases needed with
  | false => exact h
  | true =>
    intro x hx
    simp only [enclose, if_true, List.mem_cons, List.mem_append, List.not_mem_nil, or_false] at hx
    rcases hx with rfl | hx | rfl
    · exact hleft
    · exact h x hx
    · exact hright

/-- A name that has a latest declaration is the name of one of the variables. -/
theorem mem_of_latest {earlier : List Stmt} {x : String} {v : VarDecl}
    (h : latest? earlier x = some v) : .declare v ∈ earlier ∧ v.ident = x := by
  obtain ⟨s, hs, hv⟩ := List.exists_of_findSome?_eq_some h
  obtain ⟨hdecl, hx⟩ := Option.filter_eq_some_iff.1 hv
  cases s with
  | declare d =>
    obtain rfl : d = v := Option.some.inj hdecl
    exact ⟨List.mem_reverse.1 hs, of_decide_eq_true hx⟩
  | eval e => cases hdecl
  | loop c body l => cases hdecl

theorem Expr.Printable.writable {earlier : List Stmt}
    (hnames : ∀ d, Stmt.declare d ∈ earlier → IsIdentifier d.ident) {e : Expr}
    (h : e.Printable earlier) : ∀ x ∈ e.lexemes, x.Writable := by
  induction e with
  | integer n l => simpa [lexemes] using Lexeme.writable_decimal h.1
  | string s l =>
    have hs : Lexeme.Writable ⟨.stringLiteral, s⟩ := ⟨h, nofun⟩
    simpa [lexemes] using hs
  | name x d l =>
    obtain ⟨v, hv, -⟩ := h
    obtain ⟨hmem, rfl⟩ := mem_of_latest hv
    simpa [lexemes] using Lexeme.writable_identifier (hnames v hmem)
  | unary op e l ih =>
    exact List.forall_mem_cons.2 ⟨Lexeme.writable_sign op.kind_sign, writable_enclose (ih h) _⟩
  | binary op l r ihl ihr =>
    obtain ⟨hop, hl, hr⟩ := h
    refine List.forall_mem_append.2 ⟨writable_enclose (ihl hl) _, ?_⟩
    exact List.forall_mem_cons.2 ⟨Lexeme.writable_sign (BinaryOp.kind_sign hop),
      writable_enclose (ihr hr) _⟩
  | float x l => exact h.elim
  | ifThen c t l => exact h.elim
  | ifThenElse c t e l => exact h.elim

theorem Stmt.Printable.writable {earlier : List Stmt}
    (hnames : ∀ d, Stmt.declare d ∈ earlier → IsIdentifier d.ident) {s : Stmt}
    (h : s.Printable earlier) : ∀ x ∈ s.lexemes, x.Writable := by
  have hsemi : Lexeme.Writable ⟨.semicolon, ""⟩ := Lexeme.writable_sign (by decide)
  cases s with
  | declare d =>
    obtain ⟨hident, htype⟩ := h
    simp only [lexemes, List.forall_mem_cons, List.not_mem_nil, false_imp_iff, implies_true, and_true]
    exact ⟨Lexeme.writable_word d.binding.kind_word, Lexeme.writable_identifier hident,
      Lexeme.writable_sign (by decide), Lexeme.writable_word (TypeName.kind_word htype), hsemi⟩
  | eval e =>
    refine List.forall_mem_append.2 ⟨h.1.writable hnames, ?_⟩
    simpa using hsemi
  | loop c body l => exact h.elim

/-- A printable program is written with lexemes of the right shape. -/
theorem Program.Printable.writable {p : Program} (h : p.Printable) :
    ∀ x ∈ p.body.flatMap Stmt.lexemes, x.Writable := by
  intro x hx
  obtain ⟨s, hs, hx⟩ := List.mem_flatMap.1 hx
  obtain ⟨before, after, hsplit⟩ := List.append_of_mem hs
  refine (h before s after hsplit).writable (fun d hd => ?_) x hx
  obtain ⟨before', after', rfl⟩ := List.append_of_mem hd
  exact (h before' (.declare d) (after' ++ s :: after) (by simp [hsplit])).1

end SwiftDialect
