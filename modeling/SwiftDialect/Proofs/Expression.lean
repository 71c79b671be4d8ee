import SwiftDialect.Proofs.Grammar

/-!
# Reading expressions

What the parser makes of a parse tree. A tree *fits* if there is room for its nesting and all its
literals and names have a value. The parser reads every tree that fits, and gives the value in which
the operators are grouped by their power.
-/

namespace SwiftDialect

/-- The symbol that a name means in these scopes. -/
def Scopes.resolve (scopes : Scopes) (name : String) : Option Symbol :=
  scopes.mappings.findSome? (·.get? name)

theorem Scopes.lookup_eq {scopes : Scopes} (h : scopes.mappings ≠ []) (name : String) :
    scopes.lookup name = .ok (scopes.resolve name) := by
  simp [lookup, resolve, h]

/-- The value of a literal or a name. -/
def leafValue? (scopes : Scopes) (t : Token) : Option Expr :=
  match t.kind with
  | .integerLiteral => (integerValue t.text).toOption.map (.integer · t.location)
  | .floatLiteral => (floatValue t.text).toOption.map (.float · t.location)
  | .stringLiteral => some (.string t.text t.location)
  | .identifier => (scopes.resolve t.text).map fun s => .name t.text s.declaration t.location
  | _ => none

namespace Operand

/-- A literal or name. -/
def leaf (t : Token) (value : Expr) : Operand :=
  ⟨[t], [.skip], value, rfl⟩

/-- An operand with a prefix operator before it. -/
def sign (t : Token) (op : UnaryOp) (o : Operand) : Operand where
  tokens := t :: o.tokens
  moves := .skip :: o.moves
  value := .unary op o.value t.location
  consumed := by
    have := o.consumed
    simp only [skipCount] at this ⊢
    simp [this]

/-- An expression in parentheses. -/
def group (l : Token) (s : Spine) (r : Token) : Operand where
  tokens := l :: (s.tokens ++ [r])
  moves := .skip :: .record .parsingExpression :: (s.moves ++ [.skip])
  value := s.value
  consumed := by
    have := s.skipCount_moves
    simp only [skipCount] at this ⊢
    simp [this]

end Operand

namespace Parse

variable {τ : Type} [TokenSource τ] {scopes : Scopes}

/-! ### One level of nesting -/

theorem reads_deeper {m : Parse τ Expr} {o : Operand} (h : Reads m scopes o) :
    Reads (deeper m) scopes o := by
  intro p rest hsc hy
  have := h { p with depth := p.depth + 1 } rest hsc hy
  simp only [deeper, this]
  rfl

theorem sticks_deeper {m : Parse τ Expr} {used : List Token} {bad : Token} {moves : List Move}
    (h : Sticks m scopes used bad moves) : Sticks (deeper m) scopes used bad moves := by
  intro p rest hsc hy
  have := h { p with depth := p.depth + 1 } rest hsc hy
  simp only [deeper, this]
  rfl

/-! ### Literals and names -/

theorem literal_ok {p : Parser τ} {v : Expr} (hv : leafValue? p.scopes p.next = some v)
    (hk : p.next.kind ≠ .identifier) : literal p = (.ok v, p.skipped) := by
  unfold leafValue? at hv
  split at hv
  · next hkind =>
    cases h : integerValue p.next.text with
    | error e => simp [h, Except.toOption] at hv
    | ok n => simp_all [literal, bind_run, Except.toOption, Except.map]
  · next hkind =>
    cases h : floatValue p.next.text with
    | error e => simp [h, Except.toOption] at hv
    | ok x => simp_all [literal, bind_run, Except.toOption, Except.map]
  · next hkind => simp_all [literal, bind_run]
  · next hkind => exact absurd hkind hk
  · cases hv

theorem name_ok {p : Parser τ} {v : Expr} (hopen : p.scopes.mappings ≠ [])
    (hv : leafValue? p.scopes p.next = some v) (hk : p.next.kind = .identifier) :
    name p = (.ok v, p.skipped) := by
  rw [name, bind_ok (expect_ok hk)]
  cases h : p.scopes.resolve p.next.text with
  | none => simp [leafValue?, hk, h] at hv
  | some s =>
    simp only [leafValue?, hk, h, Option.map_some, Option.some.injEq] at hv
    simp [bind_run, resolve, Scopes.lookup_eq hopen, h, hv]

/-- A token that has a value starts no operand with a prefix operator and no group. -/
theorem kind_of_leafValue {t : Token} {v : Expr} (h : leafValue? scopes t = some v) :
    t.kind = .identifier ∨ t.kind = .integerLiteral ∨ t.kind = .floatLiteral ∨
      t.kind = .stringLiteral := by
  unfold leafValue? at h
  split at h <;> simp_all

theorem reads_leaf {t : Token} {v : Expr} (hopen : scopes.mappings ≠ [])
    (hv : leafValue? scopes t = some v) (bound room : Nat) :
    Reads (τ := τ) (unaryWithin bound (room + 1)) scopes (.leaf t v) := by
  refine reads_deeper fun p rest hsc hy => ?_
  obtain rfl : p.next = t := hy.next_eq
  subst hsc
  rcases kind_of_leafValue hv with hk | hk | hk | hk
  · simp [bind_run, hk, UnaryOp.ofToken?, primaryWith,
      name_ok (p := p.peeked) hopen hv hk, Operand.leaf]
  all_goals
    have hne : p.peeked.next.kind ≠ .identifier := by rw [Parser.next_peeked, hk]; decide
    simp [bind_run, hk, UnaryOp.ofToken?, primaryWith,
      literal_ok (p := p.peeked) hv hne, Operand.leaf]

/-! ### Prefix operators and parentheses -/

theorem reads_sign {bound room : Nat} {t : Token} {op : UnaryOp} {o : Operand}
    (hop : UnaryOp.ofToken? t.kind = some op) (h : Reads (τ := τ) (unaryWithin bound room) scopes o) :
    Reads (τ := τ) (unaryWithin bound (room + 1)) scopes (.sign t op o) := by
  refine reads_deeper fun p rest hsc hy => ?_
  obtain ⟨rfl, hy'⟩ := Parser.yields_cons.1 hy
  simp [bind_run, hop, h p.skipped rest hsc hy', Operand.sign]

variable [LawfulTokenSource τ]

theorem reads_group {bound room : Nat} {l r : Token} {s : Spine} (hl : l.kind = .leftParen)
    (hr : r.kind = .rightParen) (hcl : s.Climbs 0)
    (hall : s.All (Reads (τ := τ) (unaryWithin bound room) scopes))
    (hbound : s.tokens.length ≤ bound) :
    Reads (τ := τ) (unaryWithin bound (room + 1)) scopes (.group l s r) := by
  refine reads_deeper fun p rest hsc hy => ?_
  obtain ⟨rfl, hy'⟩ : p.next = l ∧ p.skipped.Yields (s.tokens ++ r :: rest) := by
    simpa [Operand.group, Parser.yields_cons] using hy
  -- the closing parenthesis is no operator, so the loop inside ends before it
  have hstop : Stops 0 r := by intro op hop; simp [hr, BinaryOp.ofToken?] at hop
  have hinner := binaryWith_spine (p := p.skipped.recorded .parsingExpression) hcl hall
    (by decide : levelsFrom 0 ≤ BinaryOp.levels) hbound hsc (hy'.recorded _) hstop
  have hclose : ((p.skipped.recorded .parsingExpression).play s.moves).next = r :=
    ((hy'.recorded _).play s.skipCount_moves).next_eq
  have hskip := skipExpected_ok (k := .rightParen)
    (p := ((p.skipped.recorded .parsingExpression).play s.moves).peeked)
    (by rw [Parser.next_peeked, hclose]; exact hr)
  simp [bind_run, hl, UnaryOp.ofToken?, primaryWith, expressionWith, hinner, hskip, Operand.group]

end Parse

/-! ### What a tree stands for -/

namespace Tree

/-- The spine of a tree: its operators are grouped by their power, at every level of nesting. -/
def spine {f : Phrase} (scopes : Scopes) : Tree f → Spine
  | .leaf t => .operand (.leaf t.1 ((leafValue? scopes t.1).getD default))
  | .sign t e =>
    .operand (.sign t.1 ((UnaryOp.ofToken? t.1.kind).getD default) (e.spine scopes).toOperand)
  | .group l e r => .operand (.group l.1 (e.spine scopes) r.1)
  | .single e => e.spine scopes
  | .chain l op r =>
    (l.spine scopes).extend op.1 ((BinaryOp.ofToken? op.1.kind).getD default)
      (r.spine scopes).toOperand

/-- The moves that read the tree. -/
def moves {f : Phrase} : Tree f → List Move
  | .leaf _ => [.skip]
  | .sign _ e => .skip :: e.moves
  | .group _ e _ => .skip :: .record .parsingExpression :: (e.moves ++ [.skip])
  | .single e => e.moves
  | .chain l _ r => l.moves ++ .skip :: r.moves

/-- The expression that the tree stands for. -/
def value {f : Phrase} (scopes : Scopes) (t : Tree f) : Expr :=
  (t.spine scopes).value

/-- Is there room for the nesting of the tree, and do all its literals and names have a value? -/
def Fits {f : Phrase} (scopes : Scopes) (room : Nat) : Tree f → Prop
  | .leaf t => 0 < room ∧ (leafValue? scopes t.1).isSome
  | .sign _ e => 0 < room ∧ e.Fits scopes (room - 1)
  | .group _ e _ => 0 < room ∧ e.Fits scopes (room - 1)
  | .single e => e.Fits scopes room
  | .chain l _ r => l.Fits scopes room ∧ r.Fits scopes room

@[simp] theorem tokens_spine {f : Phrase} (scopes : Scopes) (t : Tree f) :
    (t.spine scopes).tokens = t.tokens := by
  induction t with
  | leaf t => rfl
  | sign t e ih => simp [spine, Spine.tokens, Operand.sign, Spine.toOperand, tokens, ih]
  | group l e r ih => simp [spine, Spine.tokens, Operand.group, tokens, ih]
  | single e ih => exact ih
  | chain l op r ihl ihr => simp [spine, Spine.tokens_extend, Spine.toOperand, tokens, ihl, ihr]

@[simp] theorem moves_spine {f : Phrase} (scopes : Scopes) (t : Tree f) :
    (t.spine scopes).moves = t.moves := by
  induction t with
  | leaf t => rfl
  | sign t e ih => simp [spine, Spine.moves, Operand.sign, Spine.toOperand, moves, ih]
  | group l e r ih => simp [spine, Spine.moves, Operand.group, moves, ih]
  | single e ih => exact ih
  | chain l op r ihl ihr => simp [spine, Spine.moves_extend, Spine.toOperand, moves, ihl, ihr]

theorem skipCount_moves {f : Phrase} (t : Tree f) : skipCount t.moves = t.tokens.length := by
  rw [← tokens_spine default, ← moves_spine default, Spine.skipCount_moves]

/-- The spine of an operand is that operand alone. -/
theorem spine_unary (scopes : Scopes) (t : Tree .unary) :
    t.spine scopes = .operand (t.spine scopes).toOperand := by
  cases t <;> rfl

end Tree

theorem operator_of_mem {k : TokenKind} (h : k ∈ operatorKinds) :
    BinaryOp.ofToken? k = some ((BinaryOp.ofToken? k).getD default) := by
  cases k <;> first | rfl | simp [operatorKinds] at h

theorem sign_of_mem {k : TokenKind} (h : k ∈ [TokenKind.minus, TokenKind.plus]) :
    UnaryOp.ofToken? k = some ((UnaryOp.ofToken? k).getD default) := by
  cases k <;> first | rfl | simp at h

namespace Parse

variable {τ : Type} [TokenSource τ] [LawfulTokenSource τ] {scopes : Scopes}

/-- The parser reads each operand of a tree that fits. -/
theorem reads_tree (hopen : scopes.mappings ≠ []) {bound : Nat} {f : Phrase} (t : Tree f) :
    ∀ {room : Nat}, t.Fits scopes room → t.tokens.length ≤ bound →
      (t.spine scopes).Climbs 0 ∧
        (t.spine scopes).All (Reads (τ := τ) (unaryWithin bound room) scopes) := by
  induction t with
  | leaf t =>
    rintro room ⟨hroom, hv⟩ _
    obtain ⟨room, rfl⟩ := Nat.exists_eq_succ_of_ne_zero (Nat.ne_of_gt hroom)
    obtain ⟨v, hv⟩ := Option.isSome_iff_exists.1 hv
    rw [Tree.spine, hv]
    exact ⟨trivial, reads_leaf hopen hv bound room⟩
  | sign t e ih =>
    rintro room ⟨hroom, he⟩ hbound
    obtain ⟨room, rfl⟩ := Nat.exists_eq_succ_of_ne_zero (Nat.ne_of_gt hroom)
    have hall := (ih he (Nat.le_of_succ_le hbound)).2
    rw [Tree.spine_unary] at hall
    exact ⟨trivial, reads_sign (sign_of_mem t.2) hall⟩
  | group l e r ih =>
    rintro room ⟨hroom, he⟩ hbound
    obtain ⟨room, rfl⟩ := Nat.exists_eq_succ_of_ne_zero (Nat.ne_of_gt hroom)
    have hle : e.tokens.length ≤ bound := by
      simp only [Tree.tokens, List.length_cons, List.length_append] at hbound
      omega
    obtain ⟨hcl, hall⟩ := ih he hle
    exact ⟨trivial, reads_group (List.mem_singleton.1 l.2) (List.mem_singleton.1 r.2) hcl hall
      (by rwa [Tree.tokens_spine])⟩
  | single e ih => exact ih
  | chain l op r ihl ihr =>
    rintro room ⟨hl, hr⟩ hbound
    simp only [Tree.tokens, List.length_cons, List.length_append] at hbound
    obtain ⟨hcl, hall⟩ := ihl hl (by omega)
    -- an operator of any power is read at the outermost level, where the lowest one is asked for
    have hallr := (ihr hr (by omega)).2
    rw [Tree.spine_unary] at hallr
    exact ⟨Spine.climbs_extend _ _ _ (operator_of_mem op.2) hcl (Nat.zero_le _),
      Spine.all_extend _ _ _ hall hallr⟩

end Parse

end SwiftDialect
