import SwiftDialect.Proofs.Procedures

/-!
# Reading operators by their power

The loop over binary operators is described by the *spine* it reads: operands with operators between
them, grouped the way the powers ask for. A spine *climbs* from `min` if each operator has at least
that power, takes on its left only operators that bind no less tightly and on its right only such as
bind more tightly.

Main statements: a spine that climbs is read with exactly that grouping (`binaryWith_spine`), and an
operand that is rejected after an operator rejects the whole (`binaryWith_spine_stuck`). Both hold
for any procedure that reads the operands.
-/

namespace SwiftDialect

/-- An operand as a procedure reads it: its tokens, the moves made on the way, and the result. -/
structure Operand where
  tokens : List Token
  moves : List Move
  value : Expr
  /-- Exactly the tokens of the operand are consumed. -/
  consumed : skipCount moves = tokens.length

/-- Operands with operators between them, as a tree. -/
inductive Spine where
  | operand (o : Operand)
  | node (lhs : Spine) (token : Token) (op : BinaryOp) (rhs : Spine)

namespace Spine

/-- The tokens in order. -/
def tokens : Spine → List Token
  | .operand o => o.tokens
  | .node lhs token _ rhs => lhs.tokens ++ token :: rhs.tokens

/-- The moves that read the spine. -/
def moves : Spine → List Move
  | .operand o => o.moves
  | .node lhs _ _ rhs => lhs.moves ++ .skip :: rhs.moves

/-- The expression that the spine stands for. -/
def value : Spine → Expr
  | .operand o => o.value
  | .node lhs _ op rhs => .binary op lhs.value rhs.value

/-- Does every operand have the property? -/
def All (P : Operand → Prop) : Spine → Prop
  | .operand o => P o
  | .node lhs _ _ rhs => lhs.All P ∧ rhs.All P

/-- Is the grouping the one that the powers of the operators ask for, from `min` up? -/
def Climbs : Nat → Spine → Prop
  | _, .operand _ => True
  | min, .node lhs token op rhs =>
    BinaryOp.ofToken? token.kind = some op ∧ min ≤ op.power ∧ lhs.Climbs op.power ∧
      rhs.Climbs (op.power + 1)

/-- How many operators the outermost loop reads. -/
def turns : Spine → Nat
  | .operand _ => 0
  | .node lhs .. => lhs.turns + 1

theorem skipCount_moves : ∀ s : Spine, skipCount s.moves = s.tokens.length
  | .operand o => o.consumed
  | .node lhs _ _ rhs => by
    simp only [moves, tokens, skipCount_append, List.length_append, List.length_cons,
      lhs.skipCount_moves]
    rw [← rhs.skipCount_moves]
    simp [skipCount]

theorem turns_le : ∀ s : Spine, s.turns ≤ s.tokens.length
  | .operand _ => Nat.zero_le _
  | .node lhs .. => by
    have := lhs.turns_le
    simp only [turns, tokens, List.length_append, List.length_cons]
    omega

theorem Climbs.mono {m n : Nat} (h : m ≤ n) : ∀ {s : Spine}, s.Climbs n → s.Climbs m
  | .operand _, _ => trivial
  | .node .., ⟨htok, hpow, hl, hr⟩ => ⟨htok, Nat.le_trans h hpow, hl, hr⟩

/-- Appends an operator with its right operand: it goes to the right operand of the last operator
as long as that one binds less tightly. -/
def extend (token : Token) (op : BinaryOp) (o : Operand) : Spine → Spine
  | .operand first => .node (.operand first) token op (.operand o)
  | .node lhs token' op' rhs =>
    if op'.power < op.power then .node lhs token' op' (rhs.extend token op o)
    else .node (.node lhs token' op' rhs) token op (.operand o)

section extend

variable (token : Token) (op : BinaryOp) (o : Operand)

theorem tokens_extend (s : Spine) : (s.extend token op o).tokens = s.tokens ++ token :: o.tokens := by
  induction s with
  | operand first => rfl
  | node lhs token' op' rhs _ ihr =>
    rw [extend]
    split
    · simp [tokens, ihr]
    · rfl

theorem moves_extend (s : Spine) : (s.extend token op o).moves = s.moves ++ .skip :: o.moves := by
  induction s with
  | operand first => rfl
  | node lhs token' op' rhs _ ihr =>
    rw [extend]
    split
    · simp [moves, ihr]
    · rfl

theorem all_extend {P : Operand → Prop} {s : Spine} (hs : s.All P) (ho : P o) :
    (s.extend token op o).All P := by
  induction s with
  | operand first => exact ⟨hs, ho⟩
  | node lhs token' op' rhs _ ihr =>
    rw [extend]
    split
    · exact ⟨hs.1, ihr hs.2⟩
    · exact ⟨hs, ho⟩

/-- Appending an operator keeps the grouping right. -/
theorem climbs_extend (hop : BinaryOp.ofToken? token.kind = some op) {s : Spine} :
    ∀ {min : Nat}, s.Climbs min → min ≤ op.power → (s.extend token op o).Climbs min := by
  induction s with
  | operand first => exact fun _ hmin => ⟨hop, hmin, trivial, trivial⟩
  | node lhs token' op' rhs _ ihr =>
    rintro min ⟨htok, hpow, hl, hr⟩ hmin
    rw [extend]
    split
    · next hlt => exact ⟨htok, hpow, hl, ihr hr hlt⟩
    · next hge => exact ⟨hop, hmin, ⟨htok, Nat.le_of_not_lt hge, hl, hr⟩, trivial⟩

/-- An operator that can be appended binds tightly enough, and what it is appended to is grouped
right. -/
theorem climbs_of_extend {s : Spine} :
    ∀ {min : Nat}, (s.extend token op o).Climbs min → s.Climbs min ∧ min ≤ op.power := by
  induction s with
  | operand first => exact fun h => ⟨trivial, h.2.1⟩
  | node lhs token' op' rhs _ ihr =>
    intro min h
    rw [extend] at h
    split at h
    · next hlt =>
      obtain ⟨htok, hpow, hl, hr⟩ := h
      exact ⟨⟨htok, hpow, hl, (ihr hr).1⟩, Nat.le_trans hpow (Nat.le_of_lt hlt)⟩
    · obtain ⟨-, hpow, hs, -⟩ := h
      exact ⟨hs.mono hpow, hpow⟩

/-- An operator that binds no more tightly than the others takes all of them as its left operand. -/
theorem extend_of_climbs {s : Spine} (h : s.Climbs op.power) :
    s.extend token op o = .node s token op (.operand o) := by
  cases s with
  | operand first => rfl
  | node lhs token' op' rhs => rw [extend, if_neg (Nat.not_lt.2 h.2.1)]

end extend

/-- A whole spine taken as one operand. -/
def toOperand (s : Spine) : Operand :=
  ⟨s.tokens, s.moves, s.value, s.skipCount_moves⟩

end Spine

/-- A token that is no operator of power `min` or more. -/
def Stops (min : Nat) (t : Token) : Prop :=
  ∀ op, BinaryOp.ofToken? t.kind = some op → op.power < min

theorem Stops.mono {m n : Nat} (h : m ≤ n) {t : Token} (hs : Stops m t) : Stops n t :=
  fun op hop => Nat.lt_of_lt_of_le (hs op hop) h

/-- How many levels of waiting operators there can be from `min` up, the operand included. -/
def levelsFrom (min : Nat) : Nat :=
  (if min ≤ 10 then 1 else 0) + (if min ≤ 20 then 1 else 0) + (if min ≤ 30 then 1 else 0) + 1

theorem power_cases (op : BinaryOp) : op.power = 10 ∨ op.power = 20 ∨ op.power = 30 := by
  cases op <;> decide

/-- Waiting for a right operand uses up a level. -/
theorem levelsFrom_lt {min : Nat} {op : BinaryOp} (h : min ≤ op.power) :
    levelsFrom (op.power + 1) < levelsFrom min := by
  unfold levelsFrom
  rcases power_cases op with hp | hp | hp <;> rw [hp] at h ⊢ <;> grind

theorem levelsFrom_pos (min : Nat) : 0 < levelsFrom min :=
  Nat.succ_pos _

/-- The procedure reads the operand wherever it stands, if these scopes are open. -/
def Reads {τ : Type} [TokenSource τ] (m : Parse τ Expr) (scopes : Scopes) (o : Operand) : Prop :=
  ∀ (p : Parser τ) (rest : List Token), p.scopes = scopes → p.Yields (o.tokens ++ rest) →
    m p = (.ok o.value, p.play o.moves)

/-- The procedure rejects the token `bad` wherever it stands after `used`. -/
def Sticks {τ α : Type} [TokenSource τ] (m : Parse τ α) (scopes : Scopes) (used : List Token)
    (bad : Token) (moves : List Move) : Prop :=
  ∀ (p : Parser τ) (rest : List Token), p.scopes = scopes → p.Yields (used ++ bad :: rest) →
    m p = (.error .rejected, p.play moves)

namespace Parse

variable {τ : Type} [TokenSource τ]

/-! ### One turn of the loop -/

theorem operators_peeked (right : Nat → Parse τ Expr) (min bound : Nat) (lhs : Expr)
    (p : Parser τ) : operators right min bound lhs p.peeked = operators right min bound lhs p := by
  cases bound <;> simp [operators, bind_run]

theorem operators_stop (right : Nat → Parse τ Expr) {min : Nat} (bound : Nat) (lhs : Expr)
    {p : Parser τ} (h : Stops min p.next) :
    operators right min bound lhs p = (.ok lhs, p.peeked) := by
  cases bound with
  | zero => simp [operators, bind_run]
  | succ bound =>
    simp only [operators, bind_run, peek_run]
    cases hop : BinaryOp.ofToken? p.next.kind with
    | none => simp
    | some op => simp [h op hop]

theorem operators_turn (right : Nat → Parse τ Expr) {min : Nat} (bound : Nat) (lhs : Expr)
    {p : Parser τ} {op : BinaryOp} (hop : BinaryOp.ofToken? p.next.kind = some op)
    (hmin : min ≤ op.power) :
    operators right min (bound + 1) lhs p =
      (right (op.power + 1) >>= fun rhs => operators right min bound (.binary op lhs rhs))
        p.skipped := by
  simp [operators, bind_run, hop, Nat.not_lt.2 hmin]

variable [LawfulTokenSource τ] {operand : Parse τ Expr} {scopes : Scopes}

/-- What has been read of a spine does not matter to the rest: after its moves the outermost loop
stands before the next token, with the spine as its left operand. -/
theorem binaryWith_eq_operators (bound : Nat) (s : Spine) :
    ∀ {min m levels : Nat} {p : Parser τ} {next : Token} {rest : List Token},
      s.Climbs m → min ≤ m → s.All (Reads operand scopes) → levelsFrom min ≤ levels + 1 →
      s.tokens.length ≤ bound → p.scopes = scopes → p.Yields (s.tokens ++ next :: rest) →
      Stops (m + 1) next →
      binaryWith operand bound (levels + 1) min p =
        operators (binaryWith operand bound levels) min (bound - s.turns) s.value
          (p.play s.moves) := by
  induction s with
  | operand o =>
    intro min m levels p next rest _ _ hall _ _ hsc hy _
    rw [binaryWith, bind_ok (hall p (next :: rest) hsc hy)]
    rfl
  | node lhs token op rhs ihl ihr =>
    intro min m levels p next rest hcl hmin hall hlev hbound hsc hy hstop
    obtain ⟨htok, hpow, hcll, hclr⟩ := hcl
    obtain ⟨halll, hallr⟩ := hall
    have hmin' : min ≤ op.power := Nat.le_trans hmin hpow
    simp only [Spine.tokens, List.length_append, List.length_cons] at hbound
    rw [Spine.tokens, List.append_assoc, List.cons_append] at hy
    -- the operator itself ends the left operand: nothing on its right spine binds less tightly
    have hself : Stops (op.power + 1) token := by
      intro op' hop'
      rw [htok, Option.some.injEq] at hop'
      rw [hop']; exact Nat.lt_succ_self _
    rw [ihl hcll hmin' halll hlev (by omega) hsc hy hself]
    obtain ⟨hnext, hy'⟩ := Parser.yields_cons.1 (hy.play lhs.skipCount_moves)
    have hturns : bound - lhs.turns = bound - (lhs.turns + 1) + 1 := by
      have := lhs.turns_le
      omega
    rw [hturns, operators_turn _ _ _ (by rw [hnext]; exact htok) hmin']
    -- the right operand is read one level further in, and the token after it ends it
    have hlt := levelsFrom_lt hmin'
    obtain ⟨levels, rfl⟩ : ∃ n, levels = n + 1 :=
      Nat.exists_eq_succ_of_ne_zero (by have := levelsFrom_pos (op.power + 1); omega)
    have hstop' : Stops (op.power + 1) next := hstop.mono (by omega)
    have hlev' : levelsFrom (op.power + 1) ≤ levels + 1 := by omega
    have hright := ihr (p := (p.play lhs.moves).skipped) hclr (Nat.le_refl _) hallr hlev'
      (by omega) hsc hy' (hstop'.mono (Nat.le_succ _))
    have hend : Stops (op.power + 1) ((p.play lhs.moves).skipped.play rhs.moves).next := by
      rw [(hy'.play rhs.skipCount_moves).next_eq]; exact hstop'
    rw [operators_stop _ _ _ hend] at hright
    rw [bind_ok hright, operators_peeked]
    simp [Spine.turns, Spine.value, Spine.moves]

/-- A spine that climbs is read with its grouping, up to a token that no longer belongs to it. -/
theorem binaryWith_spine {bound : Nat} {s : Spine} {min levels : Nat} {p : Parser τ} {next : Token}
    {rest : List Token} (hcl : s.Climbs min) (hall : s.All (Reads operand scopes))
    (hlev : levelsFrom min ≤ levels) (hbound : s.tokens.length ≤ bound) (hsc : p.scopes = scopes)
    (hy : p.Yields (s.tokens ++ next :: rest)) (hstop : Stops min next) :
    binaryWith operand bound levels min p = (.ok s.value, (p.play s.moves).peeked) := by
  obtain ⟨levels, rfl⟩ : ∃ n, levels = n + 1 :=
    Nat.exists_eq_succ_of_ne_zero (by have := levelsFrom_pos min; omega)
  rw [binaryWith_eq_operators bound s hcl (Nat.le_refl _) hall hlev hbound hsc hy
    (hstop.mono (Nat.le_succ _)), operators_stop]
  rw [(hy.play s.skipCount_moves).next_eq]
  exact hstop

/-! ### Operands that are rejected -/

omit [LawfulTokenSource τ] in
theorem sticks_binaryWith {used : List Token} {bad : Token} {moves : List Move}
    (h : Sticks operand scopes used bad moves) (bound levels min : Nat) :
    Sticks (binaryWith operand bound levels min) scopes used bad moves := by
  intro p rest hsc hy
  cases levels with
  | zero => exact h p rest hsc hy
  | succ levels => rw [binaryWith, bind_error (h p rest hsc hy)]

omit [LawfulTokenSource τ] in
/-- A right operand that is rejected ends the loop. -/
theorem operators_stuck {right : Nat → Parse τ Expr} {used : List Token} {bad : Token}
    {moves : List Move} (h : ∀ n, Sticks (right n) scopes used bad moves) {min bound : Nat}
    (hbound : 0 < bound) (lhs : Expr) {p : Parser τ} {token : Token} {op : BinaryOp}
    {rest : List Token} (hop : BinaryOp.ofToken? token.kind = some op) (hmin : min ≤ op.power)
    (hsc : p.scopes = scopes) (hy : p.Yields (token :: (used ++ bad :: rest))) :
    operators right min bound lhs p = (.error .rejected, p.skipped.play moves) := by
  obtain ⟨bound, rfl⟩ := Nat.exists_eq_succ_of_ne_zero (Nat.ne_of_gt hbound)
  obtain ⟨hnext, hy'⟩ := Parser.yields_cons.1 hy
  rw [operators_turn _ _ _ (by rw [hnext]; exact hop) hmin,
    bind_error (h _ p.skipped rest hsc hy')]

/-- An operand that is rejected after an operator rejects the whole, whatever was read before. -/
theorem binaryWith_spine_stuck {bound : Nat} {used : List Token} {bad : Token} {moves : List Move}
    (h : Sticks operand scopes used bad moves) {token : Token} {op : BinaryOp}
    (hop : BinaryOp.ofToken? token.kind = some op) (s : Spine) :
    ∀ {min levels : Nat} {p : Parser τ} {rest : List Token},
      s.Climbs min → s.All (Reads operand scopes) → levelsFrom min ≤ levels →
      s.tokens.length < bound → min ≤ op.power → p.scopes = scopes →
      p.Yields (s.tokens ++ token :: (used ++ bad :: rest)) →
      binaryWith operand bound levels min p =
        (.error .rejected, (p.play s.moves).skipped.play moves) := by
  induction s with
  | operand o =>
    intro min levels p rest _ hall hlev hbound hmin hsc hy
    obtain ⟨levels, rfl⟩ : ∃ n, levels = n + 1 :=
      Nat.exists_eq_succ_of_ne_zero (by have := levelsFrom_pos min; omega)
    rw [binaryWith, bind_ok (hall p _ hsc hy)]
    exact operators_stuck (sticks_binaryWith h bound levels) (by omega) _ hop hmin hsc
      (hy.play o.consumed)
  | node lhs token' op' rhs _ ihr =>
    intro min levels p rest hcl hall hlev hbound hmin hsc hy
    obtain ⟨levels, rfl⟩ : ∃ n, levels = n + 1 :=
      Nat.exists_eq_succ_of_ne_zero (by have := levelsFrom_pos min; omega)
    obtain ⟨htok, hpow, hcll, hclr⟩ := hcl
    obtain ⟨halll, hallr⟩ := hall
    simp only [Spine.tokens, List.length_append, List.length_cons] at hbound
    rw [Spine.tokens, List.append_assoc, List.cons_append] at hy
    have hself : Stops (op'.power + 1) token' := by
      intro o ho
      rw [htok, Option.some.injEq] at ho
      rw [ho]; exact Nat.lt_succ_self _
    -- the left operand is complete; the operand that is rejected comes after the right one or in it
    rw [binaryWith_eq_operators bound lhs hcll hpow halll hlev (by omega) hsc hy hself]
    obtain ⟨hnext, hy'⟩ := Parser.yields_cons.1 (hy.play lhs.skipCount_moves)
    have hturns : bound - lhs.turns = bound - (lhs.turns + 1) + 1 := by
      have := lhs.turns_le
      omega
    rw [hturns, operators_turn _ _ _ (by rw [hnext]; exact htok) hpow]
    have hlev' : levelsFrom (op'.power + 1) ≤ levels := by
      have := levelsFrom_lt hpow
      omega
    -- either the operator belongs to the right operand, or it ends it
    rcases Nat.lt_or_ge op'.power op.power with hlt | hge
    · rw [bind_error (ihr (p := (p.play lhs.moves).skipped) hclr hallr hlev' (by omega) hlt hsc hy')]
      simp [Spine.moves]
    · have hstop : Stops (op'.power + 1) token := by
        intro o ho
        rw [hop, Option.some.injEq] at ho
        rw [← ho]; exact Nat.lt_succ_of_le hge
      have hbound' : rhs.tokens.length ≤ bound := by omega
      have hright := binaryWith_spine (p := (p.play lhs.moves).skipped) hclr hallr hlev' hbound' hsc
        hy' hstop
      have hpos : 0 < bound - (lhs.turns + 1) := by
        have := lhs.turns_le
        omega
      rw [bind_ok hright, operators_peeked,
        operators_stuck (p := (p.play lhs.moves).skipped.play rhs.moves)
          (sticks_binaryWith h bound levels) hpos _ hop hmin hsc (hy'.play rhs.skipCount_moves)]
      simp [Spine.moves]

end Parse

end SwiftDialect
