import SwiftDialect.Proofs.OpenEnded
import SwiftDialect.Proofs.Viability

/-!
# How many calls are active

The limit on nesting bounds how many calls of the procedures for operands and operators are active at once,
whatever the source is. Signs need a call for each operand, and take the counter of nesting up to its limit.
Operators that wait for their right operands need a call for each power, and then a parenthesis can begin
again at the lowest one; the tightest of them asks for a power above its own.

Main statement: the budgets that change nothing on any source, and how the loops come to an end
(`calls_bounded`).
-/

namespace SwiftDialect

namespace Budget

variable {k : Nat}

/-- A limit of so much, or less. -/
def AtMost (limit : Option Nat) (k : Nat) : Prop :=
  ∃ n ∈ limit, n ≤ k

theorem AtMost.spend_zero {limit : Option Nat} (h : AtMost limit 0) : spend limit = none := by
  obtain ⟨n, rfl, hn⟩ := h
  obtain rfl := Nat.le_zero.1 hn
  rfl

theorem AtMost.of_spend {limit rest : Option Nat} (h : AtMost limit (k + 1))
    (hspend : spend limit = some rest) : AtMost rest k := by
  obtain ⟨n, rfl, hn⟩ := h
  cases n with
  | zero => cases hspend
  | succ n =>
    obtain rfl := Option.some.inj hspend
    exact ⟨n, rfl, Nat.le_of_succ_le_succ hn⟩

theorem AtMost.not_le {limit : Option Nat} {number : Nat} (h : AtMost limit k) (hk : k < number) :
    ¬ ∀ n ∈ limit, number ≤ n := by
  obtain ⟨n, hn, hle⟩ := h
  exact fun hall => absurd (hall n hn) (by omega)

end Budget

namespace OpenEnded

variable {τ : Type} [TokenSource τ] {b : Budget}

/-! ### Sources that use up a budget -/

/-- A sign without a place. -/
def sign : Token := ⟨.minus, .unknown, ""⟩

/-- An operator of each power waits for its right operand, and a parenthesis opens. -/
def rung : List Token :=
  [⟨.integerLiteral, .unknown, "1"⟩, ⟨.less, .unknown, ""⟩, ⟨.integerLiteral, .unknown, "1"⟩,
    ⟨.plus, .unknown, ""⟩, ⟨.integerLiteral, .unknown, "1"⟩, ⟨.asterisk, .unknown, ""⟩,
    ⟨.leftParen, .unknown, ""⟩]

/-- So many parentheses one inside the other, with operators that wait before each of them. -/
def ladder : Nat → List Token
  | 0 => []
  | n + 1 => rung ++ ladder n

/-- A call for an operand spends some of the budget and goes one level further in. -/
theorem unary_of_spend {b' : Budget} (hspend : b.spendOperand = some b') {p : Parser τ}
    (hdepth : p.depth < maxNesting) (steps : Nat) :
    unary (steps + 1) b p = deeper b'.depth (prefixed steps b') p := by
  simp only [unary, hspend]
  rw [bind_ok (r := lift Parse.depth) (p := p) rfl, if_neg (Nat.not_le.2 hdepth)]

theorem unary_of_none (hspend : b.spendOperand = none) (p : Parser τ) (steps : Nat) :
    unary steps b p = none := by
  cases steps with
  | zero => rw [unary]; rfl
  | succ steps => rw [unary, hspend]; rfl

/-- Reading an operand is aborted if it is one level further in, or if the counter cannot go there. -/
theorem unary_of_prefixed {p : Parser τ} (hdepth : p.depth < maxNesting)
    (h : ∀ b', b.spendOperand = some b' → (∀ n ∈ b'.depth, p.depth + 1 ≤ n) →
      ∀ steps, prefixed steps b' { p with depth := p.depth + 1 } = none) (steps : Nat) :
    unary steps b p = none := by
  cases hspend : b.spendOperand with
  | none => exact unary_of_none hspend p steps
  | some b' =>
    cases steps with
    | zero => rw [unary]; rfl
    | succ steps =>
      rw [unary_of_spend hspend hdepth]
      exact holding_none fun hlimit => congrArg (·.bind back) (h b' hspend hlimit steps)

theorem prefixed_of_sign {op : UnaryOp} {p : Parser τ} (hop : UnaryOp.ofToken? p.next.kind = some op)
    (h : ∀ steps, unary steps b p.skipped = none) (steps : Nat) : prefixed steps b p = none := by
  cases steps with
  | zero => rw [prefixed]; rfl
  | succ steps =>
    rw [prefixed, peek_bind, hop]
    exact bind_none (h steps) _

/-- Too few calls or levels for so many signs, where nesting that deep is not rejected. -/
def TooFew (b : Budget) (depth k : Nat) : Prop :=
  Budget.AtMost b.operands k ∧ depth + k ≤ maxNesting ∨
    Budget.AtMost b.depth (depth + k) ∧ depth + k < maxNesting

/-- Each sign takes a call of its own, and a level of nesting. -/
theorem unary_aborts (k : Nat) : ∀ {b : Budget} {p : Parser τ} {rest : List Token},
    TooFew b p.depth k → p.Yields (List.replicate k sign ++ rest) → ∀ steps, unary steps b p = none := by
  induction k with
  | zero =>
    rintro b p rest (⟨hb, -⟩ | ⟨hb, hdepth⟩) _
    · exact unary_of_none (by rw [Budget.spendOperand, hb.spend_zero]; rfl) p
    · -- no sign is left, but the operand behind them takes the counter beyond its limit
      refine unary_of_prefixed hdepth fun b' hspend hlimit => ?_
      obtain ⟨_, -, rfl⟩ := Option.map_eq_some_iff.1 hspend
      exact absurd hlimit (hb.not_le (Nat.lt_succ_self _))
  | succ k ih =>
    intro b p rest hb hy
    have hdepth : p.depth < maxNesting := by
      rcases hb with ⟨-, hle⟩ | ⟨-, hlt⟩ <;> omega
    obtain ⟨hnext, hy'⟩ := Parser.yields_cons.1 hy
    refine unary_of_prefixed hdepth fun b' hspend _ => ?_
    obtain ⟨limit, hlimit, rfl⟩ := Option.map_eq_some_iff.1 hspend
    let q : Parser τ := { p with depth := p.depth + 1 }
    have hkind : UnaryOp.ofToken? q.next.kind = some .neg := by
      rw [show q.next = sign from hnext]
      rfl
    -- a sign takes a call and a level, so the rest of the signs has one less of each
    have hfew : TooFew { b with operands := limit } q.skipped.depth k := by
      have hsum : p.depth + (k + 1) = q.depth + k := Nat.add_right_comm p.depth k 1
      rw [TooFew, hsum] at hb
      exact hb.imp_left (And.imp_left fun hcalls => hcalls.of_spend hlimit)
    exact prefixed_of_sign hkind (ih hfew hy')

/-- A number is read, unless the budget is used up or there are too few steps. -/
theorem unary_one {p : Parser τ} (hnext : p.next = ⟨.integerLiteral, .unknown, "1"⟩)
    (hdepth : p.depth < maxNesting) (steps : Nat) :
    unary steps b p = none ∨ unary steps b p = some (.ok (.integer 1 .unknown), p.skipped) := by
  let q : Parser τ := { p with depth := p.depth + 1 }
  have hnext' : q.next = ⟨.integerLiteral, .unknown, "1"⟩ := hnext
  have hliteral : Parse.literal q.peeked = (.ok (.integer 1 .unknown), q.skipped) := by
    refine Parse.literal_ok ?_ ?_
    · rw [Parser.next_peeked, hnext']
      rfl
    · rw [Parser.next_peeked, hnext']
      decide
  have hprefixed : ∀ b' steps, prefixed steps b' q = none ∨
      prefixed steps b' q = some (.ok (.integer 1 .unknown), q.skipped) := by
    intro b' steps
    match steps with
    | 0 => exact .inl (by rw [prefixed]; rfl)
    | 1 =>
      rw [prefixed, peek_bind, hnext']
      exact .inl (by rw [primary]; rfl)
    | steps + 2 =>
      rw [prefixed, peek_bind, hnext']
      change primary (steps + 1) b' q.peeked = _ ∨ primary (steps + 1) b' q.peeked = _
      rw [primary, peek_bind, Parser.next_peeked, hnext']
      exact .inr (congrArg some hliteral)
  -- the operand itself is the same whatever the budget is; only the call and the level can be missing
  cases hspend : b.spendOperand with
  | none => exact .inl (unary_of_none hspend p steps)
  | some b' =>
    cases steps with
    | zero => exact .inl (by rw [unary]; rfl)
    | succ steps =>
      rw [unary_of_spend hspend hdepth, deeper]
      by_cases hlimit : ∀ n ∈ b'.depth, p.depth + 1 ≤ n
      · rw [holding_of_le hlimit]
        rcases hprefixed b' steps with hnone | hone
        · exact .inl (congrArg (·.bind back) hnone)
        · exact .inr (congrArg (·.bind back) hone)
      · exact .inl (holding_none fun hle => absurd hle hlimit)

/-- Reading operators is aborted if what is done with one call less is. -/
theorem binary_of_spend {min : Nat} {p : Parser τ}
    (h : ∀ b', b.spendOperators = some b' → ∀ steps,
      (unary steps b' >>= fun first => operators steps b' min first) p = none) (steps : Nat) :
    binary steps b min p = none := by
  cases steps with
  | zero => rw [binary]; rfl
  | succ steps =>
    rw [binary]
    cases hspend : b.spendOperators with
    | none => rfl
    | some b' => exact h b' hspend steps

/-- Reading operators is aborted if the right operand of the first one cannot be read, or if its power cannot
be asked for. -/
theorem binary_aborts_behind (op : BinaryOp) {min : Nat} {p : Parser τ} (hdepth : p.depth < maxNesting)
    (hnext : p.next = ⟨.integerLiteral, .unknown, "1"⟩)
    (hop : BinaryOp.ofToken? p.skipped.next.kind = some op) (hmin : min ≤ op.power)
    (h : ∀ b', b.spendOperators = some b' → (∀ n ∈ b'.power, op.power + 1 ≤ n) →
      ∀ steps, binary steps b' (op.power + 1) p.skipped.skipped = none) :
    ∀ steps, binary steps b min p = none := by
  refine binary_of_spend fun b' hspend steps => ?_
  rcases unary_one (b := b') hnext hdepth steps with hnone | hone
  · exact bind_none hnone _
  · rw [bind_ok hone]
    cases steps with
    | zero => rw [operators]; rfl
    | succ steps =>
      rw [operators, peek_bind, hop]
      simp only
      rw [if_neg (Nat.not_lt.2 hmin)]
      exact bind_none (holding_none fun hpower => h b' hspend hpower steps) _

/-- An operator that waits for its right operand takes a call. -/
theorem binary_aborts_waiting (op : BinaryOp) {k min : Nat} {p : Parser τ}
    (hb : Budget.AtMost b.operators (k + 1)) (hdepth : p.depth < maxNesting)
    (hnext : p.next = ⟨.integerLiteral, .unknown, "1"⟩)
    (hop : BinaryOp.ofToken? p.skipped.next.kind = some op) (hmin : min ≤ op.power)
    (h : ∀ {b' : Budget}, Budget.AtMost b'.operators k →
      ∀ steps, binary steps b' (op.power + 1) p.skipped.skipped = none) :
    ∀ steps, binary steps b min p = none := by
  refine binary_aborts_behind op hdepth hnext hop hmin fun b' hspend _ => ?_
  obtain ⟨limit, hlimit, rfl⟩ := Option.map_eq_some_iff.1 hspend
  exact h (hb.of_spend hlimit)

/-- Reading a parenthesis is aborted if reading what is in it is. -/
theorem prefixed_of_paren {p : Parser τ} (hnext : p.next = ⟨.leftParen, .unknown, ""⟩)
    (h : ∀ steps, binary steps b 0 (p.skipped.recorded .parsingExpression) = none) (steps : Nat) :
    prefixed steps b p = none := by
  match steps with
  | 0 => rw [prefixed]; rfl
  | 1 =>
    rw [prefixed, peek_bind, hnext]
    change primary 0 b p.peeked = none
    rw [primary]
    rfl
  | steps + 2 =>
    have hexpression : expression steps b p.skipped = none := by
      cases steps with
      | zero => rw [expression]; rfl
      | succ steps =>
        rw [expression, record_bind]
        exact h steps
    rw [prefixed, peek_bind, hnext]
    change primary (steps + 1) b p.peeked = none
    rw [primary, peek_bind, Parser.next_peeked, hnext]
    exact bind_none hexpression _

/-- A parenthesis that waits for the expression in it takes a call. -/
theorem binary_aborts_at {k min : Nat} {p : Parser τ} (hb : Budget.AtMost b.operators (k + 1))
    (hdepth : p.depth < maxNesting) (hnext : p.next = ⟨.leftParen, .unknown, ""⟩)
    (h : ∀ {b' : Budget}, Budget.AtMost b'.operators k → ∀ steps, binary steps b' 0
      (({ p with depth := p.depth + 1 } : Parser τ).skipped.recorded .parsingExpression) = none) :
    ∀ steps, binary steps b min p = none := by
  refine binary_of_spend fun b' hspend steps => bind_none ?_ _
  obtain ⟨limit, hlimit, rfl⟩ := Option.map_eq_some_iff.1 hspend
  refine unary_of_prefixed hdepth (fun b'' hoperand _ => prefixed_of_paren hnext (h ?_)) steps
  obtain ⟨more, -, rfl⟩ := Option.map_eq_some_iff.1 hoperand
  exact hb.of_spend hlimit

variable [LawfulTokenSource τ]

/-- Each rung takes four calls. -/
theorem binary_aborts (k : Nat) : ∀ {b : Budget} {p : Parser τ} {rest : List Token},
    Budget.AtMost b.operators (4 * k) → p.depth + k ≤ maxNesting → p.Yields (ladder k ++ rest) →
    ∀ steps, binary steps b 0 p = none := by
  induction k with
  | zero =>
    intro b p rest hb _ _
    refine binary_of_spend fun b' hspend => ?_
    rw [Budget.spendOperators, hb.spend_zero] at hspend
    cases hspend
  | succ k ih =>
    intro b p rest hb hdepth hy
    obtain ⟨hfirst, hy⟩ := Parser.yields_cons.1 hy
    obtain ⟨hless, hy⟩ := Parser.yields_cons.1 hy
    obtain ⟨hsecond, hy⟩ := Parser.yields_cons.1 hy
    obtain ⟨hplus, hy⟩ := Parser.yields_cons.1 hy
    obtain ⟨hthird, hy⟩ := Parser.yields_cons.1 hy
    obtain ⟨htimes, hy⟩ := Parser.yields_cons.1 hy
    obtain ⟨hparen, hy⟩ := Parser.yields_cons.1 hy
    have hroom : p.depth < maxNesting := by omega
    -- each operator waits for the next one, and the tightest for the parenthesis
    refine binary_aborts_waiting .lt (k := 4 * k + 3) hb hroom hfirst ?_ (by decide) fun hb => ?_
    · rw [hless]; rfl
    refine binary_aborts_waiting .add (k := 4 * k + 2) hb hroom hsecond ?_ (by decide) fun hb => ?_
    · rw [hplus]; rfl
    refine binary_aborts_waiting .mul (k := 4 * k + 1) hb hroom hthird ?_ (by decide) fun hb => ?_
    · rw [htimes]; rfl
    refine binary_aborts_at hb hroom hparen fun hb => ih hb ?_ (Parser.Yields.recorded hy _)
    change p.depth + 1 + k ≤ maxNesting
    omega

/-- A program is aborted if its first expression is. -/
theorem program_aborts {t : Token} {ts : List Token} {p : Parser τ} (hy : p.Yields (t :: ts))
    (hk : t.kind = .minus ∨ t.kind = .integerLiteral)
    (h : ∀ q : Parser τ, q.depth = p.depth → q.Yields (t :: ts) → ∀ steps, binary steps b 0 q = none)
    (steps : Nat) : program steps b p = none := by
  -- nothing is consumed on the way from the program to its first expression
  have hexpression : ∀ (q : Parser τ) steps, q.depth = p.depth → q.Yields (t :: ts) →
      expression steps b q = none := by
    intro q steps hdepth hy
    cases steps with
    | zero => rw [expression]; rfl
    | succ steps =>
      rw [expression, record_bind]
      exact h (q.recorded .parsingExpression) hdepth (hy.recorded _) steps
  have hstatement : ∀ (q : Parser τ) steps, q.depth = p.depth → q.Yields (t :: ts) →
      statement steps b q = none := by
    intro q steps hdepth hy
    have hinner := hexpression (q.recorded .parsingStatement).peeked steps hdepth (hy.recorded _).peeked
    rw [statement, record_bind, peek_bind, (hy.recorded _).next_eq]
    rcases hk with hk | hk
    · rw [hk]
      exact bind_none hinner _
    · rw [hk]
      exact bind_none hinner _
  have hstatements : ∀ q : Parser τ, q.depth = p.depth → q.Yields (t :: ts) →
      statements steps b q = none := by
    intro q hdepth hy
    have hne : t.kind ≠ .endOfFile := by
      rcases hk with hk | hk <;> rw [hk] <;> decide
    cases steps with
    | zero => rw [statements]; rfl
    | succ steps =>
      rw [statements, peek_bind, hy.next_eq, if_neg hne]
      exact bind_none (hstatement q.peeked steps hdepth hy.peeked) _
  have hopened := (hy.recorded .parsingProgram).recorded (.scopeOpened p.scopes.push.depth)
  rw [program, record_bind, bind_ok (r := lift Parse.openScope) rfl]
  refine bind_none (attempt_none (hstatements _ ?_ ?_)) _
  · rfl
  · exact hopened

/-- Signs on as many levels as there can be need a call more, and the counter up to its limit. -/
theorem program_signs (hb : Budget.AtMost b.operands maxNesting ∨ Budget.AtMost b.depth (maxNesting - 1))
    (steps : Nat) :
    program steps b { tokens := Lookahead.ofSource (List.replicate maxNesting sign) } = none := by
  have hy := yields_list (List.replicate maxNesting sign)
  refine program_aborts (p := ⟨.ofSource _, _, _⟩) (t := sign) hy (.inl rfl) (fun q hdepth hy => ?_) steps
  refine binary_of_spend fun b' hspend steps => bind_none ?_ _
  obtain ⟨limit, -, rfl⟩ := Option.map_eq_some_iff.1 hspend
  rcases hb with hb | hb
  · -- every sign has its level, and the operand behind them is a call too many
    have hall : q.Yields (List.replicate maxNesting sign ++ []) := by
      rw [List.append_nil]
      exact hy
    exact unary_aborts (b := { b with operators := limit }) _
      (.inl ⟨hb, by rw [hdepth]; decide⟩) hall steps
  · -- the last sign is the operand that goes beyond the limit
    have hall : q.Yields (List.replicate (maxNesting - 1) sign ++ [sign]) := hy
    refine unary_aborts (b := { b with operators := limit }) _ (.inr ⟨?_, by rw [hdepth]; decide⟩) hall steps
    rw [hdepth]
    exact (Nat.zero_add (maxNesting - 1)).symm ▸ hb

/-- So many rungs need a call more than four for each level of nesting. -/
theorem program_ladder (hb : Budget.AtMost b.operators (4 * maxNesting)) (steps : Nat) :
    program steps b { tokens := Lookahead.ofSource (ladder maxNesting) } = none := by
  have hy := yields_list (ladder maxNesting)
  refine program_aborts (p := ⟨.ofSource _, _, _⟩) (t := ⟨.integerLiteral, .unknown, "1"⟩) hy (.inr rfl)
    (fun q hdepth hy => ?_) steps
  have hall : q.Yields (ladder maxNesting ++ []) := by
    rw [List.append_nil]
    exact hy
  exact binary_aborts maxNesting hb (by rw [hdepth]; decide) hall

/-- A product, up to its right operand. -/
def product : List Token :=
  [⟨.integerLiteral, .unknown, "1"⟩, ⟨.asterisk, .unknown, ""⟩]

/-- The tightest operator asks for a power above its own. -/
theorem program_product (hb : Budget.AtMost b.power 30) (steps : Nat) :
    program steps b { tokens := Lookahead.ofSource product } = none := by
  have hy := yields_list product
  refine program_aborts (p := ⟨.ofSource _, _, _⟩) (t := ⟨.integerLiteral, .unknown, "1"⟩) hy (.inr rfl)
    (fun q hdepth hy => ?_) steps
  obtain ⟨hfirst, hy⟩ := Parser.yields_cons.1 hy
  obtain ⟨htimes, -⟩ := Parser.yields_cons.1 hy
  refine binary_aborts_behind .mul (by rw [hdepth]; decide) hfirst ?_ (Nat.zero_le _)
    fun b' hspend hpower => ?_
  · rw [htimes]; rfl
  · obtain ⟨limit, -, rfl⟩ := Option.map_eq_some_iff.1 hspend
    exact absurd hpower (hb.not_le (by decide))

end OpenEnded

open OpenEnded in
/-- A budget changes nothing on any source if it allows one call for each level of nesting and one more for
operands, four for each level and one more for operators, a counter of nesting that goes up to its limit, and
a power above the tightest; and no other does. Without a budget the parser comes to an end on every source,
and to what it comes to with bounds; each statement that is read takes at least two of the tokens before the
end. -/
theorem calls_bounded :
    (∀ b : Budget, b.Allows (maxNesting + 1) (4 * maxNesting + 1) maxNesting 31 ↔
      ∀ (τ : Type) [TokenSource τ] [LawfulTokenSource τ] (p : Parser τ), p.depth = 0 → ∀ result,
        ComesTo (OpenEnded.program · b) p result ↔ ComesTo (OpenEnded.program · {}) p result) ∧
    ∀ (τ : Type) [TokenSource τ] [LawfulTokenSource τ] (p : Parser τ),
      (p.depth = 0 → ComesTo (OpenEnded.program · {}) p (Parse.program p)) ∧
      ∀ body eof stmt p', p.tokens.ToEnd body eof → Parse.statement p = (.ok stmt, p') →
        ∃ used rest, body = used ++ rest ∧ 2 ≤ used.length ∧ p'.tokens.ToEnd rest eof := by
  have hunlimited : ∀ (τ : Type) [TokenSource τ] [LawfulTokenSource τ] (p : Parser τ), p.depth = 0 →
      ComesTo (OpenEnded.program · {}) p (Parse.program p) :=
    fun τ _ _ p hdepth => program_comesTo (Budget.allows_unlimited _ _ _ _) hdepth
  refine ⟨fun b => ⟨fun hb τ _ _ p hdepth result => ?_, fun h => ?_⟩,
    fun τ _ _ p => ⟨hunlimited τ p, fun body eof stmt p' hend hrun => ?_⟩⟩
  · have hbudget := program_comesTo hb hdepth
    have hfree := hunlimited τ p hdepth
    exact ⟨fun h => h.unique hbudget ▸ hfree, fun h => h.unique hfree ▸ hbudget⟩
  · -- a limit that is too low aborts the run on a source of its own, which ends without limits
    have hruns : ∀ source : List Token,
        ¬ ∀ steps, OpenEnded.program steps b { tokens := Lookahead.ofSource source } = none := by
      intro source hnone
      obtain ⟨enough, hsame⟩ :=
        (h (List Token) _ rfl _).2 (hunlimited _ { tokens := .ofSource source } rfl)
      cases (hnone enough).symm.trans (hsame enough (Nat.le_refl _))
    have hlow : ∀ {limit : Option Nat} {k : Nat}, ¬ Budget.AtMost limit k → ∀ n ∈ limit, k < n :=
      fun hmore n hn => Nat.lt_of_not_le fun hle => hmore ⟨n, hn, hle⟩
    exact ⟨hlow fun hb => hruns _ (program_signs (.inl hb)), hlow fun hb => hruns _ (program_ladder hb),
      hlow fun hb => hruns _ (program_signs (.inr hb)), hlow fun hb => hruns _ (program_product hb)⟩
  · exact Parse.consumes_statementWithin _ _ rfl hend hrun

open OpenEnded in
/-- Operators that wait before each of as many parentheses as there can be need the whole budget, and the
shortest statement takes two tokens. -/
theorem calls_bounded_on_ladder :
    (Budget.mk (some 129) (some 513) (some 128) (some 31)).Allows
      (maxNesting + 1) (4 * maxNesting + 1) maxNesting 31 ∧
    ComesTo (OpenEnded.program · ⟨some 129, some 513, some 128, some 31⟩)
      { tokens := Lookahead.ofSource (ladder maxNesting) }
      (Parse.program { tokens := .ofSource (ladder maxNesting) }) ∧
    ∃ used rest, [Token.mk .integerLiteral .unknown "1", ⟨.semicolon, .unknown, ""⟩] = used ++ rest ∧
      2 ≤ used.length ∧ Lookahead.ToEnd
        (Parse.statement { tokens := Lookahead.ofSource ([Token.mk .integerLiteral .unknown "1",
          ⟨.semicolon, .unknown, ""⟩] ++ [⟨.endOfFile, .unknown, ""⟩]) }).2.tokens rest
        ⟨.endOfFile, .unknown, ""⟩ := by
  have hallows : (Budget.mk (some 129) (some 513) (some 128) (some 31)).Allows
      (maxNesting + 1) (4 * maxNesting + 1) maxNesting 31 :=
    ⟨fun n hn => Option.some.inj hn ▸ by decide, fun n hn => Option.some.inj hn ▸ by decide,
      fun n hn => Option.some.inj hn ▸ by decide, fun n hn => Option.some.inj hn ▸ by decide⟩
  obtain ⟨hbudget, hbounds⟩ := calls_bounded
  refine ⟨hallows, ?_, ?_⟩
  · exact ((hbudget _).1 hallows (List Token) _ rfl _).2 ((hbounds (List Token) _).1 rfl)
  · have hend := @toEnd_list [⟨.integerLiteral, .unknown, "1"⟩, ⟨.semicolon, .unknown, ""⟩]
      ⟨.endOfFile, .unknown, ""⟩ rfl (by decide)
    exact (hbounds (List Token) { tokens := .ofSource _ }).2 _ _ (.eval (.integer 1 .unknown)) _ hend rfl

end SwiftDialect
