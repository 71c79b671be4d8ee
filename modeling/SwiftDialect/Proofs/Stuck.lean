import SwiftDialect.Proofs.Expression

/-!
# Where reading an expression stops

An expression that cannot be read is rejected at one token, the first that cannot stand where it
does. `Stuck` lists the ways in which this can happen: what was read before, the token, the problem
it poses and the moves made up to it.

Main statements: the parser rejects whatever is stuck, no matter what follows the token
(`sticks_of_stuck`), and every sequence of tokens either begins with a tree or is stuck
(`operand_or_stuck`, `expr_or_stuck`).
-/

namespace SwiftDialect

/-- What is wrong with a literal, if anything is. -/
def literalError? (t : Token) : Option LiteralError :=
  match t.kind with
  | .integerLiteral => match integerValue t.text with
    | .ok _ => none
    | .error e => some e
  | .floatLiteral => match floatValue t.text with
    | .ok _ => none
    | .error e => some e
  | _ => none

/-- The kinds of token that an operand can start with, as far as the kind tells. -/
def operandKinds : List TokenKind :=
  [.integerLiteral, .floatLiteral, .stringLiteral, .identifier, .leftParen, .minus, .plus, .kwIf]

/-- The report of a problem with a token. -/
def blame (problem : Problem) (t : Token) : Move :=
  .record (.reported (problem.diagnose t.location))

/-- The token that is required and missing. -/
def missing (kind : TokenKind) (t : Token) : Problem :=
  .expectedToken kind.display t.kind.display

/-- After `used` has been read, the token `bad` poses a problem. The moves are those made up to the
report of the problem. -/
inductive Stuck (scopes : Scopes) :
    Phrase → Nat → List Token → Token → Problem → List Move → Prop where
  | tooDeep (bad : Token) : Stuck scopes .unary 0 [] bad (.nestedTooDeeply maxNesting) [.peek]
  | invalid {bad : Token} {e : LiteralError} (room : Nat) (h : literalError? bad = some e) :
      Stuck scopes .unary (room + 1) [] bad e.problem [.peek]
  | unresolved {bad : Token} (room : Nat) (hk : bad.kind = .identifier)
      (h : scopes.resolve bad.text = none) :
      Stuck scopes .unary (room + 1) [] bad (.unresolvedName bad.text) [.skip]
  | conditional {bad : Token} (room : Nat) (hk : bad.kind = .kwIf) :
      Stuck scopes .unary (room + 1) [] bad (.unsupported "if expressions") [.peek]
  | unexpected {bad : Token} (room : Nat) (hk : bad.kind ∉ operandKinds) :
      Stuck scopes .unary (room + 1) [] bad (.unexpectedToken bad.kind.display) [.peek]
  | sign (t : Terminal [.minus, .plus]) {room : Nat} {used : List Token} {bad : Token}
      {pr : Problem} {moves : List Move} (h : Stuck scopes .unary room used bad pr moves) :
      Stuck scopes .unary (room + 1) (t.1 :: used) bad pr (.skip :: moves)
  | inside (l : Terminal [.leftParen]) {room : Nat} {used : List Token} {bad : Token}
      {pr : Problem} {moves : List Move} (h : Stuck scopes .expr room used bad pr moves) :
      Stuck scopes .unary (room + 1) (l.1 :: used) bad pr
        (.skip :: .record .parsingExpression :: moves)
  | unclosed (l : Terminal [.leftParen]) {room : Nat} {e : Tree .expr} (he : e.Fits scopes room)
      {bad : Token} (hop : bad.kind ∉ operatorKinds) (hk : bad.kind ≠ .rightParen) :
      Stuck scopes .unary (room + 1) (l.1 :: e.tokens) bad (missing .rightParen bad)
        (.skip :: .record .parsingExpression :: (e.moves ++ [.peek]))
  | first {room : Nat} {used : List Token} {bad : Token} {pr : Problem} {moves : List Move}
      (h : Stuck scopes .unary room used bad pr moves) : Stuck scopes .expr room used bad pr moves
  | later {room : Nat} {e : Tree .expr} (he : e.Fits scopes room) (op : Terminal operatorKinds)
      {used : List Token} {bad : Token} {pr : Problem} {moves : List Move}
      (h : Stuck scopes .unary room used bad pr moves) :
      Stuck scopes .expr room (e.tokens ++ op.1 :: used) bad pr (e.moves ++ .skip :: moves)

theorem stops_of_notMem {t : Token} (h : t.kind ∉ operatorKinds) (min : Nat) : Stops min t := by
  intro op hop
  exfalso; revert h hop
  cases t.kind <;> simp [operatorKinds, BinaryOp.ofToken?]

namespace Parse

variable {τ : Type} [TokenSource τ] {scopes : Scopes}

/-- The procedure that reads a kind of phrase. -/
def ofPhrase (bound room : Nat) : Phrase → Parse τ Expr
  | .unary => unaryWithin bound room
  | .expr => binaryWith (unaryWithin bound room) bound BinaryOp.levels 0

/-! ### Operands whose first token is wrong -/

theorem sticks_invalid {bad : Token} {e : LiteralError} (bound room : Nat)
    (h : literalError? bad = some e) :
    Sticks (τ := τ) (unaryWithin bound (room + 1)) scopes [] bad [.peek, blame e.problem bad] := by
  refine sticks_deeper fun p rest hsc hy => ?_
  obtain rfl : p.next = bad := hy.next_eq
  -- only numbers have errors, and each kind has its own conversion
  unfold literalError? at h
  split at h
  · next hk =>
    cases hv : integerValue p.next.text with
    | ok n => simp [hv] at h
    | error e' =>
      simp only [hv, Option.some.injEq] at h
      simp [bind_run, hk, UnaryOp.ofToken?, primaryWith, literal, hv, Except.map, h, blame]
  · next hk =>
    cases hv : floatValue p.next.text with
    | ok n => simp [hv] at h
    | error e' =>
      simp only [hv, Option.some.injEq] at h
      simp [bind_run, hk, UnaryOp.ofToken?, primaryWith, literal, hv, Except.map, h, blame]
  · cases h

theorem sticks_unresolved {bad : Token} (bound room : Nat) (hopen : scopes.mappings ≠ [])
    (hk : bad.kind = .identifier) (h : scopes.resolve bad.text = none) :
    Sticks (τ := τ) (unaryWithin bound (room + 1)) scopes [] bad
      [.skip, blame (.unresolvedName bad.text) bad] := by
  refine sticks_deeper fun p rest hsc hy => ?_
  obtain rfl : p.next = bad := hy.next_eq
  subst hsc
  have hexp := expect_ok (p := p.peeked) hk
  simp [bind_run, hk, UnaryOp.ofToken?, primaryWith, name, hexp, resolve, Scopes.lookup_eq hopen, h,
    blame]

theorem sticks_conditional {bad : Token} (bound room : Nat) (hk : bad.kind = .kwIf) :
    Sticks (τ := τ) (unaryWithin bound (room + 1)) scopes [] bad
      [.peek, blame (.unsupported "if expressions") bad] := by
  refine sticks_deeper fun p rest hsc hy => ?_
  obtain rfl : p.next = bad := hy.next_eq
  simp [bind_run, hk, UnaryOp.ofToken?, primaryWith, conditional, blame]

theorem sticks_unexpected {bad : Token} (bound room : Nat) (hk : bad.kind ∉ operandKinds) :
    Sticks (τ := τ) (unaryWithin bound (room + 1)) scopes [] bad
      [.peek, blame (.unexpectedToken bad.kind.display) bad] := by
  refine sticks_deeper fun p rest hsc hy => ?_
  obtain rfl : p.next = bad := hy.next_eq
  revert hk
  cases hk : p.next.kind <;>
    simp [operandKinds, bind_run, hk, UnaryOp.ofToken?, primaryWith, blame]

/-! ### Operands that are wrong further on -/

theorem sticks_sign {bound room : Nat} (t : Terminal [.minus, .plus]) {used : List Token}
    {bad : Token} {moves : List Move}
    (h : Sticks (τ := τ) (unaryWithin bound room) scopes used bad moves) :
    Sticks (τ := τ) (unaryWithin bound (room + 1)) scopes (t.1 :: used) bad (.skip :: moves) := by
  refine sticks_deeper fun p rest hsc hy => ?_
  obtain ⟨hnext, hy'⟩ := Parser.yields_cons.1 hy
  obtain ⟨op, hop⟩ : ∃ op, UnaryOp.ofToken? p.next.kind = some op :=
    ⟨_, by rw [hnext]; exact sign_of_mem t.2⟩
  simp [bind_run, hop, h p.skipped rest hsc hy']

variable [LawfulTokenSource τ]

theorem sticks_inside {bound room : Nat} (l : Terminal [.leftParen]) {used : List Token}
    {bad : Token} {moves : List Move}
    (h : Sticks (τ := τ) (ofPhrase bound room .expr) scopes used bad moves) :
    Sticks (τ := τ) (unaryWithin bound (room + 1)) scopes (l.1 :: used) bad
      (.skip :: .record .parsingExpression :: moves) := by
  refine sticks_deeper fun p rest hsc hy => ?_
  obtain ⟨hnext, hy'⟩ := Parser.yields_cons.1 hy
  have hl : p.next.kind = .leftParen := by rw [hnext]; exact List.mem_singleton.1 l.2
  have hinner := h (p.skipped.recorded .parsingExpression) rest hsc (hy'.recorded _)
  simp only [ofPhrase] at hinner
  simp [bind_run, hl, UnaryOp.ofToken?, primaryWith, expressionWith, hinner]

theorem sticks_unclosed {bound room : Nat} (hopen : scopes.mappings ≠ [])
    (l : Terminal [.leftParen]) {e : Tree .expr} (he : e.Fits scopes room)
    (hbound : e.tokens.length ≤ bound) {bad : Token} (hop : bad.kind ∉ operatorKinds)
    (hk : bad.kind ≠ .rightParen) :
    Sticks (τ := τ) (unaryWithin bound (room + 1)) scopes (l.1 :: e.tokens) bad
      (.skip :: .record .parsingExpression :: (e.moves ++ [.peek]) ++
        [blame (missing .rightParen bad) bad]) := by
  refine sticks_deeper fun p rest hsc hy => ?_
  obtain ⟨hnext, hy'⟩ := Parser.yields_cons.1 hy
  have hl : p.next.kind = .leftParen := by rw [hnext]; exact List.mem_singleton.1 l.2
  obtain ⟨hcl, hall⟩ := reads_tree (τ := τ) hopen e he hbound
  have hy'' := hy'.recorded .parsingExpression
  have hinner := binaryWith_spine (p := p.skipped.recorded .parsingExpression) hcl hall
    (by decide : levelsFrom 0 ≤ BinaryOp.levels) (by simpa using hbound) hsc
    (by simpa using hy'') (stops_of_notMem hop 0)
  have hbad : ((p.skipped.recorded .parsingExpression).play e.moves).next = bad :=
    (hy''.play e.skipCount_moves).next_eq
  -- the expression ends at the bad token, which is not the parenthesis that is skipped there
  have hskip := skipExpected_error (k := .rightParen)
    (p := ((p.skipped.recorded .parsingExpression).play e.moves).peeked)
    (by rw [Parser.next_peeked, hbad]; exact hk)
  simp only [Parser.next_peeked, hbad] at hskip
  simp [bind_run, hl, UnaryOp.ofToken?, primaryWith, expressionWith, hinner, hskip, blame, missing]

/-- Whatever is stuck is rejected, no matter what follows. -/
theorem sticks_of_stuck (hopen : scopes.mappings ≠ []) {bound : Nat} {f : Phrase} {room : Nat}
    {used : List Token} {bad : Token} {pr : Problem} {moves : List Move}
    (h : Stuck scopes f room used bad pr moves) (hbound : used.length ≤ bound) :
    Sticks (τ := τ) (ofPhrase bound room f) scopes used bad (moves ++ [blame pr bad]) := by
  induction h with
  | tooDeep bad =>
    intro p rest _ hy
    obtain rfl : p.next = bad := hy.next_eq
    simp [ofPhrase, unaryWithin, bind_run, blame]
  | invalid room h => exact sticks_invalid bound room h
  | unresolved room hk h => exact sticks_unresolved bound room hopen hk h
  | conditional room hk => exact sticks_conditional bound room hk
  | unexpected room hk => exact sticks_unexpected bound room hk
  | sign t _ ih => exact sticks_sign t (ih (Nat.le_of_succ_le hbound))
  | inside l _ ih => exact sticks_inside l (ih (Nat.le_of_succ_le hbound))
  | unclosed l he hop hk => exact sticks_unclosed hopen l he (Nat.le_of_succ_le hbound) hop hk
  | first _ ih => exact sticks_binaryWith (ih hbound) bound _ 0
  | @later room e he op used bad pr moves _ ih =>
    intro p rest hsc hy
    simp only [List.length_append, List.length_cons] at hbound
    have hlt : (e.spine scopes).tokens.length < bound := by rw [Tree.tokens_spine]; omega
    obtain ⟨hcl, hall⟩ := reads_tree (τ := τ) hopen e he (by omega : e.tokens.length ≤ bound)
    rw [List.append_assoc, List.cons_append] at hy
    -- what was read so far is on the spine, and the operand after the operator is rejected
    have hrun := binaryWith_spine_stuck (ih (by omega)) (operator_of_mem op.2) _ (p := p) hcl hall
      (by decide : levelsFrom 0 ≤ BinaryOp.levels) hlt (Nat.zero_le _) hsc
      (by rw [Tree.tokens_spine]; exact hy)
    simp only [ofPhrase, Tree.moves_spine] at hrun ⊢
    rw [hrun]
    simp

end Parse

/-! ### Either a tree or stuck -/

/-- Does an end token stand among these? -/
def HasEnd (ts : List Token) : Prop :=
  ∃ t ∈ ts, t.kind = .endOfFile

theorem HasEnd.exists_cons {ts : List Token} (h : HasEnd ts) : ∃ t rest, ts = t :: rest := by
  obtain ⟨t, ht, _⟩ := h
  exact List.exists_cons_of_ne_nil (List.ne_nil_of_mem ht)

theorem HasEnd.append_right {used rest : List Token} (h : HasEnd (used ++ rest))
    (hused : ∀ t ∈ used, t.kind ≠ .endOfFile) : HasEnd rest := by
  obtain ⟨t, ht, hk⟩ := h
  rcases List.mem_append.1 ht with ht | ht
  · exact absurd hk (hused t ht)
  · exact ⟨t, ht, hk⟩

theorem HasEnd.tail {t : Token} {rest : List Token} (h : HasEnd (t :: rest))
    (ht : t.kind ≠ .endOfFile) : HasEnd rest := by
  have h' : HasEnd ([t] ++ rest) := h
  exact h'.append_right (by simpa using ht)

theorem Terminal.kind_ne {kinds : List TokenKind} {k : TokenKind} (t : Terminal kinds)
    (h : k ∉ kinds) : t.1.kind ≠ k := by
  intro hk
  exact h (hk ▸ t.2)

/-- A tree derives no end token. -/
theorem Tree.kind_ne_end {f : Phrase} (t : Tree f) : ∀ x ∈ t.tokens, x.kind ≠ .endOfFile := by
  induction t with
  | leaf t => simpa [tokens] using t.kind_ne (by decide)
  | sign t e ih => simpa [tokens] using ⟨t.kind_ne (by decide), ih⟩
  | group l e r ih =>
    intro x hx
    simp only [tokens, List.mem_cons, List.mem_append, List.not_mem_nil, or_false] at hx
    rcases hx with rfl | hx | rfl
    · exact l.kind_ne (by decide)
    · exact ih x hx
    · exact r.kind_ne (by decide)
  | single e ih => exact ih
  | chain l op r ihl ihr =>
    intro x hx
    simp only [tokens, List.mem_cons, List.mem_append] at hx
    rcases hx with hx | rfl | hx
    · exact ihl x hx
    · exact op.kind_ne (by decide)
    · exact ihr x hx

/-- The tokens begin with an operand that fits. -/
def StartsOperand (scopes : Scopes) (room : Nat) (ts : List Token) : Prop :=
  ∃ (t : Tree .unary) (rest : List Token), ts = t.tokens ++ rest ∧ t.Fits scopes room

/-- The tokens begin with an expression that fits, and the token after it is no operator. -/
def StartsExpr (scopes : Scopes) (room : Nat) (ts : List Token) : Prop :=
  ∃ (t : Tree .expr) (next : Token) (rest : List Token), ts = t.tokens ++ next :: rest ∧
    next.kind ∉ operatorKinds ∧ t.Fits scopes room

/-- Reading a phrase gets stuck within the tokens. -/
def GetsStuck (scopes : Scopes) (f : Phrase) (room : Nat) (ts : List Token) : Prop :=
  ∃ (used : List Token) (bad : Token) (rest : List Token) (pr : Problem) (moves : List Move),
    ts = used ++ bad :: rest ∧ Stuck scopes f room used bad pr moves

theorem leaf_or_stuck {scopes : Scopes} (room : Nat) {t : Token} (rest : List Token)
    (hk : t.kind ∈ [TokenKind.integerLiteral, .floatLiteral, .stringLiteral, .identifier]) :
    StartsOperand scopes (room + 1) (t :: rest) ∨ GetsStuck scopes .unary (room + 1) (t :: rest) := by
  cases hv : leafValue? scopes t with
  | some v => exact .inl ⟨.leaf ⟨t, hk⟩, rest, rfl, Nat.succ_pos _, by simp [hv]⟩
  | none =>
    refine .inr ⟨[], t, rest, ?_⟩
    cases he : literalError? t with
    | some e => exact ⟨_, _, rfl, .invalid room he⟩
    | none =>
      -- without a value and without a literal error it is a name that does not resolve
      unfold leafValue? at hv
      unfold literalError? at he
      simp only [List.mem_cons, List.not_mem_nil, or_false] at hk
      rcases hk with hk | hk | hk | hk <;> simp only [hk] at hv he
      · cases hi : integerValue t.text <;> simp [hi, Except.toOption] at hv he
      · cases hf : floatValue t.text <;> simp [hf, Except.toOption] at hv he
      · cases hv
      · exact ⟨_, _, rfl, .unresolved room hk (by simpa using hv)⟩

/-- Reading on after a complete expression: the loop over operators, by induction on the number of
tokens left. -/
theorem chain_or_stuck {scopes : Scopes} {room : Nat}
    (hoperand : ∀ ts, HasEnd ts → StartsOperand scopes room ts ∨ GetsStuck scopes .unary room ts) :
    ∀ (n : Nat) (e : Tree .expr) (ts : List Token), ts.length ≤ n → HasEnd ts →
      e.Fits scopes room → StartsExpr scopes room (e.tokens ++ ts) ∨
        GetsStuck scopes .expr room (e.tokens ++ ts) := by
  intro n
  induction n with
  | zero =>
    intro e ts hlen hend _
    obtain ⟨t, rest, rfl⟩ := hend.exists_cons
    simp at hlen
  | succ n ih =>
    intro e ts hlen hend he
    obtain ⟨op, rest, rfl⟩ := hend.exists_cons
    by_cases hop : op.kind ∈ operatorKinds
    · have hne : op.kind ≠ .endOfFile := Terminal.kind_ne ⟨op, hop⟩ (by decide)
      rcases hoperand rest (hend.tail hne) with ⟨u, rest, rfl, hu⟩ | ⟨used, bad, rest, pr, mv, rfl, hs⟩
      · have hlen' : rest.length ≤ n := by
          simp only [List.length_cons, List.length_append] at hlen
          omega
        have hend' : HasEnd rest := (hend.tail hne).append_right u.kind_ne_end
        -- the operand belongs to the expression now, and fewer tokens are left
        have := ih (.chain e ⟨op, hop⟩ u) rest hlen' hend' ⟨he, hu⟩
        simpa [Tree.tokens] using this
      · exact .inr ⟨_, bad, rest, pr, _, by simp, .later he ⟨op, hop⟩ hs⟩
    · exact .inl ⟨e, op, rest, rfl, hop, he⟩

theorem expr_or_stuck {scopes : Scopes} {room : Nat}
    (hoperand : ∀ ts, HasEnd ts → StartsOperand scopes room ts ∨ GetsStuck scopes .unary room ts)
    {ts : List Token} (hend : HasEnd ts) :
    StartsExpr scopes room ts ∨ GetsStuck scopes .expr room ts := by
  rcases hoperand ts hend with ⟨u, rest, rfl, hu⟩ | ⟨used, bad, rest, pr, mv, rfl, hs⟩
  · exact chain_or_stuck hoperand _ (.single u) rest (Nat.le_refl _)
      (hend.append_right u.kind_ne_end) hu
  · exact .inr ⟨used, bad, rest, pr, mv, rfl, .first hs⟩

/-- Every sequence of tokens begins with an operand, or reading one gets stuck. -/
theorem operand_or_stuck (scopes : Scopes) (room : Nat) :
    ∀ ts, HasEnd ts → StartsOperand scopes room ts ∨ GetsStuck scopes .unary room ts := by
  induction room with
  | zero =>
    intro ts hend
    obtain ⟨t, rest, rfl⟩ := hend.exists_cons
    exact .inr ⟨[], t, rest, _, _, rfl, .tooDeep t⟩
  | succ room ih =>
    intro ts hend
    obtain ⟨t, rest, rfl⟩ := hend.exists_cons
    by_cases hleaf : t.kind ∈ [TokenKind.integerLiteral, .floatLiteral, .stringLiteral, .identifier]
    · exact leaf_or_stuck room rest hleaf
    by_cases hsign : t.kind ∈ [TokenKind.minus, .plus]
    · have hne : t.kind ≠ .endOfFile := Terminal.kind_ne ⟨t, hsign⟩ (by decide)
      rcases ih rest (hend.tail hne) with ⟨u, rest, rfl, hu⟩ | ⟨used, bad, rest, pr, mv, rfl, hs⟩
      · exact .inl ⟨.sign ⟨t, hsign⟩ u, rest, rfl, Nat.succ_pos _, hu⟩
      · exact .inr ⟨_, bad, rest, pr, _, rfl, .sign ⟨t, hsign⟩ hs⟩
    by_cases hparen : t.kind ∈ [TokenKind.leftParen]
    · have hne : t.kind ≠ .endOfFile := Terminal.kind_ne ⟨t, hparen⟩ (by decide)
      rcases expr_or_stuck ih (hend.tail hne) with
        ⟨e, next, rest, rfl, hop, he⟩ | ⟨used, bad, rest, pr, mv, rfl, hs⟩
      · -- the expression inside ends before a token that is no operator; it should be the parenthesis
        by_cases hr : next.kind ∈ [TokenKind.rightParen]
        · exact .inl ⟨.group ⟨t, hparen⟩ e ⟨next, hr⟩, rest, by simp [Tree.tokens],
            Nat.succ_pos _, he⟩
        · exact .inr ⟨_, next, rest, _, _, rfl,
            .unclosed ⟨t, hparen⟩ he hop (by simpa using hr)⟩
      · exact .inr ⟨_, bad, rest, pr, _, rfl, .inside ⟨t, hparen⟩ hs⟩
    refine .inr ⟨[], t, rest, ?_⟩
    by_cases hif : t.kind = .kwIf
    · exact ⟨_, _, rfl, .conditional room hif⟩
    · refine ⟨_, _, rfl, .unexpected room ?_⟩
      simp_all [operandKinds]

end SwiftDialect
