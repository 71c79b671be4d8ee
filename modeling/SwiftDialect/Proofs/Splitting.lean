import SwiftDialect.Proofs.Viability

/-!
# Operators by splitting

Another way to group operators: take the whole row of operands with the operators between them, find the
operator of lowest power that stands furthest to the right, and split there; then do the same on either
side.

Main statement: what is read by climbing up the powers is a row of operands, each read the way an operand
is read at its place, and it is grouped by splitting (`binary_groups_by_splitting`).
-/

namespace SwiftDialect

/-- An operator and the operand after it. -/
structure Link where
  op : BinaryOp
  operand : Expr

/-- A row of links that is split at one of them. -/
structure Cut where
  before : List Link
  pivot : Link
  after : List Link

/-- Splits a row at the operator of lowest power that stands furthest to the right. -/
def cut? : List Link → Option Cut
  | [] => none
  | l :: rest =>
    match cut? rest with
    | none => some ⟨[], l, []⟩
    | some c =>
      if l.op.power < c.pivot.op.power then some ⟨[], l, rest⟩
      else some ⟨l :: c.before, c.pivot, c.after⟩

/-- Is the row split at the operator of lowest power that stands furthest to the right? -/
structure Cut.Splits (c : Cut) (links : List Link) : Prop where
  parts : links = c.before ++ c.pivot :: c.after
  before_le : ∀ l ∈ c.before, c.pivot.op.power ≤ l.op.power
  after_lt : ∀ l ∈ c.after, c.pivot.op.power < l.op.power

theorem cut?_eq_none {links : List Link} (h : cut? links = none) : links = [] := by
  cases links with
  | nil => rfl
  | cons l rest =>
    rw [cut?] at h
    split at h
    · cases h
    · split at h <;> cases h

theorem splits_of_cut? {links : List Link} : ∀ {c : Cut}, cut? links = some c → c.Splits links := by
  induction links with
  | nil =>
    intro c h
    cases h
  | cons l rest ih =>
    intro c h
    rw [cut?] at h
    split at h
    · next hnone =>
      obtain rfl := Option.some.inj h
      rw [cut?_eq_none hnone]
      exact ⟨rfl, by simp, by simp⟩
    · next c' hsome =>
      obtain ⟨hparts, hbefore, hafter⟩ := ih hsome
      split at h
      · next hlt =>
        obtain rfl := Option.some.inj h
        refine ⟨rfl, by simp, ?_⟩
        -- the pivot of the rest is no tighter than anything in it
        rw [hparts]
        simp only [List.mem_append, List.mem_cons]
        rintro x (hx | rfl | hx)
        · exact Nat.lt_of_lt_of_le hlt (hbefore x hx)
        · exact hlt
        · exact Nat.lt_trans hlt (hafter x hx)
      · next hge =>
        obtain rfl := Option.some.inj h
        refine ⟨congrArg (l :: ·) hparts, ?_, hafter⟩
        exact List.forall_mem_cons.2 ⟨Nat.le_of_not_lt hge, hbefore⟩

/-- There is one such place in a row. -/
theorem Cut.Splits.cut?_eq {c : Cut} {links : List Link} (h : c.Splits links) : cut? links = some c := by
  obtain ⟨before, pivot, after⟩ := c
  obtain ⟨hparts, hbefore, hafter⟩ := h
  dsimp only at hparts hbefore hafter
  subst hparts
  induction before with
  | nil =>
    rw [List.nil_append, cut?]
    split
    · next hnone => rw [cut?_eq_none hnone]
    · next c hsome =>
      have hmem : c.pivot ∈ after := by simp [(splits_of_cut? hsome).parts]
      rw [if_pos (hafter _ hmem)]
  | cons l before ih =>
    obtain ⟨hl, hbefore⟩ := List.forall_mem_cons.1 hbefore
    rw [List.cons_append, cut?, ih hbefore]
    simp [Nat.not_lt.2 hl]

theorem Cut.Splits.lengths {c : Cut} {links : List Link} (h : c.Splits links) :
    c.before.length < links.length ∧ c.after.length < links.length := by
  rw [h.parts, List.length_append, List.length_cons]
  omega

/-- The row that begins with `first`, grouped by splitting. -/
def grouped (first : Expr) (links : List Link) : Expr :=
  match _h : cut? links with
  | none => first
  | some c => .binary c.pivot.op (grouped first c.before) (grouped c.pivot.operand c.after)
termination_by links.length
decreasing_by
  · exact (splits_of_cut? _h).lengths.1
  · exact (splits_of_cut? _h).lengths.2

@[simp] theorem grouped_nil (first : Expr) : grouped first [] = first := by
  rw [grouped]
  rfl

theorem grouped_of_splits {c : Cut} {links : List Link} (h : c.Splits links) (first : Expr) :
    grouped first links =
      .binary c.pivot.op (grouped first c.before) (grouped c.pivot.operand c.after) := by
  rw [grouped]
  split
  · next hnone => rw [h.cut?_eq] at hnone; cases hnone
  · next c' hsome =>
    obtain rfl : c = c' := Option.some.inj (h.cut?_eq.symm.trans hsome)
    rfl

/-! ### Rows of operands -/

namespace Parse

variable {τ : Type} [TokenSource τ]

/-- Operands with operators between them: each operand is what is read as an operand where it stands, and
the last state is the one after the last operand. -/
inductive Row : Parser τ → Expr → List Link → Parser τ → Prop where
  | one {p q : Parser τ} {u : Expr} (h : unary p = (.ok u, q)) : Row p u [] q
  | link {p q r : Parser τ} {u v : Expr} {op : BinaryOp} {links : List Link}
      (h : unary p = (.ok u, q)) (hop : BinaryOp.ofToken? q.next.kind = some op)
      (hrest : Row q.skipped v links r) : Row p u (⟨op, v⟩ :: links) r

/-- A row goes on with an operator and another row. -/
theorem Row.append {p q r : Parser τ} {u v : Expr} {op : BinaryOp} {links more : List Link}
    (h : Row p u links q) (hop : BinaryOp.ofToken? q.next.kind = some op)
    (hmore : Row q.skipped v more r) : Row p u (links ++ ⟨op, v⟩ :: more) r := by
  induction h with
  | one h => exact .link h hop hmore
  | link h hop' _ ih => exact .link h hop' (ih hop hmore)

/-- From `p` on stands a row of operators from `min` up; grouped by splitting it is `e`, and then the
parser has looked at the token after it. -/
def Groups (min : Nat) (p : Parser τ) (e : Expr) (p' : Parser τ) : Prop :=
  ∃ first links q, Row p first links q ∧ p' = q.peeked ∧ (∀ l ∈ links, min ≤ l.op.power) ∧
    Stops min p'.next ∧ e = grouped first links

end Parse

/-! ### How far away the end is -/

/-- The end comes after at most `n` other tokens. -/
def Parser.Within {τ : Type} [TokenSource τ] (p : Parser τ) (n : Nat) : Prop :=
  ∃ body eof, p.tokens.ToEnd body eof ∧ body.length ≤ n

namespace Parser.Within

variable {τ : Type} [TokenSource τ] {p : Parser τ} {n : Nat}

theorem mono {m : Nat} (h : p.Within n) (hle : n ≤ m) : p.Within m := by
  obtain ⟨body, eof, hend, hlen⟩ := h
  exact ⟨body, eof, hend, Nat.le_trans hlen hle⟩

variable [LawfulTokenSource τ]

theorem of_yields {body : List Token} {eof : Token} (hy : p.Yields (body ++ [eof]))
    (hbody : ∀ t ∈ body, t.kind ≠ .endOfFile) (heof : eof.kind = .endOfFile) :
    p.Within body.length :=
  ⟨body, eof, Lookahead.Yields.toEnd hy hbody heof, Nat.le_refl _⟩

/-- An operator is no end, so consuming it brings the end nearer. -/
theorem skipped {op : BinaryOp} (h : p.Within n) (hop : BinaryOp.ofToken? p.next.kind = some op) :
    ∃ m, n = m + 1 ∧ p.skipped.Within m := by
  obtain ⟨body, eof, hend, hlen⟩ := h
  have hne : p.next.kind ≠ .endOfFile := by
    intro heof
    rw [heof] at hop
    cases hop
  obtain ⟨rest, rfl, hrest⟩ := hend.skip hne
  obtain ⟨m, rfl⟩ := Nat.exists_eq_succ_of_ne_zero (Nat.ne_of_gt (Nat.lt_of_lt_of_le (Nat.succ_pos _) hlen))
  exact ⟨m, rfl, rest, eof, hrest, Nat.le_of_succ_le_succ hlen⟩

end Parser.Within

namespace Parse

variable {τ : Type} [TokenSource τ] [LawfulTokenSource τ] {p : Parser τ}

/-- What an operand comes to does not depend on the bound, once that covers the tokens before the end; and
an operand that is read ends before the end. -/
theorem unaryWithin_cases (hopen : p.scopes.mappings ≠ []) {body : List Token} {eof : Token}
    (hend : p.tokens.ToEnd body eof) (room : Nat) :
    (∃ u moves, (p.play moves).Within body.length ∧
      ∀ bound, body.length ≤ bound → unaryWithin bound room p = (.ok u, p.play moves)) ∨
    ∃ q, ∀ bound, body.length ≤ bound → unaryWithin bound room p = (.error .rejected, q) := by
  have hends : HasEnd (body ++ [eof]) := ⟨eof, by simp, hend.eof_kind⟩
  have hy : p.Yields (body ++ [eof]) := hend.yields
  rcases operand_or_stuck p.scopes room _ hends with
    ⟨t, rest, hsplit, hfits⟩ | ⟨used, bad, rest, pr, moves, hsplit, hstuck⟩
  · rw [hsplit] at hends hy
    obtain ⟨last, hlast, -⟩ := hends.append_right t.kind_ne_end
    obtain ⟨init, x, rfl⟩ := (List.eq_nil_or_concat rest).resolve_left (List.ne_nil_of_mem hlast)
    rw [List.concat_eq_append, ← List.append_assoc] at hsplit
    obtain ⟨rfl, heof⟩ := List.append_inj' hsplit rfl
    obtain rfl := List.singleton_inj.1 heof
    rw [List.concat_eq_append] at hy
    refine .inl ⟨t.value p.scopes, t.moves, ?_, fun bound hbound => ?_⟩
    · refine (Parser.Within.of_yields (hy.play t.skipCount_moves) ?_ hend.eof_kind).mono (by simp)
      exact fun x hx => hend.body_kind x (List.mem_append_right _ hx)
    · have hle : t.tokens.length ≤ bound := Nat.le_trans (by simp) hbound
      have hall := (reads_tree (τ := τ) hopen t hfits hle).2
      rw [Tree.spine_unary] at hall
      have hrun := hall p (init ++ [eof]) rfl (by simpa [Spine.toOperand] using hy)
      simpa [Spine.toOperand, Tree.value] using hrun
  · rw [hsplit] at hy
    have hlen := congrArg List.length hsplit
    simp only [List.length_append, List.length_cons, List.length_nil] at hlen
    exact .inr ⟨_, fun bound hbound => sticks_of_stuck hopen hstuck (by omega) p rest rfl hy⟩

/-- With a bound that covers the tokens before the end, an operand is read as it is without one. -/
theorem unaryWithin_eq_unary (hopen : p.scopes.mappings ≠ []) {bound : Nat} (h : p.Within bound) :
    unaryWithin bound (maxNesting - p.depth) p = unary p := by
  obtain ⟨body, eof, hend, hlen⟩ := h
  have hunary : unary p = unaryWithin p.tokens.tokensLeft (maxNesting - p.depth) p := rfl
  rcases unaryWithin_cases hopen hend (maxNesting - p.depth) with ⟨u, moves, -, hrun⟩ | ⟨q, hrun⟩
  · rw [hunary, hrun _ hlen, hrun _ hend.length_le]
  · rw [hunary, hrun _ hlen, hrun _ hend.length_le]

/-- Operators and operands change neither the scopes nor the depth, and the end stays where it is. -/
theorem Row.frame {q : Parser τ} {u : Expr} {links : List Link} {n : Nat} (h : Row p u links q)
    (hopen : p.scopes.mappings ≠ []) (hend : p.Within n) :
    q.scopes = p.scopes ∧ q.depth = p.depth ∧ q.Within n := by
  have hunary : ∀ {p q : Parser τ} {u : Expr}, unary p = (.ok u, q) → p.scopes.mappings ≠ [] →
      p.Within n → q.scopes = p.scopes ∧ q.depth = p.depth ∧ q.Within n := by
    rintro p q u h hopen ⟨body, eof, hend, hlen⟩
    have heq : unaryWithin p.tokens.tokensLeft (maxNesting - p.depth) p = (.ok u, q) := h
    rcases unaryWithin_cases hopen hend (maxNesting - p.depth) with ⟨v, moves, hwithin, hrun⟩ | ⟨r, hrun⟩
    · obtain ⟨-, rfl⟩ := Prod.mk.inj ((hrun _ hend.length_le).symm.trans heq)
      exact ⟨rfl, rfl, hwithin.mono hlen⟩
    · rw [hrun _ hend.length_le] at heq
      cases heq
  induction h with
  | one h => exact hunary h hopen hend
  | link h hop _ ih =>
    obtain ⟨hscopes, hdepth, hwithin⟩ := hunary h hopen hend
    obtain ⟨m, rfl, hskipped⟩ := hwithin.skipped hop
    obtain ⟨hscopes', hdepth', hwithin'⟩ :=
      ih (by simpa [hscopes] using hopen) (hskipped.mono (Nat.le_succ m))
    exact ⟨hscopes'.trans hscopes, hdepth'.trans hdepth, hwithin'⟩

/-! ### Climbing up the powers groups by splitting -/

omit [TokenSource τ] [LawfulTokenSource τ] in
theorem exists_of_bind_ok {α β : Type} {m : Parse τ α} {f : α → Parse τ β} {b : β} {p' : Parser τ}
    (h : (m >>= f) p = (.ok b, p')) : ∃ a q, m p = (.ok a, q) ∧ f a q = (.ok b, p') := by
  rcases hm : m p with ⟨result, q⟩
  cases result with
  | ok a => exact ⟨a, q, rfl, by rwa [bind_ok hm] at h⟩
  | error why =>
    rw [bind_error hm] at h
    cases h

/-- The next token ends the row, or it is an operator from `min` up. -/
theorem stops_or_operator (min : Nat) (t : Token) :
    Stops min t ∨ ∃ op, BinaryOp.ofToken? t.kind = some op ∧ min ≤ op.power := by
  cases hop : BinaryOp.ofToken? t.kind with
  | none => exact .inl fun op hop' => by rw [hop] at hop'; cases hop'
  | some op =>
    rcases Nat.lt_or_ge op.power min with hlt | hge
    · refine .inl fun op' hop' => ?_
      obtain rfl := Option.some.inj (hop.symm.trans hop')
      exact hlt
    · exact .inr ⟨op, rfl, hge⟩

omit [LawfulTokenSource τ] in
/-- A row ends where the next token is no operator from `min` up. -/
theorem groups_of_stops {right : Nat → Parse τ Expr} {min n : Nat} {first : Expr} {links : List Link}
    {q : Parser τ} {e : Expr} {p' : Parser τ} (hrow : Row p first links q)
    (hlinks : ∀ l ∈ links, min ≤ l.op.power) (hstop : Stops min q.next)
    (h : operators right min n (grouped first links) q = (.ok e, p')) : Groups min p e p' := by
  rw [operators_stop _ _ _ hstop] at h
  obtain ⟨he, rfl⟩ := Prod.mk.inj h
  exact ⟨first, links, q, hrow, rfl, hlinks, hstop, (Except.ok.inj he).symm⟩

/-- The loop over operators, by induction on how many turns it can still make. What was read before it is
grouped by splitting, and the next token is no operator that binds more tightly than one of those. -/
theorem groups_operators {right : Nat → Parse τ Expr} {min bound : Nat}
    (hright : ∀ (op : BinaryOp) (q : Parser τ) (e : Expr) (q' : Parser τ), min ≤ op.power →
      q.scopes = p.scopes → q.depth = p.depth → q.Within bound → right (op.power + 1) q = (.ok e, q') →
      Groups (op.power + 1) q e q')
    (hopen : p.scopes.mappings ≠ []) (hend : p.Within bound) (n : Nat) :
    ∀ {first : Expr} {links : List Link} {q : Parser τ} {e : Expr} {p' : Parser τ},
      Row p first links q → (∀ l ∈ links, min ≤ l.op.power ∧ Stops (l.op.power + 1) q.next) →
      n ≤ bound → q.Within n → operators right min n (grouped first links) q = (.ok e, p') →
      Groups min p e p' := by
  induction n with
  | zero =>
    intro first links q e p' hrow hlinks _ hwithin h
    rcases stops_or_operator min q.next with hstop | ⟨op, hop, -⟩
    · exact groups_of_stops hrow (fun l hl => (hlinks l hl).1) hstop h
    · obtain ⟨m, hm, -⟩ := hwithin.skipped hop
      cases hm
  | succ n ih =>
    intro first links q e p' hrow hlinks hn hwithin h
    rcases stops_or_operator min q.next with hstop | ⟨op, hop, hmin⟩
    · exact groups_of_stops hrow (fun l hl => (hlinks l hl).1) hstop h
    obtain ⟨hscopes, hdepth, -⟩ := hrow.frame hopen hend
    obtain ⟨m, hm, hskipped⟩ := hwithin.skipped hop
    obtain rfl := Nat.succ.inj hm
    rw [operators_turn _ _ _ hop hmin] at h
    obtain ⟨rhs, s, hrhs, h⟩ := exists_of_bind_ok h
    obtain ⟨v, more, r, hmore, rfl, htight, hstop, rfl⟩ :=
      hright op q.skipped rhs s hmin hscopes hdepth (hskipped.mono (by omega)) hrhs
    -- the operator is no tighter than those before it, and looser than those in its right operand
    have hsplits : Cut.Splits ⟨links, ⟨op, v⟩, more⟩ (links ++ ⟨op, v⟩ :: more) :=
      ⟨rfl, fun l hl => Nat.le_of_lt_succ ((hlinks l hl).2 op hop), fun l hl => htight l hl⟩
    rw [operators_peeked, ← grouped_of_splits hsplits first] at h
    obtain ⟨-, -, hr⟩ := hmore.frame (by simpa [hscopes] using hopen) hskipped
    refine ih (hrow.append hop hmore) ?_ (by omega) hr h
    intro l hl
    rcases List.mem_append.1 hl with hl | hl
    · exact ⟨(hlinks l hl).1, hstop.mono ((hlinks l hl).2 op hop)⟩
    rcases List.mem_cons.1 hl with rfl | hl
    · exact ⟨hmin, hstop⟩
    · have := htight l hl
      exact ⟨by omega, hstop.mono (by omega)⟩

theorem groups_binaryWith {bound : Nat} (levels : Nat) :
    ∀ {min : Nat} {p : Parser τ} {e : Expr} {p' : Parser τ}, levelsFrom min ≤ levels →
      p.scopes.mappings ≠ [] → p.Within bound →
      binaryWith (unaryWithin bound (maxNesting - p.depth)) bound levels min p = (.ok e, p') →
      Groups min p e p' := by
  induction levels with
  | zero => exact fun hlevels => absurd hlevels (Nat.not_le.2 (levelsFrom_pos _))
  | succ levels ih =>
    intro min p e p' hlevels hopen hend h
    rw [binaryWith] at h
    obtain ⟨first, q, hfirst, h⟩ := exists_of_bind_ok h
    rw [unaryWithin_eq_unary hopen hend] at hfirst
    have hrow : Row p first [] q := .one hfirst
    rw [← grouped_nil first] at h
    refine groups_operators ?_ hopen hend bound hrow (by simp) (Nat.le_refl _) (hrow.frame hopen hend).2.2 h
    intro op r e r' hop hscopes hdepth hr hrun
    have := levelsFrom_lt hop
    rw [← hdepth] at hrun
    exact ih (by omega) (by rwa [hscopes]) hr hrun

/-- If reading operators from `min` up succeeds, then it has read a row: each operand is what is read as an
operand where it stands, each operator has at least the power `min`, and the token after the row is no such
operator. The result is the row split, again and again, at the operator of lowest power that stands furthest
to the right. -/
theorem binary_groups_by_splitting {min : Nat} {e : Expr} {p' : Parser τ}
    (hopen : p.scopes.mappings ≠ []) (h : binary min p = (.ok e, p')) :
    ∃ first links q, Row p first links q ∧ p' = q.peeked ∧ (∀ l ∈ links, min ≤ l.op.power) ∧
      Stops min p'.next ∧ e = grouped first links := by
  obtain ⟨body, eof, -, hend⟩ := Lookahead.readAll_spec p.tokens
  have hlevels : levelsFrom min ≤ BinaryOp.levels := by
    unfold levelsFrom BinaryOp.levels
    split <;> split <;> split <;> omega
  exact groups_binaryWith BinaryOp.levels hlevels hopen ⟨body, eof, hend, hend.length_le⟩ h

/-- The tokens of `1 - 2 * -3 + 4 < 5`. -/
def mixedOperators : List Token :=
  [⟨.integerLiteral, ⟨1⟩, "1"⟩, ⟨.minus, ⟨3⟩, ""⟩, ⟨.integerLiteral, ⟨5⟩, "2"⟩, ⟨.asterisk, ⟨7⟩, ""⟩,
   ⟨.minus, ⟨9⟩, ""⟩, ⟨.integerLiteral, ⟨10⟩, "3"⟩, ⟨.plus, ⟨12⟩, ""⟩, ⟨.integerLiteral, ⟨14⟩, "4"⟩,
   ⟨.less, ⟨16⟩, ""⟩, ⟨.integerLiteral, ⟨18⟩, "5"⟩]

/-- A parser before these tokens, with one scope open. -/
def beforeMixedOperators : Parser (List Token) where
  tokens := .ofSource mixedOperators
  scopes := Scopes.push {}

/-- What is read of them from the power of sums up: the product and the sign belong to the difference, and
the comparison is left. -/
def mixedValue : Expr :=
  .binary .add (.binary .sub (.integer 1 ⟨1⟩)
    (.binary .mul (.integer 2 ⟨5⟩) (.unary .neg (.integer 3 ⟨10⟩) ⟨9⟩))) (.integer 4 ⟨14⟩)

theorem binary_groups_mixed_operators :
    beforeMixedOperators.scopes.mappings ≠ [] ∧
    ∃ p', binary 20 beforeMixedOperators = (.ok mixedValue, p') ∧ p'.next.kind = .less ∧
      ∃ first links q, Row beforeMixedOperators first links q ∧ p' = q.peeked ∧
        (∀ l ∈ links, 20 ≤ l.op.power) ∧ Stops 20 p'.next ∧ mixedValue = grouped first links := by
  have hopen : beforeMixedOperators.scopes.mappings ≠ [] := by decide
  have hvalue : (binary 20 beforeMixedOperators).1 = .ok mixedValue := by decide +kernel
  have hnext : (binary 20 beforeMixedOperators).2.next.kind = .less := by decide +kernel
  rcases hrun : binary 20 beforeMixedOperators with ⟨result, p'⟩
  rw [hrun] at hvalue hnext
  obtain rfl : result = .ok mixedValue := hvalue
  exact ⟨hopen, p', rfl, hnext, binary_groups_by_splitting hopen hrun⟩

end Parse

end SwiftDialect
