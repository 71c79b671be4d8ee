import SwiftDialect.Proofs.Splitting

/-!
# How many tokens are consumed

A procedure consumes a token only after it has looked at it and found that it is not the end. So the end
stays where it is, and whatever a procedure consumes comes before it.

Main statement: an operand that is read takes at least one token (`consumes_unaryWithin`), and a statement at
least two (`consumes_statementWithin`).
-/

namespace SwiftDialect.Parse

variable {τ α β : Type} [TokenSource τ]

/-- Where `t` is the next token, the procedure consumes at least `k` of the tokens before the end if it
succeeds. -/
def ConsumesAt (t : Token) (k : Nat) (m : Parse τ α) : Prop :=
  ∀ ⦃p p' : Parser τ⦄ ⦃body : List Token⦄ ⦃eof : Token⦄ ⦃a : α⦄, p.next = t → p.tokens.ToEnd body eof →
    m p = (.ok a, p') → ∃ used rest, body = used ++ rest ∧ k ≤ used.length ∧ p'.tokens.ToEnd rest eof

/-- Wherever it is run, the procedure consumes at least `k` of the tokens before the end if it succeeds. -/
def Consumes (k : Nat) (m : Parse τ α) : Prop :=
  ∀ t, ConsumesAt t k m

/-! ### Sequencing -/

theorem ConsumesAt.mono {t : Token} {k l : Nat} {m : Parse τ α} (h : ConsumesAt t l m) (hle : k ≤ l) :
    ConsumesAt t k m := by
  intro p p' body eof a hnext hend hrun
  obtain ⟨used, rest, hbody, hused, hrest⟩ := h hnext hend hrun
  exact ⟨used, rest, hbody, Nat.le_trans hle hused, hrest⟩

theorem Consumes.mono {k l : Nat} {m : Parse τ α} (h : Consumes l m) (hle : k ≤ l) : Consumes k m :=
  fun t => (h t).mono hle

theorem consumes_of_idle {m : Parse τ α} (h : ∀ p, (m p).2.tokens = p.tokens) : Consumes 0 m := by
  intro t p p' body eof a _ hend hrun
  refine ⟨[], body, rfl, Nat.zero_le _, ?_⟩
  have htokens := h p
  rw [hrun] at htokens
  rwa [htokens]

/-- A procedure that never succeeds. -/
theorem consumesAt_of_error {m : Parse τ α} (h : ∀ p, ∃ why, (m p).1 = .error why) (t : Token)
    (k : Nat) : ConsumesAt t k m := by
  intro p p' body eof a _ _ hrun
  obtain ⟨why, herror⟩ := h p
  rw [hrun] at herror
  cases herror

theorem ConsumesAt.bind {t : Token} {k l : Nat} {m : Parse τ α} {f : α → Parse τ β}
    (hm : ConsumesAt t k m) (hf : ∀ a, Consumes l (f a)) : ConsumesAt t (k + l) (m >>= f) := by
  intro p p' body eof b hnext hend hrun
  obtain ⟨a, q, hq, hrun⟩ := exists_of_bind_ok hrun
  obtain ⟨first, rest, rfl, hfirst, hrest⟩ := hm hnext hend hq
  obtain ⟨second, rest', rfl, hsecond, hrest'⟩ := hf a _ rfl hrest hrun
  exact ⟨first ++ second, rest', (List.append_assoc ..).symm, by rw [List.length_append]; omega, hrest'⟩

theorem Consumes.bind {k l : Nat} {m : Parse τ α} {f : α → Parse τ β} (hm : Consumes k m)
    (hf : ∀ a, Consumes l (f a)) : Consumes (k + l) (m >>= f) :=
  fun t => (hm t).bind hf

theorem Consumes.bind_of_idle {k : Nat} {m : Parse τ α} {f : α → Parse τ β} (hm : Consumes 0 m)
    (hf : ∀ a, Consumes k (f a)) : Consumes k (m >>= f) :=
  Nat.zero_add k ▸ hm.bind hf

theorem Consumes.deeper {k : Nat} {m : Parse τ α} (h : Consumes k m) : Consumes k (deeper m) := by
  intro t p p' body eof a hnext hend hrun
  obtain ⟨hresult, rfl⟩ := Prod.mk.inj hrun
  have hinner : m { p with depth := p.depth + 1 } = (.ok a, (m { p with depth := p.depth + 1 }).2) :=
    Prod.ext hresult rfl
  obtain ⟨used, rest, hbody, hused, hrest⟩ := h t (p := { p with depth := p.depth + 1 }) hnext hend hinner
  exact ⟨used, rest, hbody, hused, hrest⟩

/-- The end is as near as it was, or nearer. -/
theorem Consumes.within {k n : Nat} {m : Parse τ α} {p p' : Parser τ} {a : α} (h : Consumes k m)
    (hend : p.Within (n + k)) (hrun : m p = (.ok a, p')) : p'.Within n := by
  obtain ⟨body, eof, hend, hlength⟩ := hend
  obtain ⟨used, rest, rfl, hused, hrest⟩ := h _ rfl hend hrun
  rw [List.length_append] at hlength
  exact ⟨rest, eof, hrest, by omega⟩

/-! ### Single moves -/

theorem consumes_pure (a : α) : Consumes 0 (pure a : Parse τ α) :=
  consumes_of_idle fun _ => rfl

theorem consumes_ofExcept (x : Except Violation α) : Consumes 0 (ofExcept x : Parse τ α) := by
  refine consumes_of_idle fun p => ?_
  cases x with
  | ok a => rfl
  | error v => rfl

theorem consumesAt_reject (problem : Problem) (place : Location) (t : Token) (k : Nat) :
    ConsumesAt t k (reject problem place : Parse τ α) :=
  consumesAt_of_error (fun _ => ⟨.rejected, rfl⟩) t k

variable [LawfulTokenSource τ]

theorem consumes_record (e : Event) : Consumes 0 (record e : Parse τ Unit) := by
  rintro t p p' body eof a - hend hrun
  obtain ⟨-, rfl⟩ := Prod.mk.inj hrun
  exact ⟨[], body, rfl, Nat.le_refl _, (hend.yields.record e).toEnd hend.body_kind hend.eof_kind⟩

/-- What is done after a look knows the next token. -/
theorem consumes_of_peek {k : Nat} {f : Token → Parse τ α} (h : ∀ t, ConsumesAt t k (f t)) :
    Consumes k (peek >>= f) := by
  rintro t p p' body eof a rfl hend hrun
  have hpeeked := (Lookahead.yields_peek.2 hend.yields).toEnd hend.body_kind hend.eof_kind
  exact h p.next (p := p.peeked) rfl hpeeked hrun

/-- A token that is no end token is consumed. -/
theorem consumesAt_skip {t : Token} (ht : t.kind ≠ .endOfFile) : ConsumesAt t 1 (skip : Parse τ Unit) := by
  rintro p p' body eof a rfl hend hrun
  obtain ⟨rest, rfl, hrest⟩ := hend.skip ht
  obtain ⟨-, rfl⟩ := Prod.mk.inj hrun
  exact ⟨[_], rest, rfl, Nat.le_refl _, hrest⟩

/-- A token of the right kind is consumed together with what comes after it. -/
theorem ConsumesAt.skip {t : Token} {k : Nat} {m : Parse τ α} (ht : t.kind ≠ .endOfFile)
    (h : Consumes k m) : ConsumesAt t (k + 1) (Parse.skip >>= fun _ => m) :=
  Nat.add_comm 1 k ▸ (consumesAt_skip ht).bind fun _ => h

/-- What is done after a token was expected knows its kind. -/
theorem consumes_of_expect {kind : TokenKind} {k : Nat} {f : Token → Parse τ α}
    (h : ∀ t, t.kind = kind → ConsumesAt t k (f t)) : Consumes k (expect kind >>= f) := by
  rintro t p p' body eof a rfl hend hrun
  by_cases hk : p.next.kind = kind
  · have hpeeked := (Lookahead.yields_peek.2 hend.yields).toEnd hend.body_kind hend.eof_kind
    rw [bind_ok (expect_ok hk)] at hrun
    exact h p.next hk (p := p.peeked) rfl hpeeked hrun
  · rw [bind_error (expect_error hk)] at hrun
    cases hrun

theorem consumes_skipExpected {kind : TokenKind} (hkind : kind ≠ .endOfFile) :
    Consumes 1 (skipExpected kind : Parse τ Unit) :=
  consumes_of_expect fun _ ht => consumesAt_skip (ht ▸ hkind)

/-- The end token stands for nothing. -/
theorem ne_end_of_some {meaning : TokenKind → Option α} (hend : meaning .endOfFile = none)
    {kind : TokenKind} {a : α} (h : meaning kind = some a) : kind ≠ .endOfFile := by
  rintro rfl
  rw [hend] at h
  cases h

/-! ### Expressions -/

theorem consumes_literal : Consumes 1 (literal : Parse τ Expr) := by
  refine consumes_of_peek fun t => ?_
  -- what is done with the value is the same for each kind of literal
  have hvalue : t.kind ≠ .endOfFile → ∀ f : Except LiteralError Expr → Parse τ Expr,
      (∀ expr, f (.ok expr) = Parse.skip >>= fun _ => pure expr) →
      (∀ e p, ∃ why, (f (.error e) p).1 = .error why) → ∀ value, ConsumesAt t 1 (pure value >>= f) := by
    intro ht f hok herror value
    cases value with
    | ok expr =>
      change ConsumesAt t 1 (f (.ok expr))
      rw [hok]
      exact .skip ht (consumes_pure expr)
    | error e => exact consumesAt_of_error (herror e) t 1
  dsimp only
  split
  · next hk => exact hvalue (by rw [hk]; decide) _ (fun _ => rfl) (fun _ _ => ⟨.rejected, rfl⟩) _
  · next hk => exact hvalue (by rw [hk]; decide) _ (fun _ => rfl) (fun _ _ => ⟨.rejected, rfl⟩) _
  · next hk => exact hvalue (by rw [hk]; decide) _ (fun _ => rfl) (fun _ _ => ⟨.rejected, rfl⟩) _
  · exact consumesAt_of_error (fun _ => ⟨.rejected, rfl⟩) _ _

theorem consumes_name : Consumes 1 (name : Parse τ Expr) := by
  refine consumes_of_expect fun t ht => .skip (by rw [ht]; decide) ?_
  refine (consumes_of_idle fun _ => rfl).bind_of_idle fun scopes =>
    (consumes_ofExcept _).bind_of_idle fun found => ?_
  cases found with
  | some symbol => exact consumes_pure _
  | none => exact fun t => consumesAt_reject _ _ _ _

theorem consumes_primaryWith {inner : Parse τ Expr} (hinner : Consumes 0 inner) :
    Consumes 1 (primaryWith inner) := by
  refine consumes_of_peek fun t => ?_
  split
  · exact consumes_literal t
  · exact consumes_literal t
  · exact consumes_literal t
  · exact consumes_name t
  · next hk =>
    -- the opening parenthesis is the token that counts; what is inside may take none
    refine .skip (by rw [hk]; decide) (hinner.bind_of_idle fun e => ?_)
    exact ((consumes_skipExpected (by decide)).bind fun _ => consumes_pure e).mono (Nat.zero_le _)
  · exact (consumes_of_peek fun token => consumesAt_reject _ _ _ _) t
  · exact consumesAt_reject _ _ _ _

theorem consumes_operators {right : Nat → Parse τ Expr} (hright : ∀ power, Consumes 0 (right power))
    (min bound : Nat) : ∀ lhs, Consumes 0 (operators right min bound lhs) := by
  induction bound with
  | zero => exact fun lhs => consumes_of_peek fun _ => consumes_pure lhs _
  | succ bound ih =>
    refine fun lhs => consumes_of_peek fun t => ?_
    split
    · exact consumes_pure lhs t
    · next op hop =>
      split
      · exact consumes_pure lhs t
      · have hne := ne_end_of_some rfl hop
        exact (ConsumesAt.skip hne ((hright _).bind_of_idle fun rhs => ih _)).mono (Nat.zero_le _)

theorem consumes_binaryWith {operand : Parse τ Expr} (hoperand : Consumes 1 operand) (bound levels : Nat) :
    ∀ min, Consumes 1 (binaryWith operand bound levels min) := by
  induction levels with
  | zero => exact fun _ => hoperand
  | succ levels ih =>
    exact fun min => hoperand.bind fun first =>
      consumes_operators (fun power => (ih power).mono (Nat.zero_le _)) min bound first

theorem consumes_expressionWith {operand : Parse τ Expr} (hoperand : Consumes 1 operand) (bound : Nat) :
    Consumes 1 (expressionWith operand bound) :=
  (consumes_record _).bind_of_idle fun _ => consumes_binaryWith hoperand bound _ _

theorem consumes_unaryWithin (bound room : Nat) : Consumes 1 (unaryWithin bound room : Parse τ Expr) := by
  induction room with
  | zero => exact consumes_of_peek fun t => consumesAt_reject _ _ _ _
  | succ room ih =>
    refine Consumes.deeper (consumes_of_peek fun t => ?_)
    split
    · next op hop =>
      have hne := ne_end_of_some rfl hop
      exact .skip hne ((ih.mono (Nat.zero_le _)).bind_of_idle fun operand => consumes_pure _)
    · exact consumes_primaryWith ((consumes_expressionWith ih bound).mono (Nat.zero_le _)) t

/-! ### Statements -/

theorem consumes_expressionWithin (bound : Nat) : Consumes 1 (expressionWithin bound : Parse τ Expr) :=
  (consumes_of_idle fun _ => rfl).bind_of_idle fun room =>
    consumes_expressionWith (consumes_unaryWithin bound room) bound

theorem consumes_evaluationWithin (bound : Nat) : Consumes 2 (evaluationWithin bound : Parse τ Stmt) :=
  (consumes_expressionWithin bound).bind fun e =>
    (consumes_skipExpected (by decide)).bind fun _ => consumes_pure _

theorem consumes_type : Consumes 0 (type : Parse τ TypeRef) := by
  refine consumes_of_peek fun t => ?_
  split
  · next kind hkind =>
    exact (ConsumesAt.skip (ne_end_of_some rfl hkind) (consumes_pure _)).mono (Nat.zero_le _)
  · exact consumesAt_reject _ _ _ _

theorem consumes_declare (ident : Token) (declaration : Declaration) :
    Consumes 0 (declare ident declaration : Parse τ Unit) := by
  have hscopes : Consumes 0 (scopes : Parse τ Scopes) := consumes_of_idle fun _ => rfl
  -- declaring a name looks at no token, with a warning or without
  have hinsert : Consumes 0 (do
      let symbol ← ofExcept (Symbol.make ident.text .var)
      let symbol ← ofExcept (symbol.bind declaration)
      let inserted ← ofExcept ((← scopes).insert symbol)
      setScopes inserted.2 : Parse τ Unit) := by
    refine (consumes_ofExcept _).bind_of_idle fun _ => (consumes_ofExcept _).bind_of_idle fun _ => ?_
    refine hscopes.bind_of_idle fun _ => (consumes_ofExcept _).bind_of_idle fun _ => ?_
    exact consumes_of_idle fun _ => rfl
  refine hscopes.bind_of_idle fun _ => (consumes_ofExcept _).bind_of_idle fun mapping => ?_
  dsimp only
  split
  · exact (consumes_record _).bind_of_idle fun _ => hinsert
  · exact hinsert

/-- A declaration takes five tokens; the introducing word and the name are enough here. -/
theorem consumes_varDecl : Consumes 2 (varDecl : Parse τ Stmt) := by
  have hexpected : ∀ {kind : TokenKind}, kind ≠ .endOfFile →
      Consumes 0 (skipExpected kind : Parse τ Unit) :=
    fun hkind => (consumes_skipExpected hkind).mono (Nat.zero_le _)
  refine consumes_of_peek fun intro => ?_
  split
  · exact consumesAt_reject _ _ _ _
  · next binding hbinding =>
    refine .skip (ne_end_of_some rfl hbinding) (consumes_of_expect fun ident hident => ?_)
    refine .skip (by rw [hident]; decide) ((hexpected (by decide)).bind_of_idle fun _ => ?_)
    refine consumes_type.bind_of_idle fun type => (hexpected (by decide)).bind_of_idle fun _ => ?_
    exact (consumes_declare _ _).bind_of_idle fun _ => consumes_pure _

theorem consumes_statementWithin (bound : Nat) : Consumes 2 (statementWithin bound : Parse τ Stmt) := by
  refine (consumes_record _).bind_of_idle fun _ => consumes_of_peek fun t => ?_
  split
  · exact consumes_varDecl t
  · exact consumes_varDecl t
  · exact (consumes_of_peek fun token => consumesAt_reject _ _ _ _) t
  any_goals exact consumes_evaluationWithin bound t
  exact consumesAt_reject _ _ _ _

end SwiftDialect.Parse
