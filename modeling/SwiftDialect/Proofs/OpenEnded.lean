import SwiftDialect.Proofs.Consumption
import SwiftDialect.Proofs.Frames

/-!
# Procedures without bounds

Here the procedures of the parser are written without the bounds that make them end. They call one another
as long as they like, and their loops go on until a token ends them. Each call takes a step; a procedure
comes to a result if it returns that result whenever it has enough steps. It can be given a budget too,
which says how many calls of the procedure for operands, and of the one for operators, can be active at
once, and which numbers the counter of nesting and the power that is asked for can be; what goes beyond it
aborts the whole run.

Main statement: a program is read as it is by the procedures with bounds, if the budget allows one call for
each level of nesting and one more for operands, four for each level and one more for operators, a counter
that goes up to the limit of nesting, and a power above the tightest (`program_comesTo`).
-/

namespace SwiftDialect

/-- What a run may use; `none` sets no limit. -/
structure Budget where
  /-- How many more calls of the procedure for operands can be active. -/
  operands : Option Nat := none
  /-- How many more calls of the procedure for operators can be active. -/
  operators : Option Nat := none
  /-- The greatest number that the counter of nesting can be. -/
  depth : Option Nat := none
  /-- The greatest power that can be asked for. -/
  power : Option Nat := none

namespace Budget

/-- One call less; `none` if there is none left. -/
def spend : Option Nat → Option (Option Nat)
  | none => some none
  | some 0 => none
  | some (n + 1) => some (some n)

/-- The budget of a call of the procedure for operands. -/
def spendOperand (b : Budget) : Option Budget :=
  (spend b.operands).map fun n => { b with operands := n }

/-- The budget of a call of the procedure for operators. -/
def spendOperators (b : Budget) : Option Budget :=
  (spend b.operators).map fun n => { b with operators := n }

/-- Is the budget enough for so many calls, and for numbers up to these? -/
structure Allows (b : Budget) (operands operators depth power : Nat) : Prop where
  operands : ∀ n ∈ b.operands, operands ≤ n
  operators : ∀ n ∈ b.operators, operators ≤ n
  depth : ∀ n ∈ b.depth, depth ≤ n
  power : ∀ n ∈ b.power, power ≤ n

variable {b : Budget} {k l depth power : Nat}

theorem Allows.mono {k' l' : Nat} (h : b.Allows k l depth power) (hk : k' ≤ k) (hl : l' ≤ l) :
    b.Allows k' l' depth power where
  operands n hn := Nat.le_trans hk (h.operands n hn)
  operators n hn := Nat.le_trans hl (h.operators n hn)
  depth := h.depth
  power := h.power

/-- Without limits everything is allowed. -/
theorem allows_unlimited (k l depth power : Nat) : ({} : Budget).Allows k l depth power where
  operands n hn := absurd hn (Option.not_mem_none n)
  operators n hn := absurd hn (Option.not_mem_none n)
  depth n hn := absurd hn (Option.not_mem_none n)
  power n hn := absurd hn (Option.not_mem_none n)

/-- A limit that is not reached goes down with a call. -/
theorem exists_spend {limit : Option Nat} (h : ∀ n ∈ limit, k + 1 ≤ n) :
    ∃ rest, spend limit = some rest ∧ ∀ n ∈ rest, k ≤ n := by
  cases limit with
  | none => exact ⟨none, rfl, fun n hn => absurd hn (Option.not_mem_none n)⟩
  | some m =>
    obtain ⟨m, rfl⟩ := Nat.exists_eq_add_of_le' (h m rfl)
    refine ⟨some (m + k), rfl, fun n hn => ?_⟩
    obtain rfl := Option.some.inj hn
    exact Nat.le_add_left k m

theorem Allows.spendOperand (h : b.Allows (k + 1) l depth power) :
    ∃ b', b.spendOperand = some b' ∧ b'.Allows k l depth power := by
  obtain ⟨rest, hspend, hrest⟩ := exists_spend h.operands
  refine ⟨{ b with operands := rest }, ?_, hrest, h.operators, h.depth, h.power⟩
  rw [Budget.spendOperand, hspend]
  rfl

theorem Allows.spendOperators (h : b.Allows k (l + 1) depth power) :
    ∃ b', b.spendOperators = some b' ∧ b'.Allows k l depth power := by
  obtain ⟨rest, hspend, hrest⟩ := exists_spend h.operators
  refine ⟨{ b with operators := rest }, ?_, h.operands, hrest, h.depth, h.power⟩
  rw [Budget.spendOperators, hspend]
  rfl

end Budget

/-- A procedure that returns a result, or none: it may run out of steps, or be aborted. -/
abbrev OpenEnded (τ α : Type) : Type :=
  ExceptT Stop (StateT (Parser τ) Option) α

namespace OpenEnded

variable {τ α β : Type}

/-- A procedure that comes to an end. -/
def lift (m : Parse τ α) : OpenEnded τ α :=
  fun p => some (m p)

/-- Ends the whole run. -/
def abort : OpenEnded τ α :=
  fun _ => none

/-- Runs a procedure that needs a number to be within a limit. -/
def holding (limit : Option Nat) (number : Nat) (r : OpenEnded τ α) : OpenEnded τ α :=
  if ∀ n ∈ limit, number ≤ n then r else abort

/-- Takes the counter of nesting one level back. It cannot go below zero. -/
def back (outcome : Except Stop α × Parser τ) : Option (Except Stop α × Parser τ) :=
  if outcome.2.depth = 0 then none
  else some (outcome.1, { outcome.2 with depth := outcome.2.depth - 1 })

/-- Runs a procedure one level further in, and comes back. The counter of nesting cannot go above its
limit. -/
def deeper (limit : Option Nat) (r : OpenEnded τ α) : OpenEnded τ α :=
  fun p => holding limit (p.depth + 1) (fun p => (r { p with depth := p.depth + 1 }).bind back) p

/-- Runs a procedure and goes on even if it rejects the input. -/
def attempt (r : OpenEnded τ α) : OpenEnded τ (Option α) :=
  fun p => (r p).map fun outcome => Parse.attempt (fun _ => outcome) p

/-! ### Sequencing -/

theorem bind_ok {r : OpenEnded τ α} {a : α} {p p' : Parser τ} (h : r p = some (.ok a, p'))
    (f : α → OpenEnded τ β) : (r >>= f) p = f a p' := by
  change (r p >>= _) = _
  rw [h]
  rfl

theorem bind_error {r : OpenEnded τ α} {why : Stop} {p p' : Parser τ} (h : r p = some (.error why, p'))
    (f : α → OpenEnded τ β) : (r >>= f) p = some (.error why, p') := by
  change (r p >>= _) = _
  rw [h]
  rfl

theorem bind_none {r : OpenEnded τ α} {p : Parser τ} (h : r p = none) (f : α → OpenEnded τ β) :
    (r >>= f) p = none := by
  change (r p >>= _) = _
  rw [h]
  rfl

theorem holding_of_le {limit : Option Nat} {number : Nat} (h : ∀ n ∈ limit, number ≤ n)
    (r : OpenEnded τ α) : holding limit number r = r :=
  if_pos h

theorem holding_none {limit : Option Nat} {number : Nat} {r : OpenEnded τ α} {p : Parser τ}
    (h : (∀ n ∈ limit, number ≤ n) → r p = none) : holding limit number r p = none := by
  by_cases hlimit : ∀ n ∈ limit, number ≤ n
  · rw [holding_of_le hlimit]
    exact h hlimit
  · rw [holding, if_neg hlimit]
    rfl

theorem attempt_none {r : OpenEnded τ α} {p : Parser τ} (h : r p = none) : attempt r p = none := by
  rw [attempt, h]
  rfl

/-- Procedures that come to the same, one after the other. -/
theorem bind_eq_some {r : OpenEnded τ α} {m : Parse τ α} {f : α → OpenEnded τ β} {g : α → Parse τ β}
    {p : Parser τ} (hr : r p = some (m p)) (hf : ∀ a q, f a q = some (g a q)) :
    (r >>= f) p = some ((m >>= g) p) := by
  rcases hrun : m p with ⟨result, p'⟩
  rw [hrun] at hr
  cases result with
  | ok a => rw [bind_ok hr, Parse.bind_ok hrun, hf]
  | error why => rw [bind_error hr, Parse.bind_error hrun]

/-! ### Results -/

/-- With enough steps, the procedure returns this. -/
def ComesTo (r : Nat → OpenEnded τ α) (p : Parser τ) (result : Except Stop α × Parser τ) : Prop :=
  ∃ enough, ∀ steps, enough ≤ steps → r steps p = some result

section

variable {r : Nat → OpenEnded τ α} {p : Parser τ} {result : Except Stop α × Parser τ}

theorem ComesTo.unique {other : Except Stop α × Parser τ} (h : ComesTo r p result) (h' : ComesTo r p other) :
    result = other := by
  obtain ⟨enough, hr⟩ := h
  obtain ⟨enough', hr'⟩ := h'
  have hsame := (hr _ (Nat.le_max_left enough enough')).symm.trans (hr' _ (Nat.le_max_right enough enough'))
  exact Option.some.inj hsame

/-- A step more does not change what the procedure comes to. -/
theorem ComesTo.of_succ (h : ComesTo (fun steps => r (steps + 1)) p result) : ComesTo r p result := by
  obtain ⟨enough, hr⟩ := h
  refine ⟨enough + 1, fun steps hle => ?_⟩
  obtain ⟨steps, rfl⟩ := Nat.exists_eq_add_of_le' hle
  exact hr (steps + enough) (Nat.le_add_left _ _)

theorem comesTo_of_forall (h : ∀ steps, r steps p = some result) : ComesTo r p result :=
  ⟨0, fun steps _ => h steps⟩

/-- What is done after a result that the procedure comes to. -/
theorem ComesTo.bind {a : α} {p' : Parser τ} {f : Nat → α → OpenEnded τ β} {final : Except Stop β × Parser τ}
    (h : ComesTo r p (.ok a, p')) (hf : ComesTo (fun steps => f steps a) p' final) :
    ComesTo (fun steps => r steps >>= f steps) p final := by
  obtain ⟨enough, hr⟩ := h
  obtain ⟨enough', hf⟩ := hf
  refine ⟨max enough enough', fun steps hle => ?_⟩
  have hfirst := hr steps (Nat.le_trans (Nat.le_max_left _ _) hle)
  exact (bind_ok hfirst (f steps)).trans (hf steps (Nat.le_trans (Nat.le_max_right _ _) hle))

theorem ComesTo.bind_error {why : Stop} {p' : Parser τ} (h : ComesTo r p (.error why, p'))
    (f : Nat → α → OpenEnded τ β) :
    ComesTo (fun steps => r steps >>= f steps) p (.error why, p') := by
  obtain ⟨enough, hr⟩ := h
  exact ⟨enough, fun steps hle => OpenEnded.bind_error (hr steps hle) _⟩

end

/-! ### The procedures -/

variable [TokenSource τ]

theorem peek_bind (f : Token → OpenEnded τ α) (p : Parser τ) :
    (lift Parse.peek >>= f) p = f p.next p.peeked := rfl

theorem record_bind (e : Event) (f : Unit → OpenEnded τ α) (p : Parser τ) :
    (lift (Parse.record e) >>= f) p = f () (p.recorded e) := rfl

mutual

/-- Reads an operand with its prefix operators. -/
def unary : Nat → Budget → OpenEnded τ Expr
  | 0, _ => abort
  | steps + 1, b =>
    match b.spendOperand with
    | none => abort
    | some b => do
      if maxNesting ≤ (← lift Parse.depth) then
        let token ← lift Parse.peek
        lift (Parse.reject (.nestedTooDeeply maxNesting) token.location)
      else deeper b.depth (prefixed steps b)

/-- Reads an operand with its prefix operators, where there is room for it. -/
def prefixed : Nat → Budget → OpenEnded τ Expr
  | 0, _ => abort
  | steps + 1, b => do
    let token ← lift Parse.peek
    match UnaryOp.ofToken? token.kind with
    | some op =>
      lift Parse.skip
      let operand ← unary steps b
      return .unary op operand token.location
    | none => primary steps b

/-- Reads an operand without prefix operators. -/
def primary : Nat → Budget → OpenEnded τ Expr
  | 0, _ => abort
  | steps + 1, b => do
    let token ← lift Parse.peek
    match token.kind with
    | .integerLiteral | .floatLiteral | .stringLiteral => lift Parse.literal
    | .identifier => lift Parse.name
    | .leftParen =>
      lift Parse.skip
      let expr ← expression steps b
      lift (Parse.skipExpected .rightParen)
      return expr
    | .kwIf => lift Parse.conditional
    | _ => lift (Parse.unexpected token)

/-- Reads an expression. -/
def expression : Nat → Budget → OpenEnded τ Expr
  | 0, _ => abort
  | steps + 1, b => do
    lift (Parse.record .parsingExpression)
    binary steps b 0

/-- Reads an operand and the operators after it that bind at least as tightly as `min`. -/
def binary : Nat → Budget → Nat → OpenEnded τ Expr
  | 0, _, _ => abort
  | steps + 1, b, min =>
    match b.spendOperators with
    | none => abort
    | some b => do
      let first ← unary steps b
      operators steps b min first

/-- Reads the operators that bind at least as tightly as `min` and stand after `lhs`. -/
def operators : Nat → Budget → Nat → Expr → OpenEnded τ Expr
  | 0, _, _, _ => abort
  | steps + 1, b, min, lhs => do
    let token ← lift Parse.peek
    match BinaryOp.ofToken? token.kind with
    | none => return lhs
    | some op =>
      if op.power < min then return lhs
      else
        lift Parse.skip
        let rhs ← holding b.power (op.power + 1) (binary steps b (op.power + 1))
        operators steps b min (.binary op lhs rhs)

end

/-- Reads a statement. -/
def statement (steps : Nat) (b : Budget) : OpenEnded τ Stmt := do
  lift (Parse.record .parsingStatement)
  let token ← lift Parse.peek
  match token.kind with
  | .kwLet | .kwVar => lift Parse.varDecl
  | .kwWhile => lift Parse.loop
  | .identifier | .kwIf | .integerLiteral | .floatLiteral | .stringLiteral | .leftParen
  | .rightParen | .plus | .minus =>
    let expr ← expression steps b
    lift (Parse.skipExpected .semicolon)
    return .eval expr
  | _ => lift (Parse.unexpected token)

/-- Reads statements up to the end token. -/
def statements : Nat → Budget → OpenEnded τ (List Stmt)
  | 0, _ => abort
  | steps + 1, b => do
    let token ← lift Parse.peek
    if token.kind = .endOfFile then return []
    else
      let first ← statement steps b
      let rest ← statements steps b
      return first :: rest

/-- Reads a whole program. -/
def program (steps : Nat) (b : Budget) : OpenEnded τ Program := do
  lift (Parse.record .parsingProgram)
  lift Parse.openScope
  let body ← attempt (statements steps b)
  lift Parse.closeScope
  match body with
  | some body =>
    lift (Parse.record (.parsedProgram body.length))
    return ⟨body⟩
  | none => lift (Parse.stop .rejected)

/-! ### Agreement -/

/-- Where `t` is the next token, the end comes after at most `n` others, and so many operands are being read,
the procedures come to the same. -/
def AgreesAt (t : Token) (n d : Nat) (r : Nat → OpenEnded τ α) (m : Parse τ α) : Prop :=
  ∀ ⦃p : Parser τ⦄, p.next = t → p.depth = d → p.Within n → ComesTo r p (m p)

/-- Where the end comes after at most `n` other tokens and so many operands are being read, the procedures
come to the same. -/
def Agrees (n d : Nat) (r : Nat → OpenEnded τ α) (m : Parse τ α) : Prop :=
  ∀ t, AgreesAt t n d r m

variable {n d : Nat} {t : Token}

theorem AgreesAt.mono {k : Nat} {r : Nat → OpenEnded τ α} {m : Parse τ α} (h : AgreesAt t n d r m)
    (hle : k ≤ n) : AgreesAt t k d r m :=
  fun _ hnext hdepth hend => h hnext hdepth (hend.mono hle)

theorem Agrees.mono {k : Nat} {r : Nat → OpenEnded τ α} {m : Parse τ α} (h : Agrees n d r m) (hle : k ≤ n) :
    Agrees k d r m :=
  fun t => (h t).mono hle

theorem Agrees.of_succ {r : Nat → OpenEnded τ α} {m : Parse τ α}
    (h : Agrees n d (fun steps => r (steps + 1)) m) : Agrees n d r m :=
  fun t _ hnext hdepth hend => (h t hnext hdepth hend).of_succ

theorem agrees_lift (m : Parse τ α) : Agrees n d (fun _ => lift m) m :=
  fun _ _ _ _ _ => comesTo_of_forall fun _ => rfl

/-- What comes after a procedure that consumes tokens is run nearer to the end. -/
theorem AgreesAt.bind {k : Nat} {r : Nat → OpenEnded τ α} {m : Parse τ α} {f : Nat → α → OpenEnded τ β}
    {g : α → Parse τ β} (hr : AgreesAt t (n + k) d r m) (hruns : m.Runs) (hm : m.Consumes k)
    (hf : ∀ a, Agrees n d (fun steps => f steps a) (g a)) :
    AgreesAt t (n + k) d (fun steps => r steps >>= f steps) (m >>= g) := by
  intro p hnext hdepth hend
  have hsame := hr hnext hdepth hend
  obtain ⟨-, -, -, hkept⟩ := hruns p
  rcases hrun : m p with ⟨result, p'⟩
  rw [hrun] at hsame hkept
  cases result with
  | ok a =>
    rw [Parse.bind_ok hrun]
    exact hsame.bind (hf a _ rfl (hkept.trans hdepth) (hm.within hend hrun))
  | error why =>
    rw [Parse.bind_error hrun]
    exact hsame.bind_error f

theorem Agrees.bind {r : Nat → OpenEnded τ α} {m : Parse τ α} {f : Nat → α → OpenEnded τ β}
    {g : α → Parse τ β} (hr : Agrees n d r m) (hruns : m.Runs) (hm : m.Consumes 0)
    (hf : ∀ a, Agrees n d (fun steps => f steps a) (g a)) :
    Agrees n d (fun steps => r steps >>= f steps) (m >>= g) :=
  fun t => AgreesAt.bind (n := n) (k := 0) (hr t) hruns hm hf

/-- After a procedure, one that takes no further steps. -/
theorem Agrees.bind_lift {r : Nat → OpenEnded τ α} {m : Parse τ α} (hr : Agrees n d r m)
    {f : α → OpenEnded τ β} {g : α → Parse τ β} (hf : ∀ a q, f a q = some (g a q)) :
    Agrees n d (fun steps => r steps >>= f) (m >>= g) := by
  intro t p hnext hdepth hend
  obtain ⟨enough, hsame⟩ := hr t hnext hdepth hend
  exact ⟨enough, fun steps hle => bind_eq_some (hsame steps hle) hf⟩

/-- The counter does not go below zero, since the procedure leaves it where it was. -/
theorem agrees_deeper {limit : Option Nat} {r : Nat → OpenEnded τ α} {m : Parse τ α}
    (h : Agrees n (d + 1) r m) (hruns : m.Runs) (hlimit : ∀ n ∈ limit, d + 1 ≤ n) :
    Agrees n d (fun steps => deeper limit (r steps)) (Parse.deeper m) := by
  rintro t p hnext rfl hend
  let q : Parser τ := { p with depth := p.depth + 1 }
  obtain ⟨enough, hsame⟩ := h t (p := q) hnext rfl hend
  obtain ⟨-, -, -, hkept⟩ := hruns q
  have hpos : (m q).2.depth ≠ 0 := by
    rw [hkept]
    exact Nat.succ_ne_zero _
  have hback : back (m q) = some (Parse.deeper m p) := if_neg hpos
  refine ⟨enough, fun steps hle => ?_⟩
  dsimp only [deeper]
  rw [holding_of_le hlimit, show r steps { p with depth := p.depth + 1 } = _ from hsame steps hle]
  exact hback

variable [LawfulTokenSource τ]

/-- What is done after a look knows the next token. -/
theorem agrees_of_peek {f : Nat → Token → OpenEnded τ α} {g : Token → Parse τ α}
    (h : ∀ t, AgreesAt t n d (fun steps => f steps t) (g t)) :
    Agrees n d (fun steps => lift Parse.peek >>= f steps) (Parse.peek >>= g) := by
  rintro t p rfl hdepth ⟨body, eof, hend, hlength⟩
  have hpeeked := (Lookahead.yields_peek.2 hend.yields).toEnd hend.body_kind hend.eof_kind
  exact h p.next (p := p.peeked) rfl hdepth ⟨body, eof, hpeeked, hlength⟩

/-- Consuming a token that is no end token brings the end nearer. -/
theorem AgreesAt.skip (ht : t.kind ≠ .endOfFile) {r : Nat → OpenEnded τ α} {m : Parse τ α}
    (h : Agrees n d r m) :
    AgreesAt t (n + 1) d (fun steps => lift Parse.skip >>= fun _ => r steps)
      (Parse.skip >>= fun _ => m) := by
  rintro p rfl hdepth ⟨body, eof, hend, hlength⟩
  obtain ⟨rest, rfl, hrest⟩ := hend.skip ht
  exact h _ (p := p.skipped) rfl hdepth ⟨rest, eof, hrest, Nat.le_of_succ_le_succ hlength⟩

/-- Where the end comes next, no other token does. -/
theorem agreesAt_zero (ht : t.kind ≠ .endOfFile) (r : Nat → OpenEnded τ α) (m : Parse τ α) :
    AgreesAt t 0 d r m := by
  rintro p rfl hdepth ⟨body, eof, hend, hlength⟩
  obtain ⟨rest, rfl, -⟩ := hend.skip ht
  exact absurd hlength (Nat.not_succ_le_zero _)

/-! ### Expressions -/

/-- The loop over operators, by induction on how many turns it can still make. -/
theorem agrees_operators {b : Budget} {min bound : Nat} {right : Nat → Parse τ Expr}
    (hpower : ∀ op : BinaryOp, ∀ n ∈ b.power, op.power + 1 ≤ n)
    (hright : ∀ op : BinaryOp, min ≤ op.power →
      Agrees bound d (fun steps => binary steps b (op.power + 1)) (right (op.power + 1)))
    (hruns : ∀ power, (right power).Runs) (hconsumes : ∀ power, (right power).Consumes 0) :
    ∀ turns ≤ bound, ∀ lhs,
      Agrees turns d (fun steps => operators steps b min lhs) (Parse.operators right min turns lhs) := by
  intro turns
  induction turns with
  | zero =>
    intro _ lhs
    refine .of_succ ?_
    simp only [operators]
    refine agrees_of_peek fun t => ?_
    cases hop : BinaryOp.ofToken? t.kind with
    | none => exact agrees_lift (pure lhs) t
    | some op => exact agreesAt_zero (Parse.ne_end_of_some rfl hop) _ _
  | succ turns ih =>
    intro hturns lhs
    refine .of_succ ?_
    simp only [operators]
    refine agrees_of_peek fun t => ?_
    cases hop : BinaryOp.ofToken? t.kind with
    | none => exact agrees_lift (pure lhs) t
    | some op =>
      dsimp only
      split
      · exact agrees_lift (pure lhs) t
      · next hmin =>
        simp only [holding_of_le (hpower op)]
        refine .skip (Parse.ne_end_of_some rfl hop) (Agrees.bind ?_ (hruns _) (hconsumes _) fun rhs => ?_)
        · exact (hright op (Nat.not_lt.1 hmin)).mono (Nat.le_of_succ_le hturns)
        · exact ih (Nat.le_of_succ_le hturns) _

/-- One call per power that can still come is enough, besides those of the operands. -/
theorem agrees_binary {room bound : Nat}
    (hunary : ∀ b : Budget, b.Allows (room + 1) (4 * room - 3) maxNesting 31 →
      Agrees bound d (fun steps => (unary steps b : OpenEnded τ Expr)) (Parse.unaryWithin bound room))
    (levels : Nat) :
    ∀ {b : Budget} {min : Nat}, levelsFrom min ≤ levels →
      b.Allows (room + 1) (levelsFrom min + (4 * room - 3)) maxNesting 31 →
      Agrees bound d (fun steps => (binary steps b min : OpenEnded τ Expr))
        (Parse.binaryWith (Parse.unaryWithin bound room) bound levels min) := by
  have hruns := Parse.composable_runs.unaryWithin (τ := τ) bound room
  have hconsumes := Parse.consumes_unaryWithin (τ := τ) bound room
  induction levels with
  | zero =>
    intro b min hlevels _
    exact absurd hlevels (Nat.not_le.2 (levelsFrom_pos min))
  | succ levels ih =>
    intro b min hlevels hb
    have hpos := levelsFrom_pos min
    obtain ⟨b', hspend, hb'⟩ := Budget.Allows.spendOperators
      (l := levelsFrom min - 1 + (4 * room - 3)) (hb.mono (Nat.le_refl _) (by omega))
    refine .of_succ ?_
    simp only [binary, hspend]
    refine Agrees.bind (hunary b' (hb'.mono (Nat.le_refl _) (by omega))) hruns
      (hconsumes.mono (Nat.zero_le _)) fun first => ?_
    have hpower : ∀ op : BinaryOp, ∀ n ∈ b'.power, op.power + 1 ≤ n := by
      intro op n hn
      have hle := hb'.power n hn
      rcases power_cases op with hp | hp | hp <;> omega
    refine agrees_operators hpower (fun op hop => ?_)
      (Parse.composable_runs.binaryWith hruns bound levels)
      (fun power => (Parse.consumes_binaryWith hconsumes bound levels power).mono (Nat.zero_le _)) bound
      (Nat.le_refl _) first
    have hlt := levelsFrom_lt hop
    exact ih (by omega) (hb'.mono (Nat.le_refl _) (by omega))

omit [LawfulTokenSource τ] in
/-- Where there is no room, the first operand is rejected, and one call is enough. -/
theorem agrees_binary_full {bound : Nat} (hunary : ∀ b : Budget, b.Allows 1 0 maxNesting 31 →
      Agrees bound d (fun steps => (unary steps b : OpenEnded τ Expr)) (Parse.unaryWithin bound 0))
    {b : Budget} (hb : b.Allows 1 1 maxNesting 31) (levels min : Nat) :
    Agrees bound d (fun steps => (binary steps b min : OpenEnded τ Expr))
      (Parse.binaryWith (Parse.unaryWithin bound 0) bound (levels + 1) min) := by
  obtain ⟨b', hspend, hb'⟩ := Budget.Allows.spendOperators hb
  refine .of_succ fun t p hnext hdepth hend => ?_
  have hreject : Parse.unaryWithin bound 0 p = (.error .rejected, (Parse.unaryWithin bound 0 p).2) := rfl
  have hsame := hunary b' hb' t hnext hdepth hend
  rw [hreject] at hsame
  rw [Parse.binaryWith, Parse.bind_error hreject]
  simp only [binary, hspend]
  exact hsame.bind_error _

/-- The operators of an expression take four calls, and its operands the others. -/
theorem agrees_expression {room bound : Nat}
    (hunary : ∀ b : Budget, b.Allows (room + 1) (4 * room - 3) maxNesting 31 →
      Agrees bound d (fun steps => (unary steps b : OpenEnded τ Expr)) (Parse.unaryWithin bound room))
    {b : Budget} (hb : b.Allows (room + 1) (4 * room + 1) maxNesting 31) :
    Agrees bound d (fun steps => (expression steps b : OpenEnded τ Expr))
      (Parse.expressionWith (Parse.unaryWithin bound room) bound) := by
  refine .of_succ ?_
  simp only [expression]
  refine Agrees.bind (agrees_lift _) (Parse.plays_record (.inr rfl)).runs (Parse.consumes_record _)
    fun _ => ?_
  rcases Nat.eq_zero_or_pos room with rfl | hroom
  · exact agrees_binary_full hunary hb _ _
  · have hlevels : levelsFrom 0 = BinaryOp.levels := rfl
    have hfour : BinaryOp.levels = 4 := rfl
    exact agrees_binary hunary _ (by omega) (hb.mono (Nat.le_refl _) (by omega))

theorem agrees_primary {b : Budget} {bound : Nat} {inner : Parse τ Expr}
    (h : Agrees bound d (fun steps => expression steps b) inner) (hruns : inner.Runs)
    (hconsumes : inner.Consumes 0) :
    Agrees bound d (fun steps => primary steps b) (Parse.primaryWith inner) := by
  refine .of_succ ?_
  simp only [primary]
  refine agrees_of_peek fun t => ?_
  cases hk : t.kind with
  | integerLiteral => exact agrees_lift Parse.literal t
  | floatLiteral => exact agrees_lift Parse.literal t
  | stringLiteral => exact agrees_lift Parse.literal t
  | identifier => exact agrees_lift Parse.name t
  | leftParen =>
    refine (AgreesAt.skip (by rw [hk]; decide) (h.bind hruns hconsumes fun expr => ?_)).mono
      (Nat.le_succ bound)
    exact (agrees_lift (Parse.skipExpected .rightParen)).bind_lift fun _ _ => rfl
  | kwIf => exact agrees_lift Parse.conditional t
  | _ => exact agrees_lift (Parse.unexpected t) t

/-- Within the room that the depth leaves, an operand takes a call for itself and one for each operand inside
it. -/
theorem agrees_unary (bound room : Nat) : ∀ {b : Budget} {d : Nat}, maxNesting - d = room →
    b.Allows (room + 1) (4 * room - 3) maxNesting 31 →
    Agrees bound d (fun steps => (unary steps b : OpenEnded τ Expr)) (Parse.unaryWithin bound room) := by
  induction room with
  | zero =>
    intro b d hroom hb
    obtain ⟨b', hspend, -⟩ := hb.spendOperand
    refine .of_succ fun t p hnext hdepth hend => comesTo_of_forall fun steps => ?_
    have hdeep : maxNesting ≤ p.depth := by omega
    simp only [unary, hspend]
    rw [bind_ok (r := lift Parse.depth) (p := p) rfl, if_pos hdeep]
    rfl
  | succ room ih =>
    intro b d hroom hb
    obtain ⟨b', hspend, hb'⟩ := hb.spendOperand
    have hruns := Parse.composable_runs.unaryWithin (τ := τ) bound room
    have hconsumes := (Parse.consumes_unaryWithin (τ := τ) bound room).mono (Nat.zero_le 1)
    have hunary : ∀ b : Budget, b.Allows (room + 1) (4 * room - 3) maxNesting 31 →
        Agrees bound (d + 1) (fun steps => (unary steps b : OpenEnded τ Expr))
          (Parse.unaryWithin bound room) :=
      fun b hb => ih (by omega) hb
    refine .of_succ fun t p hnext hdepth hend => ?_
    have hdeep : ¬ maxNesting ≤ p.depth := by omega
    simp only [unary, hspend]
    refine ComesTo.bind (comesTo_of_forall fun _ => rfl) ?_
    simp only [if_neg hdeep]
    have hexpression := Parse.composable_runs.expressionWith hruns bound
    have hprefixed := Parse.composable_runs.prefixed hruns (Parse.composable_runs.primaryWith hexpression)
    have hlimit : ∀ n ∈ b'.depth, d + 1 ≤ n := fun n hn => Nat.le_trans (by omega) (hb'.depth n hn)
    refine agrees_deeper (.of_succ ?_) hprefixed hlimit t hnext hdepth hend
    simp only [prefixed]
    refine agrees_of_peek fun t => ?_
    cases hop : UnaryOp.ofToken? t.kind with
    | some op =>
      refine (AgreesAt.skip (Parse.ne_end_of_some rfl hop) (Agrees.bind (hunary b' ?_) hruns hconsumes
        fun operand => agrees_lift (pure _))).mono (Nat.le_succ bound)
      exact hb'.mono (Nat.le_refl _) (by omega)
    | none =>
      refine agrees_primary (agrees_expression hunary (hb'.mono (Nat.le_refl _) (by omega))) hexpression
        ?_ t
      exact (Parse.consumes_expressionWith (Parse.consumes_unaryWithin bound room) bound).mono
        (Nat.zero_le 1)

/-! ### Statements -/

variable {b : Budget}

theorem agrees_statement (hb : b.Allows (maxNesting + 1) (4 * maxNesting + 1) maxNesting 31) (bound : Nat) :
    Agrees bound 0 (fun steps => (statement steps b : OpenEnded τ Stmt)) (Parse.statementWithin bound) := by
  have hexpression : Agrees bound 0 (fun steps => (expression steps b : OpenEnded τ Expr))
      (Parse.expressionWithin bound) := by
    intro t p hnext hdepth hend
    have hroom : Parse.expressionWithin bound p =
        Parse.expressionWith (Parse.unaryWithin bound (maxNesting - p.depth)) bound p := rfl
    rw [hroom, hdepth]
    exact agrees_expression (fun b hb => agrees_unary bound maxNesting rfl hb) hb t hnext hdepth hend
  have hevaluation : Agrees bound 0 (fun steps => (do
      let expr ← expression steps b
      lift (Parse.skipExpected .semicolon)
      return .eval expr : OpenEnded τ Stmt)) (Parse.evaluationWithin bound) :=
    hexpression.bind_lift fun expr q => bind_eq_some rfl fun _ _ => rfl
  refine Agrees.bind (agrees_lift _) (Parse.plays_record (.inr rfl)).runs (Parse.consumes_record _)
    fun _ => agrees_of_peek fun t => ?_
  cases hk : t.kind with
  | kwLet => exact agrees_lift Parse.varDecl t
  | kwVar => exact agrees_lift Parse.varDecl t
  | kwWhile => exact agrees_lift Parse.loop t
  | identifier => exact hevaluation t
  | kwIf => exact hevaluation t
  | integerLiteral => exact hevaluation t
  | floatLiteral => exact hevaluation t
  | stringLiteral => exact hevaluation t
  | leftParen => exact hevaluation t
  | rightParen => exact hevaluation t
  | plus => exact hevaluation t
  | minus => exact hevaluation t
  | _ => exact agrees_lift (Parse.unexpected t) t

/-- The loop over statements, by induction on how many tokens can still come. -/
theorem agrees_statements (hb : b.Allows (maxNesting + 1) (4 * maxNesting + 1) maxNesting 31) (bound : Nat) :
    Agrees bound 0 (fun steps => (statements steps b : OpenEnded τ (List Stmt)))
      (Parse.statementsWithin bound) := by
  induction bound with
  | zero =>
    refine .of_succ ?_
    simp only [statements]
    refine agrees_of_peek fun t => ?_
    by_cases hk : t.kind = .endOfFile
    · simp only [if_pos hk]
      exact agrees_lift (pure []) t
    · exact agreesAt_zero hk _ _
  | succ bound ih =>
    refine .of_succ ?_
    simp only [statements]
    refine agrees_of_peek fun t => ?_
    by_cases hk : t.kind = .endOfFile
    · simp only [if_pos hk]
      exact agrees_lift (pure []) t
    · simp only [if_neg hk]
      refine AgreesAt.bind (k := 1) (agrees_statement hb (bound + 1) t) ?_ ?_ fun first => ?_
      · exact Parse.composable_runs.statementWithin Parse.runs_varDecl _
      · exact (Parse.consumes_statementWithin _).mono (by decide)
      · exact ih.bind_lift fun rest q => rfl

/-- Within its budget, a program is read as it is by the procedures with bounds. -/
theorem program_comesTo (hb : b.Allows (maxNesting + 1) (4 * maxNesting + 1) maxNesting 31) {p : Parser τ}
    (hdepth : p.depth = 0) : ComesTo (fun steps => program steps b) p (Parse.program p) := by
  let q : Parser τ := (Parse.openScope (p.recorded .parsingProgram)).2
  obtain ⟨body, eof, -, hend⟩ := Lookahead.readAll_spec q.tokens
  have hstatements : ComesTo (fun steps => statements steps b) q (Parse.statements q) :=
    agrees_statements hb q.tokens.tokensLeft _ rfl hdepth ⟨body, eof, hend, hend.length_le⟩
  obtain ⟨enough, hsame⟩ := hstatements
  refine ⟨enough, fun steps hle => ?_⟩
  have hbody : attempt (statements steps b) q = some (Parse.attempt Parse.statements q) := by
    rw [attempt, show statements steps b q = _ from hsame steps hle]
    rfl
  dsimp only
  rw [program, record_bind, bind_ok (r := lift Parse.openScope) rfl, Parse.program,
    Parse.bind_ok (m := Parse.record .parsingProgram) rfl, Parse.bind_ok (m := Parse.openScope) rfl]
  refine bind_eq_some hbody fun body q => bind_eq_some rfl fun _ q => ?_
  cases body with
  | some body => rfl
  | none => rfl

end OpenEnded

end SwiftDialect
