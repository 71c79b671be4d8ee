import SwiftDialect.Proofs.RoundTrip
import SwiftDialect.Proofs.Yield

/-!
# How high trees grow

The limit on nesting counts parentheses and prefix operators. The loop over operators is not counted: each of
its turns puts what was read so far on the left of one more operator, so that operators of one power in a row
make a *chain*, which grows with the source. Apart from such chains a tree grows no higher than the limit and
the powers allow.

Main statement: the height of an expression is at most three times the limit for each operator of its longest
chain, and no less is enough for any length of the chain (`height_le_of_longestChain`).
-/

namespace SwiftDialect

namespace Expr

/-! ### Height and chains -/

/-- How many nodes lie on the longest way from the root to a leaf. -/
def height : Expr → Nat
  | .unary _ e _ => e.height + 1
  | .binary _ l r => max l.height r.height + 1
  | .ifThen c t _ => max c.height t.height + 1
  | .ifThenElse c t e _ => max c.height (max t.height e.height) + 1
  | _ => 1

/-- The power of the outermost operator, if it stands between two operands. -/
def power? : Expr → Option Nat
  | .binary op _ _ => some op.power
  | _ => none

/-- How many operators of one power there are in a row, each the left operand of the one before it. -/
def chain : Expr → Nat
  | .binary op l _ => (if l.power? = some op.power then l.chain else 0) + 1
  | _ => 0

/-- The most operators that a chain in the expression has; one, if there is no chain. -/
def longestChain : Expr → Nat
  | .unary _ e _ => e.longestChain
  | .binary op l r => max (binary op l r).chain (max l.longestChain r.longestChain)
  | .ifThen c t _ => max c.longestChain t.longestChain
  | .ifThenElse c t e _ => max c.longestChain (max t.longestChain e.longestChain)
  | _ => 1

/-- No operator has one of its own power at the root of its left operand. -/
def Chainless (e : Expr) : Prop :=
  ∀ op l r, .binary op l r ∈ e.parts → l.power? ≠ some op.power

/-- How many steps lead from the root to the deepest leaf, if those along a chain do not count. -/
def steps : Expr → Nat
  | .unary _ e _ => e.steps + 1
  | .binary op l r => max (if l.power? = some op.power then l.steps else l.steps + 1) (r.steps + 1)
  | .ifThen c t _ => max c.steps t.steps + 1
  | .ifThenElse c t e _ => max c.steps (max t.steps e.steps) + 1
  | _ => 0

theorem one_le_longestChain (e : Expr) : 1 ≤ e.longestChain := by
  induction e with
  | unary op e l ih => exact ih
  | binary op l r ihl _ => exact Nat.le_trans ihl (Nat.le_trans (Nat.le_max_left _ _) (Nat.le_max_right _ _))
  | ifThen c t l ihc _ => exact Nat.le_trans ihc (Nat.le_max_left _ _)
  | ifThenElse c t e l ihc _ _ => exact Nat.le_trans ihc (Nat.le_max_left _ _)
  | _ => exact Nat.le_refl 1

theorem Chainless.of_subset {e x : Expr} (h : e.Chainless) (hsub : x.parts ⊆ e.parts) : x.Chainless :=
  fun op l r hmem => h op l r (hsub hmem)

theorem longestChain_of_chainless {e : Expr} (h : e.Chainless) : e.longestChain = 1 := by
  induction e with
  | unary op e l ih => exact ih (h.of_subset (List.subset_cons_self _ _))
  | binary op l r ihl ihr =>
    have hsub : l.parts ++ r.parts ⊆ (binary op l r).parts := List.subset_cons_self _ _
    obtain ⟨hl, hr⟩ := List.append_subset.1 hsub
    rw [longestChain, chain, if_neg (h op l r List.mem_cons_self), ihl (h.of_subset hl),
      ihr (h.of_subset hr)]
    rfl
  | ifThen c t l ihc iht =>
    have hsub : c.parts ++ t.parts ⊆ (ifThen c t l).parts := List.subset_cons_self _ _
    obtain ⟨hc, ht⟩ := List.append_subset.1 hsub
    rw [longestChain, ihc (h.of_subset hc), iht (h.of_subset ht)]
    rfl
  | ifThenElse c t e l ihc iht ihe =>
    have hsub : c.parts ++ (t.parts ++ e.parts) ⊆ (ifThenElse c t e l).parts := List.subset_cons_self _ _
    obtain ⟨hc, hlater⟩ := List.append_subset.1 hsub
    obtain ⟨ht, he⟩ := List.append_subset.1 hlater
    rw [longestChain, ihc (h.of_subset hc), iht (h.of_subset ht), ihe (h.of_subset he)]
    rfl
  | _ => rfl

/-- One counted step pays for a whole chain. -/
theorem add_le_of_step {n h s s' : Nat} (hh : h ≤ n * s + 1) (hs : s + 1 ≤ s') : h + n ≤ n * s' + 1 := by
  have hmul := Nat.mul_le_mul_left n hs
  rw [Nat.mul_succ] at hmul
  omega

/-- The height counts all steps. Below an operator, so much of its chain as comes after it is still to be
paid for: this is what the induction carries. -/
theorem height_le_of_le {n : Nat} (e : Expr) (h : e.longestChain ≤ n) :
    e.height ≤ n * e.steps + 1 ∧
      ∀ power, e.power? = some power → e.height + n ≤ n * e.steps + e.chain + 1 := by
  have hn : 1 ≤ n := Nat.le_trans e.one_le_longestChain h
  induction e with
  | unary op e l ih =>
    have hstep := add_le_of_step (ih h).1 (Nat.le_refl _)
    refine ⟨?_, fun power hpower => by cases hpower⟩
    simp only [height, steps]
    omega
  | binary op l r ihl ihr =>
    simp only [longestChain, Nat.max_le] at h
    obtain ⟨hchain, hl, hr⟩ := h
    have hstep := add_le_of_step (ihr hr).1 (Nat.le_refl _)
    have hright := Nat.mul_le_mul_left n (Nat.le_max_right
      (if l.power? = some op.power then l.steps else l.steps + 1) (r.steps + 1))
    have hleft := Nat.mul_le_mul_left n (Nat.le_max_left
      (if l.power? = some op.power then l.steps else l.steps + 1) (r.steps + 1))
    have hall : (binary op l r).height + n ≤ n * (binary op l r).steps + (binary op l r).chain + 1 := by
      simp only [height, steps, chain]
      -- an operator of the same power goes on with the chain; another one takes a step
      by_cases hpower : l.power? = some op.power
      · have hlower := (ihl hl).2 _ hpower
        simp only [if_pos hpower] at hleft hright ⊢
        omega
      · have hlower := add_le_of_step (ihl hl).1 (Nat.le_refl _)
        simp only [if_neg hpower] at hleft hright ⊢
        omega
    exact ⟨by omega, fun _ _ => hall⟩
  | ifThen c t l ihc iht =>
    simp only [longestChain, Nat.max_le] at h
    have hc : c.height + n ≤ n * (max c.steps t.steps + 1) + 1 := add_le_of_step (ihc h.1).1 (by omega)
    have ht : t.height + n ≤ n * (max c.steps t.steps + 1) + 1 := add_le_of_step (iht h.2).1 (by omega)
    refine ⟨?_, fun power hpower => by cases hpower⟩
    simp only [height, steps]
    omega
  | ifThenElse c t e l ihc iht ihe =>
    simp only [longestChain, Nat.max_le] at h
    have hc : c.height + n ≤ n * (max c.steps (max t.steps e.steps) + 1) + 1 :=
      add_le_of_step (ihc h.1).1 (by omega)
    have ht : t.height + n ≤ n * (max c.steps (max t.steps e.steps) + 1) + 1 :=
      add_le_of_step (iht h.2.1).1 (by omega)
    have he : e.height + n ≤ n * (max c.steps (max t.steps e.steps) + 1) + 1 :=
      add_le_of_step (ihe h.2.2).1 (by omega)
    refine ⟨?_, fun power hpower => by cases hpower⟩
    simp only [height, steps]
    omega
  | _ => exact ⟨Nat.le_add_left _ _, fun power hpower => by cases hpower⟩

/-- Each counted step is at most one chain long. -/
theorem height_le (e : Expr) : e.height ≤ e.longestChain * e.steps + 1 :=
  (height_le_of_le e (Nat.le_refl _)).1

/-- Nothing in an expression needs more steps than the whole. -/
theorem steps_le_of_mem_parts {e : Expr} : ∀ x ∈ e.parts, x.steps ≤ e.steps := by
  induction e with
  | unary op e l ih =>
    rintro x (_ | ⟨_, hx⟩)
    · exact Nat.le_refl _
    · exact Nat.le_succ_of_le (ih x hx)
  | binary op l r ihl ihr =>
    rintro x (_ | ⟨_, hx⟩)
    · exact Nat.le_refl _
    · simp only [steps]
      rcases List.mem_append.1 hx with hx | hx
      · have := ihl x hx
        split <;> omega
      · have := ihr x hx
        omega
  | ifThen c t l ihc iht =>
    rintro x (_ | ⟨_, hx⟩)
    · exact Nat.le_refl _
    · simp only [steps]
      rcases List.mem_append.1 hx with hx | hx
      · have := ihc x hx
        omega
      · have := iht x hx
        omega
  | ifThenElse c t e l ihc iht ihe =>
    rintro x (_ | ⟨_, hx⟩)
    · exact Nat.le_refl _
    · simp only [steps]
      rcases List.mem_append.1 hx with hx | hx
      · have := ihc x hx
        omega
      · rcases List.mem_append.1 hx with hx | hx
        · have := iht x hx
          omega
        · have := ihe x hx
          omega
  | _ =>
    intro x hx
    rw [List.mem_singleton.1 hx]

end Expr

/-! ### What the limit allows -/

theorem levelsFrom_anti {m n : Nat} (h : m ≤ n) : levelsFrom n ≤ levelsFrom m := by
  unfold levelsFrom
  grind

namespace Spine

/-- A left operand that does not continue the chain binds more tightly. -/
theorem Climbs.succ {s : Spine} {power : Nat} (h : s.Climbs power) (hne : s.value.power? ≠ some power) :
    s.Climbs (power + 1) := by
  cases s with
  | operand o => trivial
  | node lhs token op rhs =>
    obtain ⟨htok, hpow, hl, hr⟩ := h
    exact ⟨htok, Nat.lt_of_le_of_ne hpow fun heq => hne (congrArg some heq.symm), hl, hr⟩

/-- Each power that operators can still have takes a step, besides those of the operands. -/
theorem steps_value {k n : Nat} (s : Spine) : ∀ {min : Nat}, s.Climbs min →
    s.All (fun o => o.value.steps + k ≤ n) → s.value.steps + k < n + levelsFrom min := by
  induction s with
  | operand o =>
    intro min _ h
    exact Nat.lt_of_le_of_lt h (Nat.lt_add_of_pos_right (levelsFrom_pos min))
  | node lhs token op rhs ihl ihr =>
    rintro min ⟨-, hpow, hl, hr⟩ ⟨halll, hallr⟩
    have hlt := levelsFrom_lt hpow
    have hright := ihr hr hallr
    simp only [value, Expr.steps]
    -- an operator of another power on the left binds more tightly, so one power fewer is left to it
    by_cases hpower : lhs.value.power? = some op.power
    · have hleft := ihl hl halll
      have hanti := levelsFrom_anti hpow
      rw [if_pos hpower]
      omega
    · have hleft := ihl (hl.succ hpower) halll
      rw [if_neg hpower]
      omega

end Spine

theorem steps_of_leafValue {scopes : Scopes} {t : Token} {v : Expr} (h : leafValue? scopes t = some v) :
    v.steps = 0 := by
  unfold leafValue? at h
  split at h
  · obtain ⟨n, -, rfl⟩ := Option.map_eq_some_iff.1 h
    rfl
  · obtain ⟨x, -, rfl⟩ := Option.map_eq_some_iff.1 h
    rfl
  · obtain rfl := Option.some.inj h
    rfl
  · obtain ⟨symbol, -, rfl⟩ := Option.map_eq_some_iff.1 h
    rfl
  · cases h

/-- A level of nesting allows three steps, one for each power. -/
theorem Tree.steps_operands {scopes : Scopes} {f : Phrase} (t : Tree f) : ∀ {room : Nat},
    t.Fits scopes room → (t.spine scopes).Climbs 0 ∧
      (t.spine scopes).All (fun o => o.value.steps + 3 ≤ 3 * room) := by
  have hlevels : levelsFrom 0 = 4 := rfl
  induction t with
  | leaf t =>
    rintro room ⟨hroom, hv⟩
    obtain ⟨v, hv⟩ := Option.isSome_iff_exists.1 hv
    rw [spine, hv]
    refine ⟨trivial, ?_⟩
    change v.steps + 3 ≤ 3 * room
    rw [steps_of_leafValue hv]
    omega
  | sign t e ih =>
    rintro room ⟨hroom, he⟩
    obtain ⟨-, hall⟩ := ih he
    rw [spine_unary] at hall
    refine ⟨trivial, ?_⟩
    change (e.spine scopes).value.steps + 3 ≤ 3 * (room - 1) at hall
    change (e.spine scopes).value.steps + 1 + 3 ≤ 3 * room
    omega
  | group l e r ih =>
    rintro room ⟨hroom, he⟩
    obtain ⟨hcl, hall⟩ := ih he
    -- inside the parentheses each of the three powers may take a step
    have hinner := Spine.steps_value _ hcl hall
    refine ⟨trivial, ?_⟩
    change (e.spine scopes).value.steps + 3 ≤ 3 * room
    omega
  | single e ih => exact ih
  | chain l op r ihl ihr =>
    rintro room ⟨hl, hr⟩
    obtain ⟨hcl, hall⟩ := ihl hl
    have hallr := (ihr hr).2
    rw [spine_unary] at hallr
    exact ⟨Spine.climbs_extend _ _ _ (operator_of_mem op.2) hcl (Nat.zero_le _),
      Spine.all_extend _ _ _ hall hallr⟩

theorem Tree.steps_value {scopes : Scopes} {f : Phrase} {t : Tree f} {room : Nat}
    (h : t.Fits scopes room) : (t.value scopes).steps ≤ 3 * room := by
  obtain ⟨hcl, hall⟩ := t.steps_operands h
  have hvalue := Spine.steps_value _ hcl hall
  have hlevels : levelsFrom 0 = 4 := rfl
  change (t.spine scopes).value.steps ≤ 3 * room
  omega

/-- No expression of a program needs more steps than the limit allows. -/
theorem Sentence.steps_of_mem_parts (ss : List Sentence) : ∀ {scopes : Scopes}, AllFit scopes ss →
    ∀ x ∈ Stmt.allParts (stmts scopes ss), x.steps ≤ 3 * maxNesting := by
  induction ss with
  | nil => exact fun _ x hx => absurd hx List.not_mem_nil
  | cons s ss ih =>
    rintro scopes ⟨hs, hss⟩ x hx
    rcases List.mem_append.1 hx with hx | hx
    · cases s with
      | declaration intro ident colon type semicolon => exact absurd hx List.not_mem_nil
      | evaluation e semicolon => exact Nat.le_trans (Expr.steps_le_of_mem_parts x hx) (Tree.steps_value hs)
    · exact ih hss x hx

/-! ### Sources that reach it -/

namespace Expr

/-- The number one, without a place. -/
def one : Expr := .integer 1 default

/-- One and `x` with the operator between them, and then so many more operators with ones. -/
def row (op : BinaryOp) (x : Expr) : Nat → Expr
  | 0 => .binary op one x
  | n + 1 => .binary op (row op x n) one

/-- Rows of each power, each on the right of the first operator of the one before, and so on in each
parenthesis. -/
def tower (n : Nat) : Nat → Expr
  | 0 => one
  | k + 1 => row .lt (row .add (row .mul (tower n k) n) n) n

variable {op : BinaryOp} {x : Expr}

theorem power?_row (n : Nat) : (row op x n).power? = some op.power := by
  cases n <;> rfl

theorem looserThan_row (power n : Nat) : (row op x n).looserThan power = decide (op.power < power) := by
  cases n <;> rfl

theorem height_pos (e : Expr) : 1 ≤ e.height := by
  cases e <;> exact Nat.le_add_left _ _

theorem height_row (n : Nat) : (row op x n).height = x.height + (n + 1) := by
  have hx := x.height_pos
  induction n with
  | zero =>
    simp only [row, one, height]
    omega
  | succ n ih =>
    simp only [row, one, height] at ih ⊢
    omega

theorem chain_row (n : Nat) : (row op x n).chain = n + 1 := by
  induction n with
  | zero => rfl
  | succ n ih => rw [row, chain, if_pos (power?_row n), ih]

theorem longestChain_row (n : Nat) : (row op x n).longestChain = max (n + 1) x.longestChain := by
  have hx := x.one_le_longestChain
  induction n with
  | zero =>
    change max (row op x 0).chain (max 1 x.longestChain) = _
    rw [chain_row]
    omega
  | succ n ih =>
    change max (row op x (n + 1)).chain (max (row op x n).longestChain 1) = _
    rw [chain_row, ih]
    omega

theorem nesting_row (n : Nat) :
    (row op x n).nesting = x.nesting + (x.looserThan (op.power + 1)).toNat := by
  induction n with
  | zero => exact Nat.zero_max _
  | succ n ih =>
    rw [row, nesting, ih, looserThan_row, decide_eq_false (Nat.lt_irrefl _)]
    exact Nat.max_zero _

theorem printable_one : one.Printable [] :=
  ⟨by decide, by decide⟩

theorem printable_row (hop : op ≠ .eq) (hx : x.Printable []) (n : Nat) : (row op x n).Printable [] := by
  induction n with
  | zero => exact ⟨hop, printable_one, hx⟩
  | succ n ih => exact ⟨hop, ih, printable_one⟩

variable (n : Nat)

theorem height_tower (k : Nat) : (tower n k).height = 3 * k * (n + 1) + 1 := by
  induction k with
  | zero => rw [Nat.mul_zero, Nat.zero_mul]; rfl
  | succ k ih =>
    have hlevel : 3 * (k + 1) * (n + 1) = 3 * k * (n + 1) + 3 * (n + 1) := by
      rw [Nat.mul_succ 3 k, Nat.add_mul]
    rw [tower, height_row, height_row, height_row, ih, hlevel]
    omega

theorem longestChain_tower (k : Nat) : (tower n (k + 1)).longestChain = n + 1 := by
  induction k with
  | zero =>
    have hone : (tower n 0).longestChain = 1 := rfl
    rw [tower, longestChain_row, longestChain_row, longestChain_row, hone]
    omega
  | succ k ih =>
    rw [tower, longestChain_row, longestChain_row, longestChain_row, ih]
    omega

theorem nesting_tower (k : Nat) : (tower n (k + 1)).nesting = k := by
  induction k with
  | zero => rw [tower, nesting_row, nesting_row, nesting_row, looserThan_row, looserThan_row]; rfl
  | succ k ih =>
    rw [tower, nesting_row, nesting_row, nesting_row, ih, looserThan_row, looserThan_row, tower,
      looserThan_row]
    rfl

theorem printable_tower (k : Nat) : (tower n k).Printable [] := by
  induction k with
  | zero => exact printable_one
  | succ k ih =>
    exact printable_row (by decide) (printable_row (by decide) (printable_row (by decide) ih n) n) n

/-! ### Places do not matter -/

theorem power?_erase (e : Expr) : e.erase.power? = e.power? := by
  cases e <;> rfl

theorem height_erase (e : Expr) : e.erase.height = e.height := by
  induction e <;> simp_all [erase, height]

theorem chain_erase (e : Expr) : e.erase.chain = e.chain := by
  induction e <;> simp_all [erase, chain, power?_erase]

theorem longestChain_erase (e : Expr) : e.erase.longestChain = e.longestChain := by
  induction e with
  | binary op l r ihl ihr =>
    have hchain := chain_erase (.binary op l r)
    rw [erase] at hchain ⊢
    rw [longestChain, longestChain, hchain, ihl, ihr]
  | _ => simp_all [erase, longestChain]

end Expr

theorem Stmt.eq_of_eraseAll {body : List Stmt} {e : Expr} (h : Stmt.eraseAll body = [.eval e]) :
    ∃ e', body = [.eval e'] ∧ e'.erase = e := by
  cases body with
  | nil => rw [Stmt.eraseAll] at h; cases h
  | cons s rest =>
    rw [Stmt.eraseAll] at h
    obtain ⟨hs, hrest⟩ := List.cons.inj h
    cases rest with
    | cons s' rest => rw [Stmt.eraseAll] at hrest; cases hrest
    | nil =>
      cases s with
      | eval e' => rw [Stmt.erase] at hs; exact ⟨e', rfl, Stmt.eval.inj hs⟩
      | declare d => rw [Stmt.erase] at hs; cases hs
      | loop c body l => rw [Stmt.erase] at hs; cases hs

/-- An expression that is written down is read as one statement. -/
theorem exists_parsed_of_written {e : Expr} (he : e.Printable []) (hnesting : e.nesting ≤ 127)
    {text : String} (htext : text.toList = Lexeme.written (e.lexemes ++ [⟨.semicolon, ""⟩])) (name : String)
    (tabWidth : Nat) :
    ∃ e', (parseText name text tabWidth).program = some ⟨[.eval e']⟩ ∧ e'.height = e.height ∧
      e'.longestChain = e.longestChain := by
  have hprintable : Program.Printable ⟨[.eval e]⟩ := by
    rintro (_ | ⟨a, before⟩) s after heq
    · obtain ⟨rfl, -⟩ := List.cons.inj heq
      exact ⟨he, hnesting⟩
    · have hlength := congrArg List.length heq
      simp at hlength
  have hread := (Analysis.parse_written hprintable name tabWidth
    (Journal.empty.record (.parsingText name text.utf8ByteSize))).1
  rw [List.flatMap_singleton, Stmt.lexemes, ← htext] at hread
  obtain ⟨⟨body⟩, hprogram, herase⟩ := Option.map_eq_some_iff.1 hread
  have hbody : Stmt.eraseAll body = [.eval e.erase] := congrArg Program.body herase
  obtain ⟨e', rfl, hsame⟩ := Stmt.eq_of_eraseAll hbody
  refine ⟨e', hprogram, ?_, ?_⟩
  · rw [← e'.height_erase, hsame, e.height_erase]
  · rw [← e'.longestChain_erase, hsame, e.longestChain_erase]

/-! ### The bound -/

/-- Each expression of a program is at most three steps high for each level of nesting and each operator of
its longest chain, and so at most four times the limit if no operator has one of its own power at the root of
its left operand. Nothing less is enough, whatever the length of the chain, so that there is no bound for all
sources. -/
theorem height_le_of_longestChain :
    (∀ (name text : String) (tabWidth : Nat) (program : Program),
      (parseText name text tabWidth).program = some program → ∀ e ∈ Stmt.allParts program.body,
        e.height ≤ 3 * maxNesting * e.longestChain + 1 ∧ e.height ≤ 4 * maxNesting * e.longestChain ∧
          (e.Chainless → e.height ≤ 4 * maxNesting)) ∧
    ∀ n, ∃ text, ∀ (name : String) (tabWidth : Nat), ∃ e,
      (parseText name text tabWidth).program = some ⟨[.eval e]⟩ ∧ e.longestChain = n + 1 ∧
        e.height = 3 * maxNesting * e.longestChain + 1 := by
  refine ⟨fun name text tabWidth program hprogram e he => ?_, fun n => ?_⟩
  · obtain ⟨segments, hseg⟩ := exists_segmentation text.toList
    rcases parseText_heard name tabWidth hseg with
      ⟨ss, last, p, -, -, hfit, hread, -⟩ |
      ⟨ss, last, final, rest, used, bad, pr, moves, -, -, -, -, hread, -⟩
    · obtain rfl := Option.some.inj (hread.symm.trans hprogram)
      have hsteps := Nat.mul_le_mul_left e.longestChain (Sentence.steps_of_mem_parts ss hfit e he)
      have hheight := e.height_le
      have hchain := e.one_le_longestChain
      rw [Nat.mul_comm _ (3 * maxNesting)] at hsteps
      have hfour : e.height ≤ 4 * maxNesting * e.longestChain := by
        simp only [maxNesting] at hsteps ⊢
        omega
      refine ⟨by omega, hfour, fun hchainless => ?_⟩
      rwa [Expr.longestChain_of_chainless hchainless, Nat.mul_one] at hfour
    · rw [hread] at hprogram
      cases hprogram
  · -- a tower has chains of this length in all three powers at every level of nesting
    let e := Expr.tower n maxNesting
    refine ⟨String.ofList (Lexeme.written (e.lexemes ++ [⟨.semicolon, ""⟩])), fun name tabWidth => ?_⟩
    obtain ⟨e', hread, hheight, hchain⟩ := exists_parsed_of_written (Expr.printable_tower n maxNesting)
      (Nat.le_of_eq (Expr.nesting_tower n 127)) String.toList_ofList name tabWidth
    have hlongest : e'.longestChain = n + 1 := hchain.trans (Expr.longestChain_tower n 127)
    refine ⟨e', hread, hlongest, ?_⟩
    rw [hlongest, hheight, Expr.height_tower]

/-- A chain of two, next to operators that are not in it; the difference in the chain has none itself. -/
theorem height_le_of_two_differences :
    ∃ program, (parseText "unit" "1 < -(2 - 3 - 4) * 5;" 8).program = some program ∧
      (∀ e ∈ Stmt.allParts program.body,
        e.height ≤ 3 * maxNesting * e.longestChain + 1 ∧ e.height ≤ 4 * maxNesting * e.longestChain) ∧
      ∃ e ∈ Stmt.allParts program.body, e.longestChain = 1 ∧ e.Chainless ∧ e.height ≤ 4 * maxNesting := by
  obtain ⟨program, hprogram⟩ : ∃ program,
      (parseText "unit" "1 < -(2 - 3 - 4) * 5;" 8).program = some program :=
    Option.isSome_iff_exists.1 (by decide +kernel)
  have hbound := height_le_of_longestChain.1 _ _ _ program hprogram
  let e : Expr := .binary .sub (.integer 2 ⟨7⟩) (.integer 3 ⟨11⟩)
  have he : e ∈ Stmt.allParts program.body := by
    have hall : ∀ program, (parseText "unit" "1 < -(2 - 3 - 4) * 5;" 8).program = some program →
        e ∈ Stmt.allParts program.body := by decide +kernel
    exact hall program hprogram
  have hchainless : e.Chainless := by
    intro op l r hmem
    obtain ⟨-, rfl, -⟩ : op = .sub ∧ l = .integer 2 ⟨7⟩ ∧ r = .integer 3 ⟨11⟩ := by
      simpa [e, Expr.parts] using hmem
    exact nofun
  exact ⟨program, hprogram, fun e he => ⟨(hbound e he).1, (hbound e he).2.1⟩, e, he, rfl, hchainless,
    (hbound e he).2.2 hchainless⟩

/-- The lexemes of `1 + 1 + … + 1`. -/
theorem Expr.lexemes_sum (n : Nat) : (row .add one n).lexemes =
    ⟨.integerLiteral, "1"⟩ :: (List.replicate (n + 1) [⟨.plus, ""⟩, ⟨.integerLiteral, "1"⟩]).flatten := by
  induction n with
  | zero => rfl
  | succ n ih =>
    have hlast : (row .add one (n + 1)).lexemes =
        (row .add one n).lexemes ++ [⟨.plus, ""⟩, ⟨.integerLiteral, "1"⟩] := by
      rw [row, lexemes, looserThan_row, decide_eq_false (Nat.lt_irrefl _)]
      rfl
    rw [hlast, ih, List.cons_append, ← List.flatten_concat, ← List.replicate_succ']

theorem Lexeme.trail_sum (n : Nat) : Lexeme.trail
    ((List.replicate n [⟨.plus, ""⟩, ⟨.integerLiteral, "1"⟩]).flatten ++ [⟨.semicolon, ""⟩]) =
      (List.replicate n [' ', '+', ' ', '1']).flatten ++ [' ', ';'] := by
  induction n with
  | zero => rfl
  | succ n ih =>
    rw [List.replicate_succ, List.replicate_succ, List.flatten_cons, List.flatten_cons, List.append_assoc,
      List.append_assoc, ← ih]
    rw [List.cons_append, Lexeme.trail, Lexeme.written_cons]
    rw [List.cons_append, Lexeme.trail, Lexeme.written_cons]
    rfl

/-- A sum of so many ones, `1 + 1 + … + 1 ;`, is higher than four times the limit, with nothing nested in
it. -/
theorem height_of_long_sum :
    ∃ e, (parseText "t.swift" (String.ofList
        ('1' :: ((List.replicate 512 [' ', '+', ' ', '1']).flatten ++ [' ', ';']))) 8).program =
          some ⟨[.eval e]⟩ ∧
      4 * maxNesting < e.height := by
  have hwritten : '1' :: ((List.replicate 512 [' ', '+', ' ', '1']).flatten ++ [' ', ';']) =
      Lexeme.written ((Expr.row .add .one 511).lexemes ++ [⟨.semicolon, ""⟩]) := by
    rw [Expr.lexemes_sum, List.cons_append, Lexeme.written_cons, Lexeme.trail_sum]
    rfl
  obtain ⟨e, hread, hheight, -⟩ := exists_parsed_of_written
    (Expr.printable_row (by decide) Expr.printable_one 511) (by rw [Expr.nesting_row]; decide)
    (String.toList_ofList.trans hwritten) "t.swift" 8
  refine ⟨e, hread, ?_⟩
  rw [hheight, Expr.height_row]
  decide

end SwiftDialect
