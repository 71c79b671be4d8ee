import Mathlib.Data.List.DropRight
import SwiftDialect.Proofs.Hearing

/-!
# What names refer to

The scopes of the parser hold, for each name, the latest declaration among the statements read so far.
So a name refers to the latest declaration before its own statement, a declaration is warned of if there
is an earlier one of its name, and a name without a declaration is rejected where it stands.
-/

namespace SwiftDialect

/-! ### The names in a statement -/

/-- The names in an expression, each with the declaration that it carries. -/
def Expr.names : Expr → List (String × Option Declaration)
  | .name x d _ => [(x, d)]
  | .binary _ l r => l.names ++ r.names
  | .unary _ e _ => e.names
  | .ifThen c t _ => c.names ++ t.names
  | .ifThenElse c t e _ => c.names ++ (t.names ++ e.names)
  | .integer .. | .float .. | .string .. => []

mutual

/-- The names in a statement, each with the declaration that it carries. -/
def Stmt.names : Stmt → List (String × Option Declaration)
  | .declare _ => []
  | .eval e => e.names
  | .loop c body _ => c.names ++ Stmt.allNames body

/-- The names in some statements. -/
def Stmt.allNames : List Stmt → List (String × Option Declaration)
  | [] => []
  | s :: ss => s.names ++ Stmt.allNames ss

end

/-- Grouping the operators moves no name. -/
theorem Spine.names_extend (token : Token) (op : BinaryOp) (o : Operand) (s : Spine) :
    (s.extend token op o).value.names = s.value.names ++ o.value.names := by
  induction s with
  | operand first => rfl
  | node lhs token' op' rhs _ ihr =>
    rw [extend]
    split
    · simp [value, Expr.names, ihr]
    · rfl

theorem names_of_leafValue {scopes : Scopes} {t : Token} {v : Expr} (h : leafValue? scopes t = some v) :
    ∀ n ∈ v.names, ∃ symbol, scopes.resolve n.1 = some symbol ∧ n.2 = symbol.declaration := by
  unfold leafValue? at h
  split at h
  · obtain ⟨k, -, rfl⟩ := Option.map_eq_some_iff.1 h
    simp [Expr.names]
  · obtain ⟨x, -, rfl⟩ := Option.map_eq_some_iff.1 h
    simp [Expr.names]
  · obtain rfl := Option.some.inj h
    simp [Expr.names]
  · obtain ⟨symbol, hsymbol, rfl⟩ := Option.map_eq_some_iff.1 h
    simp [Expr.names, hsymbol]
  · cases h

/-- The names of a tree carry what they resolve to. -/
theorem Tree.names_value {scopes : Scopes} {f : Phrase} (t : Tree f) : ∀ {room : Nat},
    t.Fits scopes room → ∀ n ∈ (t.value scopes).names,
      ∃ symbol, scopes.resolve n.1 = some symbol ∧ n.2 = symbol.declaration := by
  induction t with
  | leaf t =>
    intro room h
    obtain ⟨v, hv⟩ := Option.isSome_iff_exists.1 h.2
    have hvalue : value scopes (.leaf t) = v := by
      simp [value, spine, Spine.value, Operand.leaf, hv]
    rw [hvalue]
    exact names_of_leafValue hv
  | sign t e ih => exact fun h => ih h.2
  | group l e r ih => exact fun h => ih h.2
  | single e ih => exact ih
  | chain l op r ihl ihr =>
    intro room h n hn
    rw [value, spine, Spine.names_extend] at hn
    rcases List.mem_append.1 hn with hn | hn
    · exact ihl h.1 n hn
    · exact ihr h.2 n hn

/-! ### What the scopes hold -/

/-- The scopes hold exactly the latest declarations among the statements. -/
structure Scopes.Tracks (scopes : Scopes) (earlier : List Stmt) : Prop where
  isOpen : scopes.mappings ≠ []
  resolve : ∀ x, scopes.resolve x = (latest? earlier x).map fun d => ⟨x, .var, some d.declaration⟩

theorem Scopes.tracks_nil : (Scopes.push {}).Tracks [] :=
  ⟨List.cons_ne_nil _ _, fun _ => rfl⟩

namespace Sentence

/-- One statement. -/
theorem tracks_effect {scopes : Scopes} {earlier : List Stmt} (h : scopes.Tracks earlier) (s : Sentence) :
    (s.effect scopes).Tracks (earlier ++ [s.stmt scopes]) := by
  refine ⟨effect_open h.isOpen s, fun x => ?_⟩
  rw [latest_append]
  cases s with
  | declaration intro ident colon type semicolon =>
    rw [effect, Scopes.resolve_define h.isOpen]
    by_cases hx : ident.1.text = x
    · simp [stmt, Stmt.declared?, hx, VarDecl.declaration]
    · simpa [stmt, Stmt.declared?, Option.filter, hx] using h.resolve x
  | evaluation e semicolon => exact h.resolve x

/-- A statement among others is read in scopes that hold the latest declarations before it. -/
theorem exists_tracks (ss : List Sentence) : ∀ {scopes : Scopes} {earlier before after : List Stmt}
    {s : Stmt}, scopes.Tracks earlier → AllFit scopes ss → stmts scopes ss = before ++ s :: after →
      ∃ (s' : Sentence) (scopes' : Scopes), scopes'.Tracks (earlier ++ before) ∧ s'.Fits scopes' ∧
        s = s'.stmt scopes' := by
  induction ss with
  | nil =>
    intro scopes earlier before after s _ _ heq
    exact absurd heq (by simp [stmts])
  | cons first ss ih =>
    intro scopes earlier before after s h hfit heq
    -- the first statement is the one asked for, or it changes the scopes of those that follow
    cases before with
    | nil =>
      obtain ⟨rfl, -⟩ := List.cons.inj heq
      exact ⟨first, scopes, by simpa using h, hfit.1, rfl⟩
    | cons b before =>
      obtain ⟨rfl, hrest⟩ := List.cons.inj heq
      simpa using ih (tracks_effect h first) hfit.2 hrest

theorem names_stmt {scopes : Scopes} {s : Sentence} (h : s.Fits scopes) :
    ∀ n ∈ (s.stmt scopes).names,
      ∃ symbol, scopes.resolve n.1 = some symbol ∧ n.2 = symbol.declaration := by
  cases s with
  | declaration intro ident colon type semicolon => simp [stmt, Stmt.names]
  | evaluation e semicolon =>
    rw [stmt, Stmt.names]
    exact e.names_value h

end Sentence

/-- The latest declaration of a name stands somewhere, and none stands after it. -/
theorem exists_of_latest {earlier : List Stmt} {x : String} {d : VarDecl}
    (h : latest? earlier x = some d) : ∃ older newer, earlier = older ++ .declare d :: newer ∧
      d.ident = x ∧ ∀ d', .declare d' ∈ newer → d'.ident ≠ x := by
  obtain ⟨newer, s, older, heq, hs, hnone⟩ := List.findSome?_eq_some_iff.1 h
  -- the search runs from the end, so what it passed over comes later in the text
  have hsplit : earlier = older.reverse ++ s :: newer.reverse := by
    rw [← List.reverse_reverse earlier, heq]
    simp
  cases s with
  | declare d₁ =>
    obtain ⟨hd, hx⟩ := Option.filter_eq_some_iff.1 hs
    obtain rfl := Option.some.inj hd
    refine ⟨_, _, hsplit, of_decide_eq_true hx, fun d' hd' => ?_⟩
    simpa [Stmt.declared?, Option.filter] using hnone _ (List.mem_reverse.1 hd')
  | eval e => cases hs
  | loop c body l => cases hs

/-! ### Declarations that repeat a name -/

/-- With one scope open, the innermost scope knows what the scopes resolve. -/
theorem Scopes.knows_eq {scopes : Scopes} {m : Mapping} (h : scopes.mappings = [m]) (x : String) :
    scopes.knows x = (scopes.resolve x).isSome := by
  simp [knows, resolve, h, Mapping.contains]

namespace Sentence

/-- The identifier of a declaration. -/
def ident? : Sentence → Option Token
  | .declaration _ ident .. => some ident.1
  | .evaluation .. => none

/-- The identifiers of the declarations, in order, whose names are declared before them. -/
def repeated (earlier : List Sentence) : List Sentence → List Token
  | [] => []
  | s :: ss => (s.ident?.filter fun t => earlier.any (·.declared? = some t.text)).toList ++
      repeated (earlier ++ [s]) ss

theorem warned_effects (earlier : List Sentence) (s : Sentence) :
    s.warned (effects (Scopes.push {}) earlier) =
      ((s.ident?.filter fun t => earlier.any (·.declared? = some t.text)).toList).map
        fun t => (Problem.redeclaredName t.text).diagnose t.location := by
  obtain ⟨m, hm⟩ := mappings_effects earlier (rfl : (Scopes.push {}).mappings = [{}])
  cases s with
  | declaration intro ident colon type semicolon =>
    have hknows : (effects (Scopes.push {}) earlier).knows ident.1.text =
        earlier.any (·.declared? = some ident.1.text) := by
      rw [Scopes.knows_eq hm, Bool.eq_iff_iff, resolve_fresh, List.any_eq_true]
      simp
    rw [warned, hknows, ident?]
    cases hany : earlier.any (·.declared? = some ident.1.text) <;> simp [Option.filter, hany]
  | evaluation e semicolon => rfl

/-- Apart from what the scanner reports, exactly the repeated names are heard of. -/
theorem filter_heard (ss : List Sentence) : ∀ (earlier : List Sentence) {ps : List Pull},
    (∀ p ∈ ps, ∀ d ∈ p.reports, d.code ≠ "W0021") →
      (heard (effects (Scopes.push {}) earlier) ss ps).filter (·.code = "W0021") =
        (repeated earlier ss).map fun t => (Problem.redeclaredName t.text).diagnose t.location := by
  induction ss with
  | nil => exact fun _ _ _ => rfl
  | cons s ss ih =>
    intro earlier ps hps
    have hscanned : ((ps.take s.tokens.length).flatMap Pull.reports).filter (·.code = "W0021") = [] := by
      refine List.filter_eq_nil_iff.2 fun d hd => ?_
      obtain ⟨p, hp, hdp⟩ := List.mem_flatMap.1 hd
      simpa using hps p (List.mem_of_mem_take hp) d hdp
    have hwarned : (s.warned (effects (Scopes.push {}) earlier)).filter (·.code = "W0021") =
        s.warned (effects (Scopes.push {}) earlier) := by
      refine List.filter_eq_self.2 fun d hd => ?_
      rw [warned_effects] at hd
      obtain ⟨t, -, rfl⟩ := List.mem_map.1 hd
      rfl
    -- what the statement declares is known to the next ones
    have hnext : s.effect (effects (Scopes.push {}) earlier) =
        effects (Scopes.push {}) (earlier ++ [s]) := by
      rw [effects, effects, List.foldl_append]
      rfl
    have hdrop : ∀ p ∈ ps.drop s.tokens.length, ∀ d ∈ p.reports, d.code ≠ "W0021" :=
      fun p hp => hps p (List.mem_of_mem_drop hp)
    have hrest := ih (earlier ++ [s]) hdrop
    rw [heard, List.filter_append, List.filter_append, hscanned, hwarned, hnext, hrest, repeated,
      List.map_append, warned_effects, List.nil_append]

end Sentence

/-! ### Names without a declaration -/

/-- The kinds of token that an operand can follow. -/
def precedingKinds : List TokenKind :=
  .semicolon :: .leftParen :: operatorKinds

/-- Can an operand stand after these tokens? It can at the start of a statement, after an opening
parenthesis and after an operator. -/
def AwaitsOperand (ts : List Token) : Prop :=
  ∀ t ∈ ts.getLast?, t.kind ∈ precedingKinds

instance : DecidablePred AwaitsOperand :=
  fun ts => inferInstanceAs (Decidable (∀ t ∈ ts.getLast?, _))

theorem AwaitsOperand.right {xs ys : List Token} (h : AwaitsOperand (xs ++ ys)) : AwaitsOperand ys := by
  intro t ht
  refine h t ?_
  rw [List.getLast?_append, Option.mem_def.1 ht]
  rfl

theorem AwaitsOperand.tail {t : Token} {ts : List Token} (h : AwaitsOperand (t :: ts)) :
    AwaitsOperand ts := by
  rw [← List.singleton_append] at h
  exact h.right

theorem not_awaitsOperand (xs : List Token) {t : Token} (h : t.kind ∉ precedingKinds) :
    ¬ AwaitsOperand (xs ++ [t]) :=
  fun hawaits => h (hawaits t List.getLast?_concat)

theorem Terminal.kind_notMem {kinds kinds' : List TokenKind} (t : Terminal kinds)
    (h : ∀ k ∈ kinds, k ∉ kinds') : t.1.kind ∉ kinds' :=
  h _ t.2

/-- No operand can stand right after an expression. -/
theorem Tree.not_awaitsOperand {f : Phrase} (t : Tree f) : ¬ AwaitsOperand t.tokens := by
  induction t with
  | leaf t => exact SwiftDialect.not_awaitsOperand [] (t.kind_notMem (by decide))
  | sign t e ih => exact fun hawaits => ih hawaits.tail
  | group l e r _ =>
    exact SwiftDialect.not_awaitsOperand (l.1 :: e.tokens) (r.kind_notMem (by decide))
  | single e ih => exact ih
  | chain l op r _ ihr =>
    intro hawaits
    rw [tokens, List.append_cons] at hawaits
    exact ihr hawaits.right

/-! ### What stands around a token -/

/-- What is open after some tokens of a program. -/
structure Surroundings where
  /-- The open parentheses, and the prefix operators whose operand is not complete, the innermost first. -/
  around : List Token := []
  /-- Does an operand come next? -/
  awaits : Bool := true
  deriving DecidableEq, Repr

namespace Surroundings

/-- Without the prefix operators inside the innermost parenthesis. -/
def withoutSigns (ts : List Token) : List Token :=
  ts.dropWhile (·.kind ≠ .leftParen)

/-- What is open after one more token. An operand completes the prefix operators before it, and so does a
parenthesis when it closes; a semicolon completes the statement. -/
def after (s : Surroundings) (t : Token) : Surroundings :=
  match t.kind with
  | .semicolon => {}
  | .leftParen => ⟨t :: s.around, true⟩
  | .rightParen => ⟨withoutSigns (withoutSigns s.around).tail, false⟩
  | .minus | .plus => ⟨if s.awaits then t :: s.around else s.around, true⟩
  | kind => if kind ∈ operatorKinds then ⟨s.around, true⟩ else ⟨withoutSigns s.around, false⟩

theorem withoutSigns_sign (t : Terminal [.minus, .plus]) (ts : List Token) :
    withoutSigns (t.1 :: ts) = withoutSigns ts :=
  List.dropWhile_cons_of_pos (by simpa using t.kind_ne (by decide))

theorem withoutSigns_paren (l : Terminal [.leftParen]) (ts : List Token) :
    withoutSigns (l.1 :: ts) = l.1 :: ts :=
  List.dropWhile_cons_of_neg (by simpa using List.mem_singleton.1 l.2)

theorem withoutSigns_withoutSigns (ts : List Token) : withoutSigns (withoutSigns ts) = withoutSigns ts :=
  List.dropWhile_idempotent _ ts

variable (ts : List Token)

theorem after_semicolon (s : Surroundings) (t : Terminal [.semicolon]) : s.after t.1 = {} := by
  simp [after, List.mem_singleton.1 t.2]

theorem after_leaf (t : Terminal [.integerLiteral, .floatLiteral, .stringLiteral, .identifier]) :
    after ⟨ts, true⟩ t.1 = ⟨withoutSigns ts, false⟩ := by
  have hk := t.2
  simp only [List.mem_cons, List.not_mem_nil, or_false] at hk
  rcases hk with hk | hk | hk | hk <;> simp [after, hk, operatorKinds]

theorem after_sign (t : Terminal [.minus, .plus]) : after ⟨ts, true⟩ t.1 = ⟨t.1 :: ts, true⟩ := by
  have hk := t.2
  simp only [List.mem_cons, List.not_mem_nil, or_false] at hk
  rcases hk with hk | hk <;> simp [after, hk]

theorem after_leftParen (l : Terminal [.leftParen]) : after ⟨ts, true⟩ l.1 = ⟨l.1 :: ts, true⟩ := by
  simp [after, List.mem_singleton.1 l.2]

theorem after_rightParen (r : Terminal [.rightParen]) :
    after ⟨ts, false⟩ r.1 = ⟨withoutSigns (withoutSigns ts).tail, false⟩ := by
  simp [after, List.mem_singleton.1 r.2]

theorem after_operator (op : Terminal operatorKinds) : after ⟨ts, false⟩ op.1 = ⟨ts, true⟩ := by
  have hk := op.2
  simp only [operatorKinds, List.mem_cons, List.not_mem_nil, or_false] at hk
  rcases hk with hk | hk | hk | hk | hk | hk | hk | hk | hk | hk <;> simp [after, hk, operatorKinds]

/-- An expression leaves open what was open before it, without the prefix operators that it completes. -/
theorem foldl_after_tokens {f : Phrase} (e : Tree f) :
    ∀ ts, e.tokens.foldl after ⟨ts, true⟩ = ⟨withoutSigns ts, false⟩ := by
  induction e with
  | leaf t => exact fun ts => after_leaf ts t
  | sign t e ih =>
    intro ts
    rw [Tree.tokens, List.foldl_cons, after_sign, ih, withoutSigns_sign]
  | group l e r ih =>
    intro ts
    -- the closing parenthesis takes away its own pair, and that completes the signs before it
    rw [Tree.tokens, List.foldl_cons, after_leftParen, List.foldl_append, ih, List.foldl_cons,
      after_rightParen, withoutSigns_paren, withoutSigns_paren]
    rfl
  | single e ih => exact ih
  | chain l op r ihl ihr =>
    intro ts
    rw [Tree.tokens, List.foldl_append, ihl, List.foldl_cons, after_operator, ihr,
      withoutSigns_withoutSigns]

/-- After whole statements, nothing is open. -/
theorem foldl_after_flatMap (ss : List Sentence) : (ss.flatMap Sentence.tokens).foldl after {} = {} := by
  induction ss with
  | nil => rfl
  | cons s ss ih =>
    have hcomplete : s.tokens.foldl after {} = {} := by
      cases s with
      | declaration intro ident colon type semicolon => exact after_semicolon _ semicolon
      | evaluation e semicolon =>
        rw [Sentence.tokens, List.foldl_append]
        exact after_semicolon _ semicolon
    rw [List.flatMap_cons, List.foldl_append, hcomplete, ih]

end Surroundings

/-- The parentheses and prefix operators around the token that comes after these, in its own statement. -/
def around (ts : List Token) : List Token :=
  (ts.foldl Surroundings.after {}).around

section

variable {scopes : Scopes} {f : Phrase} {room : Nat} {used : List Token} {bad : Token} {pr : Problem}
  {moves : List Move}

/-- The names in a tree that fits can be resolved. -/
theorem Tree.resolve_of_mem (e : Tree f) : ∀ {room : Nat}, e.Fits scopes room →
    ∀ t ∈ e.tokens, t.kind = .identifier → (scopes.resolve t.text).isSome := by
  induction e with
  | leaf t =>
    intro room h x hx hk
    obtain rfl := List.mem_singleton.1 hx
    simpa [leafValue?, hk] using h.2
  | sign t e ih =>
    intro room h x hx hk
    rcases List.mem_cons.1 hx with rfl | hx
    · exact absurd hk (t.kind_ne (by decide))
    · exact ih h.2 x hx hk
  | group l e r ih =>
    intro room h x hx hk
    rcases List.mem_cons.1 hx with rfl | hx
    · exact absurd hk (l.kind_ne (by decide))
    rcases List.mem_append.1 hx with hx | hx
    · exact ih h.2 x hx hk
    · obtain rfl := List.mem_singleton.1 hx
      exact absurd hk (r.kind_ne (by decide))
  | single e ih => exact ih
  | chain l op r ihl ihr =>
    intro room h x hx hk
    rcases List.mem_append.1 hx with hx | hx
    · exact ihl h.1 x hx hk
    rcases List.mem_cons.1 hx with rfl | hx
    · exact absurd hk (op.kind_ne (by decide))
    · exact ihr h.2 x hx hk

/-- So can the names before the token at which an expression is stuck. -/
theorem Stuck.resolve_of_mem (h : Stuck scopes f room used bad pr moves) :
    ∀ t ∈ used, t.kind = .identifier → (scopes.resolve t.text).isSome := by
  induction h with
  | sign t _ ih =>
    intro x hx hk
    rcases List.mem_cons.1 hx with rfl | hx
    · exact absurd hk (t.kind_ne (by decide))
    · exact ih x hx hk
  | inside l _ ih =>
    intro x hx hk
    rcases List.mem_cons.1 hx with rfl | hx
    · exact absurd hk (l.kind_ne (by decide))
    · exact ih x hx hk
  | @unclosed l room e he bad hop hbad =>
    intro x hx hk
    rcases List.mem_cons.1 hx with rfl | hx
    · exact absurd hk (l.kind_ne (by decide))
    · exact e.resolve_of_mem he x hx hk
  | first _ ih => exact ih
  | @later room e he op used bad pr moves _ ih =>
    intro x hx hk
    rcases List.mem_append.1 hx with hx | hx
    · exact e.resolve_of_mem he x hx hk
    rcases List.mem_cons.1 hx with rfl | hx
    · exact absurd hk (op.kind_ne (by decide))
    · exact ih x hx hk
  | _ => exact fun x hx => absurd hx List.not_mem_nil

open Surroundings in
/-- Where an operand is awaited, a name is rejected because it has no declaration, or because so much stands
around it that there is no room. -/
theorem Stuck.at_identifier (h : Stuck scopes f room used bad pr moves) (hk : bad.kind = .identifier) :
    AwaitsOperand used → pr = .unresolvedName bad.text ∨ pr = .nestedTooDeeply maxNesting ∧
      ∀ ts, (f = .expr → withoutSigns ts = ts) →
        (used.foldl after ⟨ts, true⟩).around.length = room + ts.length := by
  have hunary : Phrase.unary ≠ .expr := Phrase.noConfusion
  induction h with
  | tooDeep bad => exact fun _ => .inr ⟨rfl, fun ts _ => (Nat.zero_add _).symm⟩
  | invalid room h => simp [literalError?, hk] at h
  | unresolved room _ h => exact fun _ => .inl rfl
  | conditional room h => simp [hk] at h
  | unexpected room h => simp [hk, operandKinds] at h
  | sign t _ ih =>
    intro hawaits
    refine (ih hk hawaits.tail).imp_right (And.imp_right fun hlength ts _ => ?_)
    rw [List.foldl_cons, after_sign, hlength _ hunary.elim, List.length_cons]
    omega
  | inside l _ ih =>
    intro hawaits
    refine (ih hk hawaits.tail).imp_right (And.imp_right fun hlength ts _ => ?_)
    rw [List.foldl_cons, after_leftParen, hlength _ fun _ => withoutSigns_paren l ts, List.length_cons]
    omega
  | @unclosed l room e he bad hop hbad =>
    intro hawaits
    -- an expression is complete here, so no operand is awaited
    exact absurd hawaits.tail e.not_awaitsOperand
  | first _ ih =>
    intro hawaits
    exact (ih hk hawaits).imp_right (And.imp_right fun hlength ts _ => hlength ts hunary.elim)
  | @later room e he op used bad pr moves _ ih =>
    intro hawaits
    have hright : AwaitsOperand used := by
      rw [List.append_cons] at hawaits
      exact hawaits.right
    refine (ih hk hright).imp_right (And.imp_right fun hlength ts hts => ?_)
    -- no prefix operator is open where an expression begins, so the operator leaves open what was open
    rw [List.foldl_append, foldl_after_tokens, hts rfl, List.foldl_cons, after_operator,
      hlength ts hunary.elim]

/-- No operand is awaited at the identifier of a declaration. -/
theorem not_awaitsOperand_of_declaration (intro : Terminal [.kwLet, .kwVar]) {ident t : Token}
    {xs before after : List Token} (hxs : ∀ x ∈ xs, x.kind ≠ .identifier)
    (heq : intro.1 :: ident :: xs = before ++ t :: after) (hk : t.kind = .identifier) :
    ¬ AwaitsOperand before := by
  cases before with
  | nil =>
    obtain ⟨rfl, -⟩ := List.cons.inj heq
    exact absurd hk (intro.kind_ne (by decide))
  | cons b before =>
    obtain ⟨rfl, htail⟩ := List.cons.inj heq
    cases before with
    | nil => exact not_awaitsOperand [] (intro.kind_notMem (by decide))
    | cons b before =>
      obtain ⟨-, rfl⟩ := List.cons.inj htail
      exact absurd hk (hxs t (by simp))

/-- The names in a statement that fits can be resolved. -/
theorem Sentence.resolve_of_split {s : Sentence} (h : s.Fits scopes) {t : Token}
    {before after : List Token} (heq : s.tokens = before ++ t :: after) (hk : t.kind = .identifier)
    (hawaits : AwaitsOperand before) : (scopes.resolve t.text).isSome := by
  cases s with
  | declaration intro ident colon type semicolon =>
    refine absurd hawaits (not_awaitsOperand_of_declaration intro ?_ heq hk)
    simp only [List.forall_mem_cons, List.not_mem_nil, false_imp_iff, implies_true, and_true]
    exact ⟨colon.kind_ne (by decide), type.kind_ne (by decide), semicolon.kind_ne (by decide)⟩
  | evaluation e semicolon =>
    have hmem : t ∈ e.tokens ++ [semicolon.1] := by
      rw [show e.tokens ++ [semicolon.1] = _ from heq]
      simp
    rcases List.mem_append.1 hmem with ht | ht
    · exact e.resolve_of_mem h t ht hk
    · obtain rfl := List.mem_singleton.1 ht
      exact absurd hk (semicolon.kind_ne (by decide))

/-- An element lies in the first of two lists, or in the second. -/
theorem append_eq_split {α : Type u} {xs ys before after : List α} {x : α}
    (h : xs ++ ys = before ++ x :: after) : (∃ more, xs = before ++ x :: more) ∨
      ∃ mid, before = xs ++ mid ∧ ys = mid ++ x :: after := by
  rcases List.append_eq_append_iff.1 h with ⟨mid, hbefore, hys⟩ | ⟨more, hxs, hcons⟩
  · exact .inr ⟨mid, hbefore, hys⟩
  cases more with
  | nil => exact .inr ⟨[], by simpa using hxs.symm, hcons.symm⟩
  | cons y more =>
    obtain ⟨rfl, -⟩ := List.cons.inj hcons
    exact .inl ⟨more, hxs⟩

/-- A name in a sequence of statements that fit is known before, or is declared by a statement before
it, or lies behind them all. -/
theorem Sentence.resolve_of_splits (ss : List Sentence) : ∀ {scopes : Scopes}
    {t : Token} {before after rest : List Token}, scopes.mappings ≠ [] → AllFit scopes ss →
      ss.flatMap tokens ++ rest = before ++ t :: after → t.kind = .identifier →
      AwaitsOperand before → (scopes.resolve t.text).isSome ∨
        (∃ s : Sentence, s.declared? = some t.text ∧ s.tokens <:+: before) ∨
        ∃ mid, before = ss.flatMap tokens ++ mid ∧ rest = mid ++ t :: after := by
  induction ss with
  | nil => exact fun _ _ heq _ _ => .inr (.inr ⟨_, rfl, heq⟩)
  | cons s ss ih =>
    intro scopes t before after rest hopen hfit heq hk hawaits
    rw [List.flatMap_cons, List.append_assoc] at heq
    -- the name lies in the first statement or behind it
    rcases append_eq_split heq with ⟨more, hs⟩ | ⟨mid, rfl, hmid⟩
    · exact .inl (s.resolve_of_split hfit.1 hs hk hawaits)
    · rcases ih (effect_open hopen s) hfit.2 hmid hk hawaits.right with
        hres | ⟨d, hd, hwithin⟩ | ⟨mid, rfl, hrest⟩
      · rcases (resolve_effect hopen s t.text).1 hres with hdecl | hres
        · exact .inr (.inl ⟨s, hdecl, List.infix_append [] s.tokens mid⟩)
        · exact .inl hres
      · exact .inr (.inl ⟨d, hd, hwithin.trans (List.suffix_append _ _).isInfix⟩)
      · exact .inr (.inr ⟨mid, by simp, hrest⟩)

/-- So can the names before the token at which a statement is stuck. -/
theorem StuckSentence.resolve_of_split (h : StuckSentence scopes used bad pr moves) {t : Token}
    {before after : List Token} (heq : used = before ++ t :: after) (hk : t.kind = .identifier)
    (hawaits : AwaitsOperand before) : (scopes.resolve t.text).isSome := by
  have hmem : t ∈ used := by simp [heq]
  cases h with
  | loop _ => cases hmem
  | start _ => cases hmem
  | name intro _ =>
    obtain rfl := List.mem_singleton.1 hmem
    exact absurd hk (intro.kind_ne (by decide))
  | colon intro ident _ =>
    exact absurd hawaits (not_awaitsOperand_of_declaration intro (by simp) heq hk)
  | type intro ident colon _ =>
    refine absurd hawaits (not_awaitsOperand_of_declaration intro ?_ heq hk)
    simpa using colon.kind_ne (by decide)
  | endless intro ident colon type _ =>
    refine absurd hawaits (not_awaitsOperand_of_declaration intro ?_ heq hk)
    simpa using ⟨colon.kind_ne (by decide), type.kind_ne (by decide)⟩
  | inside _ h => exact h.resolve_of_mem t hmem hk
  | @unfinished e he _ _ _ => exact e.resolve_of_mem he t hmem hk

theorem StuckSentence.at_identifier (h : StuckSentence scopes used bad pr moves)
    (hk : bad.kind = .identifier) (hawaits : AwaitsOperand used) : pr = .unresolvedName bad.text ∨
      pr = .nestedTooDeeply maxNesting ∧ (around used).length = maxNesting := by
  cases h with
  | loop h => simp [hk] at h
  | start h => simp [hk, evaluationKinds] at h
  | name _ h => exact absurd hk h
  | colon intro ident _ =>
    exact absurd hawaits (not_awaitsOperand [intro.1] (ident.kind_notMem (by decide)))
  | type intro ident colon _ =>
    exact absurd hawaits (not_awaitsOperand [intro.1, ident.1] (colon.kind_notMem (by decide)))
  | endless intro ident colon type _ =>
    exact absurd hawaits (not_awaitsOperand [intro.1, ident.1, colon.1] (type.kind_notMem (by decide)))
  | inside _ h =>
    exact (h.at_identifier hk hawaits).imp_right (And.imp_right fun hlength => hlength [] fun _ => rfl)
  | @unfinished e he _ _ _ => exact absurd hawaits e.not_awaitsOperand

end

/-- No declaration of the name stands among the tokens. -/
def Undeclared (name : String) (ts : List Token) : Prop :=
  ∀ s : Sentence, s.declared? = some name → ¬ s.tokens <:+: ts

/-- A name without a declaration lies behind all the statements that are read. -/
theorem Sentence.behind_of_undeclared {ss : List Sentence} (hfit : AllFit (Scopes.push {}) ss) {t : Token}
    {before after rest : List Token} (heq : ss.flatMap tokens ++ rest = before ++ t :: after)
    (hk : t.kind = .identifier) (hawaits : AwaitsOperand before) (hfree : Undeclared t.text before) :
    ∃ mid, before = ss.flatMap tokens ++ mid ∧ rest = mid ++ t :: after := by
  rcases resolve_of_splits ss (List.cons_ne_nil _ _) hfit heq hk hawaits with
    hres | ⟨s, hs, hwithin⟩ | hbehind
  · cases hres
  · exact absurd hwithin (hfree s hs)
  · exact hbehind

/-- A program with a name without a declaration is stuck at that name, or before it. -/
theorem ProgramStuck.at_undeclared {ss : List Sentence} {used : List Token} {bad : Token} {pr : Problem}
    {moves : List Move} (h : ProgramStuck (Scopes.push {}) ss used bad pr moves) {t : Token}
    {before after rest : List Token}
    (heq : ss.flatMap Sentence.tokens ++ (used ++ bad :: rest) = before ++ t :: after)
    (hk : t.kind = .identifier) (hawaits : AwaitsOperand before) (hfree : Undeclared t.text before) :
    bad = t ∧ pr = .unresolvedName t.text ∨ bad ∈ before ∨
      bad = t ∧ pr = .nestedTooDeeply maxNesting ∧ (around before).length = maxNesting := by
  obtain ⟨mid, rfl, hmid⟩ := Sentence.behind_of_undeclared h.fit heq hk hawaits hfree
  rcases append_eq_split hmid with ⟨more, hused⟩ | ⟨mid, rfl, hbad⟩
  · -- were the name before the rejected token, it would have a declaration
    have hres := h.stuck.resolve_of_split hused hk hawaits.right
    obtain ⟨s, hs, hdecl⟩ := (Sentence.resolve_fresh ss t.text).1 hres
    obtain ⟨older, newer, rfl⟩ := List.append_of_mem hs
    refine absurd ⟨older.flatMap Sentence.tokens, newer.flatMap Sentence.tokens ++ mid, ?_⟩
      (hfree s hdecl)
    simp
  cases mid with
  | nil =>
    obtain ⟨rfl, -⟩ := List.cons.inj hbad
    rw [List.append_nil] at hawaits ⊢
    rcases h.stuck.at_identifier hk hawaits.right with hpr | ⟨hpr, hlength⟩
    · exact .inl ⟨rfl, hpr⟩
    · refine .inr (.inr ⟨rfl, hpr, ?_⟩)
      -- nothing stays open at the end of a statement, so only the last one counts
      rw [around, List.foldl_append, Surroundings.foldl_after_flatMap]
      exact hlength
  | cons b mid =>
    obtain ⟨rfl, -⟩ := List.cons.inj hbad
    exact .inr (.inl (by simp))

/-! ### Texts -/

/-- The names in a program carry the latest declarations before them. -/
theorem Sentence.names_stmts {ss : List Sentence} (hfit : AllFit (Scopes.push {}) ss)
    {before after : List Stmt} {s : Stmt} (heq : stmts (Scopes.push {}) ss = before ++ s :: after) :
    ∀ n ∈ s.names, ∃ older d newer, before = older ++ .declare d :: newer ∧ d.ident = n.1 ∧
      (∀ d', .declare d' ∈ newer → d'.ident ≠ n.1) ∧ n.2 = some d.declaration := by
  intro n hn
  obtain ⟨s', scopes, htracks, hfits, rfl⟩ := exists_tracks ss Scopes.tracks_nil hfit heq
  obtain ⟨symbol, hsymbol, hdeclaration⟩ := names_stmt hfits n hn
  rw [htracks.resolve, List.nil_append] at hsymbol
  obtain ⟨d, hlatest, rfl⟩ := Option.map_eq_some_iff.1 hsymbol
  obtain ⟨older, newer, hsplit, hident, hnewer⟩ := exists_of_latest hlatest
  exact ⟨older, d, newer, hsplit, hident, hnewer, hdeclaration⟩

/-- Where names lead. In a program, every name carries the latest declaration before its statement, and
there is one. Exactly the declarations that repeat a name are warned of, each at its identifier. In any
text, a name without a declaration before it is rejected, unless the text is rejected before it, or the
name itself for as many parentheses and prefix operators around it in its statement as there can be. -/
theorem names_resolve_to_latest (name text : String) (w : Nat) :
    (∀ program, (parseText name text w).program = some program →
      (∀ before s after, program.body = before ++ s :: after → ∀ n ∈ s.names,
        ∃ older d newer, before = older ++ .declare d :: newer ∧ d.ident = n.1 ∧
          (∀ d', .declare d' ∈ newer → d'.ident ≠ n.1) ∧
          n.2 = some ⟨d.location, d.type.kind, d.binding⟩) ∧
      ∃ ss eof, (tokenizeText name text w).tokens = ss.flatMap Sentence.tokens ++ [eof] ∧
        program.body = Sentence.stmts (Scopes.push {}) ss ∧
        (parseText name text w).diagnostics.filter (·.code = "W0021") =
          (Sentence.repeated [] ss).map fun t =>
            (Problem.redeclaredName t.text).diagnose t.location) ∧
    ∀ before t after, (tokenizeText name text w).tokens = before ++ t :: after →
      t.kind = .identifier → AwaitsOperand before → Undeclared t.text before →
      (parseText name text w).program = none ∧
      ∃ problem : Problem, ∃ place : Token, problem.entry.code ∈ rejectionCodes ∧
        (parseText name text w).diagnostics.getLast? = some (problem.diagnose place.location) ∧
        (place = t ∧ problem = .unresolvedName t.text ∨ place ∈ before ∨
          place = t ∧ problem = .nestedTooDeeply maxNesting ∧ (around before).length = maxNesting) := by
  obtain ⟨segments, hseg⟩ := exists_segmentation text.toList
  have htokens := (tokenizeText_eq name w hseg).1
  have hquiet : ∀ p ∈ pulls w [] segments, ∀ d ∈ p.reports, d.code ≠ "W0021" := by
    intro p hp d hd
    rcases code_of_mem_pulls hp hd with hcode | hcode <;> rw [hcode] <;> decide
  rw [htokens]
  rcases parseText_heard name w hseg with
    ⟨ss, last, p, hpulls, hlast, hfit, hprogram, hdiagnostics⟩ |
    ⟨ss, last, final, rest, used, bad, pr, moves, hpulls, hlast, hfinal, hst, hprogram, hdiagnostics⟩
  · have hsplit : (pulls w [] segments).map Pull.token = ss.flatMap Sentence.tokens ++ [p.token] := by
      rw [hpulls, List.map_append, hlast]
      rfl
    rw [hsplit]
    refine ⟨fun program hsome => ?_, fun before t after heq hk hawaits hfree => ?_⟩
    · obtain rfl := Option.some.inj (hprogram.symm.trans hsome)
      refine ⟨fun before s after heq => Sentence.names_stmts hfit heq, ss, p.token, rfl, rfl, ?_⟩
      rw [hpulls] at hquiet
      have hheard := Sentence.filter_heard ss [] fun q hq => hquiet q (List.mem_append_left _ hq)
      have hend : p.reports.filter (·.code = "W0021") = [] :=
        List.filter_eq_nil_iff.2 fun d hd => by simpa using hquiet p (by simp) d hd
      rw [hdiagnostics, List.filter_append, hend, List.append_nil]
      exact hheard
    · -- every name before the end lies in a statement, so it has a declaration
      obtain ⟨mid, -, hmid⟩ := Sentence.behind_of_undeclared hfit heq hk hawaits hfree
      have hmem : t ∈ [p.token] := by simp [hmid]
      rw [List.mem_singleton.1 hmem, kind_of_last_pull hpulls] at hk
      cases hk
  · refine ⟨fun program hsome => ?_, fun before t after heq hk hawaits hfree => ?_⟩
    · rw [hprogram] at hsome
      cases hsome
    · have hsplit : (pulls w [] segments).map Pull.token =
          ss.flatMap Sentence.tokens ++ (used ++ bad :: rest.map Pull.token) := by
        rw [hpulls, List.map_append, List.map_append, hlast, hfinal]
        simp
      refine ⟨hprogram, pr, bad, hst.stuck.code_mem, ?_,
        hst.at_undeclared (hsplit.symm.trans heq) hk hawaits hfree⟩
      rw [hdiagnostics]
      simp

/-- The name in the last statement of the first text carries the second declaration; the second text
is rejected at its last name. -/
theorem latest_of_two_declarations :
    (∃ program, (parseText "a" "let x: Int32; var x: Double; -x;" 4).program = some program ∧
      ∀ before s after, program.body = before ++ s :: after → ∀ n ∈ s.names,
        ∃ older d newer, before = older ++ .declare d :: newer ∧ d.ident = n.1 ∧
          (∀ d', .declare d' ∈ newer → d'.ident ≠ n.1) ∧
          n.2 = some ⟨d.location, d.type.kind, d.binding⟩) ∧
    (parseText "a" "let x: Int32; x + y;" 4).program = none := by
  constructor
  · obtain ⟨program, hprogram⟩ : ∃ program,
        (parseText "a" "let x: Int32; var x: Double; -x;" 4).program = some program :=
      Option.isSome_iff_exists.1 (by decide +kernel)
    exact ⟨program, hprogram, ((names_resolve_to_latest _ _ _).1 program hprogram).1⟩
  · let ts := (tokenizeText "a" "let x: Int32; x + y;" 4).tokens
    have hfree : Undeclared "y" (ts.take 7) := by
      intro s hs hwithin
      cases s with
      | declaration intro ident colon type semicolon =>
        have hnone : ∀ t ∈ ts.take 7, t.text ≠ "y" := by decide +kernel
        exact hnone ident.1 (hwithin.subset (by simp [Sentence.tokens])) (Option.some.inj hs)
      | evaluation e semicolon => cases hs
    exact ((names_resolve_to_latest "a" "let x: Int32; x + y;" 4).2 (ts.take 7)
      ⟨.identifier, ⟨19⟩, "y"⟩ (ts.drop 8) (by decide +kernel) rfl (by decide +kernel) hfree).1

end SwiftDialect
