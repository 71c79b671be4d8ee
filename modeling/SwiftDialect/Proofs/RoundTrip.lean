import SwiftDialect.Proofs.Printing
import SwiftDialect.Proofs.Sources
import SwiftDialect.Proofs.Viability

/-!
# Reading back what was written

A program that is written down and read again is the same program, except for its places. The proof
builds parse trees for the tokens of the text along the printed tree: an operation on two operands
becomes one chain, whose grouping is that of the operation because parentheses stand wherever the
powers alone would group otherwise.
-/

namespace SwiftDialect

/-! ### Joining chains -/

namespace Tree

/-- Two expressions with an operator between them, as one chain. -/
def append (l : Tree .expr) (op : Terminal operatorKinds) : Tree .expr → Tree .expr
  | .single u => .chain l op u
  | .chain r op' u => .chain (l.append op r) op' u

theorem tokens_append (l : Tree .expr) (op : Terminal operatorKinds) :
    ∀ r : Tree .expr, (l.append op r).tokens = l.tokens ++ op.1 :: r.tokens
  | .single u => by rw [append]; rfl
  | .chain r op' u => by simp [append, tokens, tokens_append l op r]

theorem fits_append {scopes : Scopes} {room : Nat} {l : Tree .expr} (op : Terminal operatorKinds)
    (hl : l.Fits scopes room) :
    ∀ r : Tree .expr, r.Fits scopes room → (l.append op r).Fits scopes room
  | .single u, hu => by
    rw [append]
    exact ⟨hl, hu⟩
  | .chain r op' u, hr => by
    rw [append]
    exact ⟨fits_append op hl r hr.1, hr.2⟩

theorem spine_chain (scopes : Scopes) (l : Tree .expr) (op : Terminal operatorKinds)
    (u : Tree .unary) : (chain l op u).spine scopes = (l.spine scopes).extend op.1
      ((BinaryOp.ofToken? op.1.kind).getD default) (u.spine scopes).toOperand :=
  rfl

/-- If the powers ask for it, the two expressions are the operands of the operator. -/
theorem spine_append {scopes : Scopes} {l : Tree .expr} {op : Terminal operatorKinds} {o : BinaryOp}
    (hop : BinaryOp.ofToken? op.1.kind = some o) (hl : (l.spine scopes).Climbs o.power) :
    ∀ r : Tree .expr, (r.spine scopes).Climbs (o.power + 1) →
      (l.append op r).spine scopes = .node (l.spine scopes) op.1 o (r.spine scopes)
  | .single u, _ => by
    rw [append, spine_chain, hop, Option.getD_some, Spine.extend_of_climbs _ _ _ hl,
      ← spine_unary scopes u]
    rfl
  | .chain r op' u, hr => by
    obtain ⟨hr, hpow⟩ := Spine.climbs_of_extend _ _ _ hr
    -- the last operator binds more tightly, so it goes to the right operand
    rw [append, spine_chain, spine_append hop hl r hr, Spine.extend, if_pos (Nat.lt_of_succ_le hpow),
      spine_chain]

end Tree

/-! ### What is reported on the way -/

/-- The diagnostics that the moves report. -/
def reports (moves : List Move) : List Diagnostic :=
  moves.filterMap fun
    | .record e => e.diagnostic?
    | _ => none

@[simp] theorem reports_append (ms ns : List Move) : reports (ms ++ ns) = reports ms ++ reports ns :=
  List.filterMap_append

/-- Reading a tree reports nothing. -/
theorem Tree.reports_moves {f : Phrase} (t : Tree f) : reports t.moves = [] := by
  induction t with
  | leaf t => rfl
  | sign t e ih => exact ih
  | group l e r ih =>
    have hsplit : (group l e r).moves = [.skip, .record .parsingExpression] ++ (e.moves ++ [.skip]) :=
      rfl
    rw [hsplit, reports_append, reports_append, ih]
    rfl
  | single e ih => exact ih
  | chain l op r ihl ihr =>
    have hsplit : (chain l op r).moves = l.moves ++ ([.skip] ++ r.moves) := rfl
    rw [hsplit, reports_append, reports_append, ihl, ihr]
    rfl

namespace Sentence

/-- Reading a statement reports at most that it declares a name again. -/
theorem code_of_reports (scopes : Scopes) (s : Sentence) :
    ∀ d ∈ reports (s.moves scopes), d.code = "W0021" := by
  cases s with
  | declaration intro ident colon type semicolon =>
    simp only [moves, warning]
    split
    · intro d hd
      obtain rfl : d = (Problem.redeclaredName ident.1.text).diagnose ident.1.location := by
        simpa [reports, blame, Event.diagnostic?, List.replicate] using hd
      rfl
    · intro d hd
      simp [reports, Event.diagnostic?, List.replicate] at hd
  | evaluation e semicolon =>
    have hsplit : (evaluation e semicolon).moves scopes =
        [.record .parsingStatement, .peek, .record .parsingExpression] ++ (e.moves ++ [.skip]) := rfl
    rw [hsplit, reports_append, reports_append, e.reports_moves]
    intro d hd
    cases hd

theorem code_of_allReports (ss : List Sentence) : ∀ (scopes : Scopes),
    ∀ d ∈ reports (allMoves scopes ss), d.code = "W0021" := by
  induction ss with
  | nil => exact fun _ d hd => by cases hd
  | cons s ss ih =>
    intro scopes d hd
    have hsplit : allMoves scopes (s :: ss) =
        [.peek] ++ (s.moves scopes ++ allMoves (s.effect scopes) ss) := rfl
    rw [hsplit, reports_append, reports_append] at hd
    rcases List.mem_append.1 hd with hd | hd
    · cases hd
    rcases List.mem_append.1 hd with hd | hd
    · exact s.code_of_reports scopes d hd
    · exact ih _ d hd

end Sentence

/-- Where only lexemes lie ahead, the moves alone report something. -/
theorem Lexer.diagnostics_play {σ : Type} [CharSource σ] (moves : List Move) :
    ∀ {q : Lexer σ}, q.source.Clean → (Lookahead.play q moves).source.journal.diagnostics =
      q.source.journal.diagnostics ++ reports moves := by
  induction moves with
  | nil => exact fun _ => (List.append_nil _).symm
  | cons m moves ih =>
    intro q h
    -- a token comes from the buffer or from the scanner, and neither has anything to report
    have hpop : (Lookahead.pop q).2.source.Clean ∧
        (Lookahead.pop q).2.source.journal.diagnostics = q.source.journal.diagnostics := by
      obtain ⟨buffer, s⟩ := q
      cases buffer with
      | nil => exact h.next
      | cons t rest => exact ⟨h, rfl⟩
    rw [Lookahead.play, List.foldl_cons, ← Lookahead.play]
    cases m with
    | peek =>
      rw [ih (q := Lookahead.move q .peek) hpop.1]
      exact congrArg (· ++ _) hpop.2
    | skip =>
      rw [ih (q := Lookahead.move q .skip) hpop.1]
      exact congrArg (· ++ _) hpop.2
    | record e =>
      rw [ih (q := Lookahead.move q (.record e)) h]
      have hrecord : (Lookahead.move q (.record e)).source.journal.diagnostics =
          q.source.journal.diagnostics ++ e.diagnostic?.toList := Journal.diagnostics_record _ e
      rw [hrecord, List.append_assoc]
      cases hd : e.diagnostic? <;> simp [reports, hd]

/-! ### Names -/

/-- The scopes know the variables that the statements declare, the latest of each name. -/
structure Reflects (scopes : Scopes) (earlier : List Stmt) : Prop where
  isOpen : scopes.mappings ≠ []
  resolve : ∀ x, (scopes.resolve x).map (·.declaration.map Declaration.erase) =
    (latest? earlier x).map (some ·.declaration.erase)

theorem reflects_nil : Reflects (Scopes.push {}) [] :=
  ⟨List.cons_ne_nil _ _, fun _ => rfl⟩

theorem latest_append (earlier : List Stmt) (s : Stmt) (x : String) :
    latest? (earlier ++ [s]) x = (s.declared?.filter (·.ident = x)).or (latest? earlier x) := by
  rw [latest?, List.reverse_append, List.reverse_singleton, List.singleton_append,
    List.findSome?_cons]
  cases s.declared?.filter (·.ident = x) <;> rfl

theorem Reflects.declare {scopes : Scopes} {earlier : List Stmt} (h : Reflects scopes earlier)
    {d : VarDecl} {d' : Declaration} (hd : d'.erase = d.declaration.erase) :
    Reflects (scopes.define d.ident d') (earlier ++ [.declare d]) := by
  refine ⟨?_, fun x => ?_⟩
  · obtain ⟨m, rest, hm⟩ := List.exists_cons_of_ne_nil h.isOpen
    rw [Scopes.mappings_define hm]
    exact List.cons_ne_nil _ _
  · rw [Scopes.resolve_define h.isOpen, latest_append]
    by_cases hx : d.ident = x
    · simp [Stmt.declared?, hx, hd]
    · simpa [Stmt.declared?, Option.filter, hx] using h.resolve x

theorem Reflects.eval {scopes : Scopes} {earlier : List Stmt} (h : Reflects scopes earlier) (e : Expr) :
    Reflects scopes (earlier ++ [.eval e]) := by
  refine ⟨h.isOpen, fun x => ?_⟩
  rw [latest_append]
  exact h.resolve x

/-! ### Expressions -/

/-- The tree has these tokens and stands for the expression, up to places. It is grouped as the powers
ask for wherever the expression needs no parentheses, or has them. -/
structure Renders (scopes : Scopes) (room : Nat) (e : Expr) (enclosed : Bool) (ts : List Token)
    (t : Tree .expr) : Prop where
  tokens : t.tokens = ts
  fits : t.Fits scopes room
  value : (t.value scopes).erase = e.erase
  climbs : ∀ n, enclosed ∨ e.looserThan n = false → (t.spine scopes).Climbs n
  operand : enclosed ∨ e.isBinary = false → ∃ u, t = .single u

variable {scopes : Scopes}

theorem kind_mem_of_lexeme {x : Token} {k : TokenKind} {text : String} (hx : x.lexeme = ⟨k, text⟩)
    {kinds : List TokenKind} (hk : k ∈ kinds) : x.kind ∈ kinds := by
  rwa [show x.kind = k from congrArg Lexeme.kind hx]

theorem renders_leaf {room : Nat} (hroom : 0 < room) {e : Expr} {x : Token} {v : Expr}
    (hk : x.kind ∈ [TokenKind.integerLiteral, .floatLiteral, .stringLiteral, .identifier])
    (hvalue : leafValue? scopes x = some v) (herase : v.erase = e.erase) (enclosed : Bool) :
    Renders scopes room e enclosed [x] (.single (.leaf ⟨x, hk⟩)) := by
  refine ⟨rfl, ⟨hroom, by rw [hvalue]; rfl⟩, ?_, fun _ _ => trivial, fun _ => ⟨_, rfl⟩⟩
  have : (Tree.single (.leaf ⟨x, hk⟩)).value scopes = (leafValue? scopes x).getD default := rfl
  rw [this, hvalue]
  exact herase

/-- Parentheses make an operand of any expression. -/
theorem exists_renders_enclose {e : Expr}
    (ih : ∀ {room : Nat} {ts : List Token}, e.nesting < room → ts.map Token.lexeme = e.lexemes →
      ∃ t, Renders scopes room e false ts t) {enclosed : Bool} {room : Nat}
    (hroom : e.nesting + enclosed.toNat < room) {ts : List Token}
    (hts : ts.map Token.lexeme = Expr.enclose enclosed e.lexemes) :
    ∃ t, Renders scopes room e enclosed ts t := by
  cases enclosed with
  | false => exact ih hroom hts
  | true =>
    obtain ⟨l, ts, rfl, hl, hts⟩ := List.map_eq_cons_iff.1 hts
    obtain ⟨inner, rs, rfl, hinner, hrs⟩ := List.map_eq_append_iff.1 hts
    obtain ⟨r, rfl, hr⟩ := List.map_eq_singleton_iff.1 hrs
    have hlk : l.kind ∈ [TokenKind.leftParen] := kind_mem_of_lexeme hl List.mem_cons_self
    have hrk : r.kind ∈ [TokenKind.rightParen] := kind_mem_of_lexeme hr List.mem_cons_self
    -- the parentheses take up one level of nesting
    have hroom' : e.nesting < room - 1 := by
      simp only [Bool.toNat_true] at hroom
      omega
    obtain ⟨t, ht⟩ := ih hroom' hinner
    refine ⟨.single (.group ⟨l, hlk⟩ t ⟨r, hrk⟩), ?_, ⟨by omega, ht.fits⟩, ht.value,
      fun _ _ => trivial, fun _ => ⟨_, rfl⟩⟩
    rw [← ht.tokens]
    rfl

theorem renders_sign {room : Nat} (hroom : 0 < room) {op : UnaryOp} {e : Expr} {l : Location}
    {x : Token} (hx : x.lexeme = ⟨op.kind, ""⟩) {enclosed : Bool} (he : enclosed ∨ e.isBinary = false)
    {ts : List Token} {t : Tree .expr} (ht : Renders scopes (room - 1) e enclosed ts t) :
    ∃ t, Renders scopes room (.unary op e l) false (x :: ts) t := by
  have hkind : x.kind = op.kind := congrArg Lexeme.kind hx
  have hmem : x.kind ∈ [TokenKind.minus, .plus] := by rw [hkind]; cases op <;> decide
  have hop : UnaryOp.ofToken? x.kind = some op := by rw [hkind]; cases op <;> rfl
  obtain ⟨u, rfl⟩ := ht.operand he
  refine ⟨.single (.sign ⟨x, hmem⟩ u), ?_, ⟨hroom, ht.fits⟩, ?_, fun _ _ => trivial,
    fun _ => ⟨_, rfl⟩⟩
  · rw [← ht.tokens]
    rfl
  · have hvalue : (Tree.single (.sign ⟨x, hmem⟩ u)).value scopes =
        .unary ((UnaryOp.ofToken? x.kind).getD default) (u.value scopes) x.location := rfl
    rw [hvalue, hop, Expr.erase, Expr.erase]
    exact congrArg (Expr.unary op · default) ht.value

theorem renders_operator {room : Nat} {op : BinaryOp} (hop : op ≠ .eq) {l r : Expr} {x : Token}
    (hx : x.lexeme = ⟨op.kind, ""⟩) {ls rs : List Token} {tl tr : Tree .expr}
    (hl : Renders scopes room l (l.looserThan op.power) ls tl)
    (hr : Renders scopes room r (r.looserThan (op.power + 1)) rs tr) :
    ∃ t, Renders scopes room (.binary op l r) false (ls ++ x :: rs) t := by
  have hkind : x.kind = op.kind := congrArg Lexeme.kind hx
  have hmem : x.kind ∈ operatorKinds := by
    rw [hkind]; revert hop; cases op <;> decide
  have htoken : BinaryOp.ofToken? x.kind = some op := by
    rw [hkind]; revert hop; cases op <;> decide
  have hcl : (tl.spine scopes).Climbs op.power := hl.climbs _ (by cases l.looserThan op.power <;> simp)
  have hcr : (tr.spine scopes).Climbs (op.power + 1) :=
    hr.climbs _ (by cases r.looserThan (op.power + 1) <;> simp)
  -- both operands are enclosed where they bind too loosely, so the operator becomes the root
  have hspine : (tl.append ⟨x, hmem⟩ tr).spine scopes = .node (tl.spine scopes) x op (tr.spine scopes) :=
    Tree.spine_append htoken hcl tr hcr
  refine ⟨tl.append ⟨x, hmem⟩ tr, ?_, Tree.fits_append _ hl.fits tr hr.fits, ?_, ?_, ?_⟩
  · rw [Tree.tokens_append, hl.tokens, hr.tokens]
  · rw [Tree.value, hspine, Spine.value, Expr.erase, Expr.erase]
    exact congrArg₂ (Expr.binary op) hl.value hr.value
  · intro n hn
    have hle : n ≤ op.power := by simpa [Expr.looserThan] using hn
    rw [hspine]
    exact ⟨htoken, hle, hcl, hcr⟩
  · intro h
    simp [Expr.isBinary] at h

/-- Tokens that read like a printable expression are those of a tree that stands for it. -/
theorem exists_renders {earlier : List Stmt} (hscopes : Reflects scopes earlier) (e : Expr) :
    ∀ {room : Nat} {ts : List Token}, e.Printable earlier → e.nesting < room →
      ts.map Token.lexeme = e.lexemes → ∃ t, Renders scopes room e false ts t := by
  induction e with
  | integer n l =>
    intro room ts h hroom hts
    obtain ⟨x, rfl, hx⟩ := List.map_eq_singleton_iff.1 hts
    have hk : x.kind = .integerLiteral := congrArg Lexeme.kind hx
    have htext : x.text = toString n := congrArg Lexeme.text hx
    have hvalue : leafValue? scopes x = some (.integer n x.location) := by
      simp only [leafValue?, hk, htext, integerValue_decimal h.1 h.2]
      rfl
    refine ⟨_, renders_leaf (Nat.zero_lt_of_lt hroom) (by rw [hk]; decide) hvalue ?_ false⟩
    rw [Expr.erase, Expr.erase]
  | string s l =>
    intro room ts _ hroom hts
    obtain ⟨x, rfl, hx⟩ := List.map_eq_singleton_iff.1 hts
    have hk : x.kind = .stringLiteral := congrArg Lexeme.kind hx
    have htext : x.text = s := congrArg Lexeme.text hx
    have hvalue : leafValue? scopes x = some (.string s x.location) := by
      simp [leafValue?, hk, htext]
    refine ⟨_, renders_leaf (Nat.zero_lt_of_lt hroom) (by rw [hk]; decide) hvalue ?_ false⟩
    rw [Expr.erase, Expr.erase]
  | name x d l =>
    intro room ts h hroom hts
    obtain ⟨t, rfl, ht⟩ := List.map_eq_singleton_iff.1 hts
    obtain ⟨v, hv, hd⟩ := h
    have hk : t.kind = .identifier := congrArg Lexeme.kind ht
    have htext : t.text = x := congrArg Lexeme.text ht
    have hresolve := hscopes.resolve x
    rw [hv, Option.map_some, Option.map_eq_some_iff] at hresolve
    obtain ⟨symbol, hsymbol, hdecl⟩ := hresolve
    have hvalue : leafValue? scopes t = some (.name x symbol.declaration t.location) := by
      simp [leafValue?, hk, htext, hsymbol]
    refine ⟨_, renders_leaf (Nat.zero_lt_of_lt hroom) (by rw [hk]; decide) hvalue ?_ false⟩
    rw [Expr.erase, Expr.erase, hdecl, hd]
  | unary op e l ih =>
    intro room ts h hroom hts
    obtain ⟨x, ts, rfl, hx, hts⟩ := List.map_eq_cons_iff.1 hts
    have hroom' : e.nesting + e.isBinary.toNat < room - 1 := by
      simp only [Expr.nesting] at hroom
      omega
    obtain ⟨t, ht⟩ := exists_renders_enclose (fun hr => ih h hr) hroom' hts
    exact renders_sign (Nat.zero_lt_of_lt hroom) hx (by cases e.isBinary <;> simp) ht
  | binary op l r ihl ihr =>
    intro room ts h hroom hts
    obtain ⟨hop, hl, hr⟩ := h
    obtain ⟨ls, rs, rfl, hls, hrs⟩ := List.map_eq_append_iff.1 hts
    obtain ⟨x, rs, rfl, hx, hrs⟩ := List.map_eq_cons_iff.1 hrs
    obtain ⟨hroomL, hroomR⟩ := Nat.max_lt.1 hroom
    obtain ⟨tl, htl⟩ := exists_renders_enclose (fun hr => ihl hl hr) hroomL hls
    obtain ⟨tr, htr⟩ := exists_renders_enclose (fun hroom => ihr hr hroom) hroomR hrs
    exact renders_operator hop hx htl htr
  | float x l => exact fun h => h.elim
  | ifThen c t l => exact fun h => h.elim
  | ifThenElse c t e l => exact fun h => h.elim

/-! ### Statements -/

/-- Tokens that read like a printable statement are those of a sentence that stands for it, and what
the sentence declares is what the statement declares. -/
theorem exists_sentence {earlier : List Stmt} (hscopes : Reflects scopes earlier) {s : Stmt}
    (h : s.Printable earlier) {ts : List Token} (hts : ts.map Token.lexeme = s.lexemes) :
    ∃ s' : Sentence, s'.tokens = ts ∧ s'.Fits scopes ∧ (s'.stmt scopes).erase = s.erase ∧
      Reflects (s'.effect scopes) (earlier ++ [s]) := by
  cases s with
  | declare d =>
    obtain ⟨⟨⟨c, cs, hident, -⟩, -⟩, htype⟩ := h
    obtain ⟨a, ts, rfl, ha, hts⟩ := List.map_eq_cons_iff.1 hts
    obtain ⟨x, ts, rfl, hx, hts⟩ := List.map_eq_cons_iff.1 hts
    obtain ⟨y, ts, rfl, hy, hts⟩ := List.map_eq_cons_iff.1 hts
    obtain ⟨t, ts, rfl, ht, hts⟩ := List.map_eq_cons_iff.1 hts
    obtain ⟨z, rfl, hz⟩ := List.map_eq_singleton_iff.1 hts
    have hak : a.kind = d.binding.kind := congrArg Lexeme.kind ha
    have htk : t.kind = d.type.kind.kind := congrArg Lexeme.kind ht
    have htext : x.text = d.ident := congrArg Lexeme.text hx
    have hbinding : Sentence.binding a = d.binding := by
      rw [Sentence.binding, hak]; cases d.binding <;> rfl
    have hname : Sentence.typeName t = d.type.kind := by
      rw [Sentence.typeName, htk]; revert htype; cases d.type.kind <;> decide
    let intro : Terminal [.kwLet, .kwVar] := ⟨a, by rw [hak]; cases d.binding <;> decide⟩
    let ident : Terminal [.identifier] := ⟨x, kind_mem_of_lexeme hx List.mem_cons_self⟩
    let colon : Terminal [.colon] := ⟨y, kind_mem_of_lexeme hy List.mem_cons_self⟩
    let type : Terminal typeKinds :=
      ⟨t, by rw [htk]; revert htype; cases d.type.kind <;> decide⟩
    let semicolon : Terminal [.semicolon] := ⟨z, kind_mem_of_lexeme hz List.mem_cons_self⟩
    refine ⟨.declaration intro ident colon type semicolon, rfl, ?_, ?_, ?_⟩
    · show x.text ≠ ""
      rw [htext]
      rintro hempty
      rw [hempty] at hident
      cases hident
    · show Stmt.erase (.declare ⟨x.text, ⟨Sentence.typeName t, t.location⟩, Sentence.binding a,
        a.location⟩) = _
      rw [hbinding, hname, htext, Stmt.erase, Stmt.erase]
    · show Reflects (scopes.define x.text ⟨a.location, Sentence.typeName t, Sentence.binding a⟩) _
      rw [hbinding, hname, htext]
      exact hscopes.declare rfl
  | eval e =>
    obtain ⟨es, rs, rfl, hes, hrs⟩ := List.map_eq_append_iff.1 hts
    obtain ⟨z, rfl, hz⟩ := List.map_eq_singleton_iff.1 hrs
    obtain ⟨t, ht⟩ := exists_renders hscopes e h.1 (Nat.lt_succ_of_le h.2) hes
    let semicolon : Terminal [.semicolon] := ⟨z, kind_mem_of_lexeme hz List.mem_cons_self⟩
    refine ⟨.evaluation t semicolon, ?_, ht.fits, ?_, hscopes.eval e⟩
    · rw [Sentence.tokens, ht.tokens]
    · rw [Sentence.stmt, Stmt.erase, Stmt.erase, ht.value]
  | loop c body l => exact h.elim

/-- Tokens that read like printable statements are those of sentences that stand for them. -/
theorem exists_sentences (rest : List Stmt) :
    ∀ {scopes : Scopes} {earlier : List Stmt} {ts : List Token}, Reflects scopes earlier →
      (∀ before s after, rest = before ++ s :: after → s.Printable (earlier ++ before)) →
      ts.map Token.lexeme = rest.flatMap Stmt.lexemes →
      ∃ ss : List Sentence, ss.flatMap Sentence.tokens = ts ∧ Sentence.AllFit scopes ss ∧
        Stmt.eraseAll (Sentence.stmts scopes ss) = Stmt.eraseAll rest := by
  induction rest with
  | nil =>
    intro scopes earlier ts _ _ hts
    obtain rfl : ts = [] := List.map_eq_nil_iff.1 hts
    exact ⟨[], rfl, trivial, rfl⟩
  | cons s rest ih =>
    intro scopes earlier ts hscopes hprintable hts
    obtain ⟨xs, ys, rfl, hxs, hys⟩ := List.map_eq_append_iff.1 hts
    have hs : s.Printable earlier := by simpa using hprintable [] s rest rfl
    obtain ⟨s', rfl, hfit, herase, heffect⟩ := exists_sentence hscopes hs hxs
    -- the rest is read in the scopes that the first statement leaves
    obtain ⟨ss, rfl, hfits, herases⟩ := ih heffect (fun before x after heq => by
      simpa using hprintable (s :: before) x after (by rw [heq]; rfl)) hys
    refine ⟨s' :: ss, rfl, ⟨hfit, hfits⟩, ?_⟩
    rw [Sentence.stmts, Stmt.eraseAll, Stmt.eraseAll, herase, herases]

/-! ### Programs -/

/-- What a program reports beside what its statements do. -/
theorem reports_programMoves (depth n : Nat) (body : List Move) :
    reports (Parse.programMoves depth body [.record (.parsedProgram n)]) = reports body := by
  have hsplit : Parse.programMoves depth body [.record (.parsedProgram n)] =
      [.record .parsingProgram, .record (.scopeOpened (depth + 1))] ++ (body ++
        [.record (.scopeClosed depth), .record (.parsedProgram n)]) := by
    simp [Parse.programMoves]
  rw [hsplit, reports_append, reports_append]
  exact (List.nil_append _).trans (List.append_nil _)

/-- Reading the lexemes of a printable program, after what the journal holds. -/
theorem Analysis.parse_written {p : Program} (h : p.Printable) (name : String) (tabWidth : Nat)
    (journal : Journal) :
    (parse name (Lexeme.written (p.body.flatMap Stmt.lexemes)) tabWidth journal).program.map
        Program.erase = some p.erase ∧
      ∃ ds, (parse name (Lexeme.written (p.body.flatMap Stmt.lexemes)) tabWidth journal).diagnostics =
        journal.diagnostics ++ ds ∧ ∀ d ∈ ds, d.code = "W0021" := by
  obtain ⟨body, eof, -, hend, hlex, -⟩ := exists_text h.writable name tabWidth journal
  obtain ⟨ss, rfl, hfit, herase⟩ := exists_sentences p.body reflects_nil h hlex
  have hrun := Parse.program_ok (p := { tokens := Lexer.start name _ tabWidth journal }) rfl hend hfit
  obtain ⟨hprogram, hdiagnostics, -⟩ := parse_of_run hrun (Lexer.takeFailure_text ..)
  refine ⟨?_, reports (Sentence.allMoves (Scopes.push {}) ss), ?_, Sentence.code_of_allReports ss _⟩
  · rw [hprogram]
    exact congrArg (fun b => some (Program.mk b)) herase
  · rw [hdiagnostics, Lexer.diagnostics_play _ ⟨_, .inl (Lookahead.spells_text _), h.writable⟩,
      reports_programMoves]
    rfl

/-- A printable program that is written down and read again is the same program up to places, and
nothing is reported but names that are declared again. -/
theorem parse_text_of_printable {p : Program} (h : p.Printable) (name : String) (tabWidth : Nat) :
    (parseText name p.text tabWidth).program.map Program.erase = some p.erase ∧
      ∀ d ∈ (parseText name p.text tabWidth).diagnostics, d.code = "W0021" := by
  have htext : p.text.toList = Lexeme.written (p.body.flatMap Stmt.lexemes) := String.toList_ofList
  obtain ⟨hprogram, ds, hdiagnostics, hcode⟩ := Analysis.parse_written h name tabWidth
    (Journal.empty.record (.parsingText name p.text.utf8ByteSize))
  rw [parseText, parseTextAfter, htext, hdiagnostics, Journal.diagnostics_record]
  exact ⟨hprogram, hcode⟩

/-- A name that is declared twice, and an operation whose operands need parentheses. -/
def redeclaredProduct : Program where
  body := [
    .declare ⟨"x", ⟨.int32, default⟩, .byLet, default⟩,
    .declare ⟨"x", ⟨.double, default⟩, .byVar, default⟩,
    .eval (.binary .mul
      (.unary .neg (.binary .add (.name "x" (some ⟨default, .double, .byVar⟩) default)
        (.integer 10 default)) default)
      (.binary .sub (.integer 2 default) (.string "a b" default)))]

theorem parse_text_of_redeclaredProduct :
    redeclaredProduct.text =
        "let x : Int32 ; var x : Double ; - ( x + 10 ) * ( 2 - \"a b\" ) ;" ∧
      redeclaredProduct.Printable ∧
      (parseText "unit" redeclaredProduct.text 8).program.map Program.erase =
        some redeclaredProduct.erase ∧
      ∀ d ∈ (parseText "unit" redeclaredProduct.text 8).diagnostics, d.code = "W0021" := by
  have hident : IsIdentifier "x" :=
    ⟨⟨'x', [], rfl, by decide, fun _ h => absurd h List.not_mem_nil⟩, by decide⟩
  have hprintable : redeclaredProduct.Printable := by
    rintro (_ | ⟨a, _ | ⟨b, _ | ⟨c, before⟩⟩⟩) s after heq
    · obtain ⟨rfl, -⟩ := List.cons.inj heq
      exact ⟨hident, by decide⟩
    · obtain ⟨rfl, -⟩ := List.cons.inj (List.cons.inj heq).2
      exact ⟨hident, by decide⟩
    · obtain ⟨rfl, htail⟩ := List.cons.inj heq
      obtain ⟨rfl, hlast⟩ := List.cons.inj htail
      obtain ⟨rfl, -⟩ := List.cons.inj hlast
      have hstring : ∀ c ∈ "a b".toList, c ≠ '"' ∧ c ≠ '\n' := by simp
      have hten : (0 : Int) ≤ 10 ∧ (10 : Int) ≤ maxInteger := by decide
      have htwo : (0 : Int) ≤ 2 ∧ (2 : Int) ≤ maxInteger := by decide
      exact ⟨⟨by decide, ⟨by decide, ⟨_, rfl, rfl⟩, hten⟩, by decide, htwo, hstring⟩, by decide⟩
    · have := congrArg List.length heq
      simp [redeclaredProduct] at this
  exact ⟨by decide, hprintable, parse_text_of_printable hprintable "unit" 8⟩

end SwiftDialect
