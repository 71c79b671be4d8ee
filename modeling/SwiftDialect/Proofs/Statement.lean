import SwiftDialect.Proofs.Stuck

/-!
# Reading statements

What the parser makes of the parse tree of a statement, and where reading a statement stops. A
declaration changes the innermost scope; everything else leaves the scopes alone.
-/

namespace SwiftDialect

/-! ### Declaring a name -/

namespace Scopes

/-- Declares a variable in the innermost scope. -/
def define (scopes : Scopes) (name : String) (d : Declaration) : Scopes :=
  match scopes.mappings with
  | [] => scopes
  | innermost :: rest => ⟨(innermost.insert ⟨name, .var, some d⟩).2 :: rest⟩

/-- Does the innermost scope know the name? -/
def knows (scopes : Scopes) (name : String) : Bool :=
  match scopes.mappings with
  | [] => false
  | innermost :: _ => innermost.contains name

theorem mappings_define {scopes : Scopes} {m : Mapping} {rest : List Mapping}
    (h : scopes.mappings = m :: rest) (name : String) (d : Declaration) :
    (scopes.define name d).mappings = (m.insert ⟨name, .var, some d⟩).2 :: rest := by
  simp [define, h]

end Scopes

namespace Sentence

/-- The type that a type token stands for. -/
def typeName (t : Token) : TypeName :=
  (TypeName.ofKeyword? t.kind).getD default

/-- The binding that the first token of a declaration stands for. -/
def binding (t : Token) : Binding :=
  (Binding.ofKeyword? t.kind).getD default

/-- The scopes after the statement. -/
def effect (scopes : Scopes) : Sentence → Scopes
  | .declaration intro ident _ type _ =>
    scopes.define ident.1.text ⟨intro.1.location, typeName type.1, binding intro.1⟩
  | .evaluation .. => scopes

/-- The statement that the tree stands for. -/
def stmt (scopes : Scopes) : Sentence → Stmt
  | .declaration intro ident _ type _ =>
    .declare ⟨ident.1.text, ⟨typeName type.1, type.1.location⟩, binding intro.1, intro.1.location⟩
  | .evaluation expr _ => .eval (expr.value scopes)

/-- The warning that a declaration draws if its name is known already. -/
def warning (scopes : Scopes) (ident : Token) : List Move :=
  if scopes.knows ident.text then [blame (.redeclaredName ident.text) ident] else []

/-- The moves that read the statement. -/
def moves (scopes : Scopes) : Sentence → List Move
  | .declaration _ ident .. =>
    .record .parsingStatement :: (List.replicate 5 .skip ++ warning scopes ident.1)
  | .evaluation expr _ =>
    .record .parsingStatement :: .peek :: .record .parsingExpression :: (expr.moves ++ [.skip])

/-- Can the statement be read in these scopes? -/
def Fits (scopes : Scopes) : Sentence → Prop
  | .declaration _ ident .. => ident.1.text ≠ ""
  | .evaluation expr _ => expr.Fits scopes maxNesting

theorem skipCount_moves (scopes : Scopes) (s : Sentence) :
    skipCount (s.moves scopes) = s.tokens.length := by
  cases s with
  | declaration intro ident colon type semicolon =>
    simp only [moves, warning]
    split <;> rfl
  | evaluation expr semicolon =>
    have := expr.skipCount_moves
    simp only [skipCount] at this
    simp [moves, tokens, skipCount, this]

end Sentence

theorem typeName_of_mem {k : TokenKind} (h : k ∈ typeKinds) :
    TypeName.ofKeyword? k = some ((TypeName.ofKeyword? k).getD default) := by
  cases k <;> first | rfl | simp [typeKinds] at h

theorem binding_of_mem {k : TokenKind} (h : k ∈ [TokenKind.kwLet, TokenKind.kwVar]) :
    Binding.ofKeyword? k = some ((Binding.ofKeyword? k).getD default) := by
  cases k <;> first | rfl | simp at h

/-- The kinds of token that a statement made of an expression is recognised by. -/
def evaluationKinds : List TokenKind :=
  [.identifier, .kwIf, .integerLiteral, .floatLiteral, .stringLiteral, .leftParen, .rightParen,
   .plus, .minus]

theorem Terminal.kind_mem {kinds kinds' : List TokenKind} (t : Terminal kinds)
    (h : ∀ k ∈ kinds, k ∈ kinds') : t.1.kind ∈ kinds' :=
  h _ t.2

/-- The first token of an expression. -/
theorem Tree.head_kind {f : Phrase} (t : Tree f) :
    ∃ x xs, t.tokens = x :: xs ∧ x.kind ∈ evaluationKinds ∧ x.kind ≠ .rightParen := by
  induction t with
  | leaf t =>
    exact ⟨t.1, [], rfl, t.kind_mem (by decide), t.kind_ne (by decide)⟩
  | sign t e _ =>
    exact ⟨t.1, e.tokens, rfl, t.kind_mem (by decide), t.kind_ne (by decide)⟩
  | group l e r _ =>
    exact ⟨l.1, _, rfl, l.kind_mem (by decide), l.kind_ne (by decide)⟩
  | single e ih => exact ih
  | chain l op r ih _ =>
    obtain ⟨x, xs, hx, hk⟩ := ih
    exact ⟨x, xs ++ op.1 :: r.tokens, by simp [tokens, hx], hk⟩

namespace Parser

variable {τ : Type}

/-- The parser with other scopes open. -/
def within (p : Parser τ) (scopes : Scopes) : Parser τ :=
  { p with scopes }

@[simp] theorem scopes_within (p : Parser τ) (s : Scopes) : (p.within s).scopes = s := rfl

@[simp] theorem within_within (p : Parser τ) (s t : Scopes) : (p.within s).within t = p.within t := rfl

@[simp] theorem within_scopes (p : Parser τ) : p.within p.scopes = p := rfl

variable [TokenSource τ]

@[simp] theorem play_within (p : Parser τ) (s : Scopes) (ms : List Move) :
    (p.within s).play ms = (p.play ms).within s := rfl

@[simp] theorem peeked_within (p : Parser τ) (s : Scopes) : (p.within s).peeked = p.peeked.within s :=
  rfl

@[simp] theorem skipped_within (p : Parser τ) (s : Scopes) :
    (p.within s).skipped = p.skipped.within s := rfl

@[simp] theorem recorded_within (p : Parser τ) (s : Scopes) (e : Event) :
    (p.within s).recorded e = (p.recorded e).within s := rfl

@[simp] theorem next_within (p : Parser τ) (s : Scopes) : (p.within s).next = p.next := rfl

@[simp] theorem yields_within (p : Parser τ) (s : Scopes) (ts : List Token) :
    (p.within s).Yields ts ↔ p.Yields ts := Iff.rfl

end Parser

namespace Parse

variable {τ : Type} [TokenSource τ]

/-! ### Declarations -/

theorem declare_run {p : Parser τ} (hopen : p.scopes.mappings ≠ []) {ident : Token}
    (hname : ident.text ≠ "") (d : Declaration) :
    declare ident d p = (.ok (),
      (p.play (Sentence.warning p.scopes ident)).within (p.scopes.define ident.text d)) := by
  obtain ⟨m, rest, hm⟩ := List.exists_cons_of_ne_nil hopen
  -- the token has a text, so the symbol can be made; and a scope is open to take it
  have hmake : Symbol.make ident.text .var = .ok { name := ident.text, kind := .var } := by
    simp [Symbol.make, hname]
  have hknows : p.scopes.knows ident.text = m.contains ident.text := by simp [Scopes.knows, hm]
  have hdefine : p.scopes.define ident.text d =
      ⟨(m.insert ⟨ident.text, .var, some d⟩).2 :: rest⟩ := by
    simp [Scopes.define, hm]
  rw [hdefine, Sentence.warning, hknows]
  cases hc : m.contains ident.text <;>
    simp [declare, bind_run, Scopes.current, hm, hc, hmake, Symbol.bind, Scopes.insert, blame,
      Parser.within]

theorem type_ok {p : Parser τ} (h : p.next.kind ∈ typeKinds) :
    type p = (.ok ⟨Sentence.typeName p.next, p.next.location⟩, p.skipped) := by
  have hname := typeName_of_mem h
  simp only [type, bind_run, peek_run]
  rw [hname]
  simp [bind_run, Sentence.typeName]

theorem type_error {p : Parser τ} (h : p.next.kind ∉ typeKinds) :
    type p = (.error .rejected, p.peeked.recorded (.reported
      ((Problem.unexpectedToken p.next.kind.display).diagnose p.next.location))) := by
  have hname : TypeName.ofKeyword? p.next.kind = none := by
    revert h
    cases p.next.kind <;> simp [typeKinds, TypeName.ofKeyword?]
  simp [type, bind_run, hname]

/-- What is left to do after the colon of a declaration. -/
def declarationTail (intro ident : Token) : Parse τ Stmt := do
  let type ← type
  skipExpected .semicolon
  declare ident ⟨intro.location, type.kind, Sentence.binding intro⟩
  return .declare ⟨ident.text, type, Sentence.binding intro, intro.location⟩

section

variable {p : Parser τ} {intro : Terminal [.kwLet, .kwVar]} {ident : Terminal [.identifier]}
  {colon : Terminal [.colon]} {rest : List Token}

theorem varDecl_intro (hy : p.Yields (intro.1 :: rest)) :
    varDecl p = (do
      let ident ← expect .identifier
      skip
      skipExpected .colon
      declarationTail intro.1 ident : Parse τ Stmt) p.skipped := by
  have hplace : intro.1.location = p.next.location := by rw [hy.next_eq]
  have hbinding : Binding.ofKeyword? p.next.kind = some (Sentence.binding intro.1) := by
    rw [hy.next_eq]
    exact binding_of_mem intro.2
  simp [varDecl, bind_run, hbinding, hplace, declarationTail]

theorem varDecl_ident (hy : p.Yields (intro.1 :: ident.1 :: rest)) :
    varDecl p = (do
      skipExpected .colon
      declarationTail intro.1 ident.1 : Parse τ Stmt) p.skipped.skipped := by
  have hnext := hy.skipped.next_eq
  have hident := expect_ok (k := .identifier) (p := p.skipped)
    (by rw [hnext]; exact List.mem_singleton.1 ident.2)
  rw [varDecl_intro hy, bind_ok hident, bind_ok (skip_run _), Parser.skipped_peeked, hnext]

theorem varDecl_colon (hy : p.Yields (intro.1 :: ident.1 :: colon.1 :: rest)) :
    varDecl p = declarationTail intro.1 ident.1 p.skipped.skipped.skipped := by
  have hcolon := skipExpected_ok (k := .colon) (p := p.skipped.skipped)
    (by rw [hy.skipped.skipped.next_eq]; exact List.mem_singleton.1 colon.2)
  rw [varDecl_ident hy, bind_ok hcolon]

end

theorem varDecl_ok {p : Parser τ} (hopen : p.scopes.mappings ≠ [])
    {intro : Terminal [.kwLet, .kwVar]} {ident : Terminal [.identifier]} {colon : Terminal [.colon]}
    {type : Terminal typeKinds} {semicolon : Terminal [.semicolon]} (hname : ident.1.text ≠ "")
    {rest : List Token}
    (hy : p.Yields ([intro.1, ident.1, colon.1, type.1, semicolon.1] ++ rest)) :
    varDecl p = (.ok ((Sentence.declaration intro ident colon type semicolon).stmt p.scopes),
      (p.play (List.replicate 5 .skip ++ Sentence.warning p.scopes ident.1)).within
        ((Sentence.declaration intro ident colon type semicolon).effect p.scopes)) := by
  have hy3 := hy.skipped.skipped.skipped
  -- each expected token is there, so every step skips one
  have htype := type_ok (p := p.skipped.skipped.skipped) (by rw [hy3.next_eq]; exact type.2)
  have hsemi := skipExpected_ok (k := .semicolon) (p := p.skipped.skipped.skipped.skipped)
    (by rw [hy3.skipped.next_eq]; exact List.mem_singleton.1 semicolon.2)
  have hdeclare := declare_run (p := p.skipped.skipped.skipped.skipped.skipped) hopen hname
    ⟨intro.1.location, Sentence.typeName type.1, Sentence.binding intro.1⟩
  rw [varDecl_colon hy, declarationTail, bind_ok htype, bind_ok hsemi, hy3.next_eq,
    bind_ok hdeclare]
  rfl

/-! ### Expressions that stand as statements -/

theorem expressionWithin_run {p : Parser τ} (hdepth : p.depth = 0) (bound : Nat) :
    expressionWithin bound p =
      ofPhrase bound maxNesting .expr (p.recorded .parsingExpression) := by
  have hroom : (room : Parse τ Nat) p = (.ok maxNesting, p) := by
    simp [room, bind_run, depth, hdepth]
  rw [expressionWithin, bind_ok hroom, expressionWith, bind_ok (record_run _ _), ofPhrase]

variable [LawfulTokenSource τ]

/-- An expression is read up to the first token that is no operator. -/
theorem expressionWithin_ok {p : Parser τ} (hopen : p.scopes.mappings ≠ []) (hdepth : p.depth = 0)
    {e : Tree .expr} (he : e.Fits p.scopes maxNesting) {bound : Nat}
    (hbound : e.tokens.length ≤ bound) {next : Token} {rest : List Token}
    (hop : next.kind ∉ operatorKinds) (hy : p.Yields (e.tokens ++ next :: rest)) :
    expressionWithin bound p =
      (.ok (e.value p.scopes), ((p.recorded .parsingExpression).play e.moves).peeked) := by
  obtain ⟨hcl, hall⟩ := reads_tree (τ := τ) hopen e he hbound
  have hlen : (e.spine p.scopes).tokens.length ≤ bound := by rwa [Tree.tokens_spine]
  have hrun := binaryWith_spine (p := p.recorded .parsingExpression) hcl hall
    (by decide : levelsFrom 0 ≤ BinaryOp.levels) hlen rfl
    (by rw [Tree.tokens_spine]; exact hy.recorded _) (stops_of_notMem hop 0)
  rw [Tree.moves_spine] at hrun
  rw [expressionWithin_run hdepth]
  exact hrun

theorem next_after_expression {p : Parser τ} {e : Tree .expr} {next : Token} {rest : List Token}
    (hy : p.Yields (e.tokens ++ next :: rest)) :
    ((p.recorded .parsingExpression).play e.moves).peeked.next = next := by
  rw [Parser.next_peeked]
  exact ((hy.recorded _).play e.skipCount_moves).next_eq

theorem evaluationWithin_ok {p : Parser τ} (hopen : p.scopes.mappings ≠ []) (hdepth : p.depth = 0)
    {e : Tree .expr} (he : e.Fits p.scopes maxNesting) {semicolon : Terminal [.semicolon]}
    {bound : Nat} (hbound : e.tokens.length ≤ bound) {rest : List Token}
    (hy : p.Yields (e.tokens ++ semicolon.1 :: rest)) :
    evaluationWithin bound p = (.ok (.eval (e.value p.scopes)),
      p.play (.record .parsingExpression :: (e.moves ++ [.skip]))) := by
  have hop : semicolon.1.kind ∉ operatorKinds := by
    rw [List.mem_singleton.1 semicolon.2]; decide
  have hexpr := expressionWithin_ok hopen hdepth he hbound hop hy
  have hsemi := skipExpected_ok (k := .semicolon)
    (p := ((p.recorded .parsingExpression).play e.moves).peeked)
    (by rw [next_after_expression hy]; exact List.mem_singleton.1 semicolon.2)
  rw [evaluationWithin, bind_ok hexpr, bind_ok hsemi]
  simp

/-! ### Statements -/

theorem statementWithin_declare {p : Parser τ} (bound : Nat)
    (h : p.next.kind ∈ [TokenKind.kwLet, TokenKind.kwVar]) :
    statementWithin bound p = varDecl (p.recorded .parsingStatement) := by
  simp only [List.mem_cons, List.not_mem_nil, or_false] at h
  rcases h with h | h <;>
    simp [statementWithin, bind_run, h, varDecl]

theorem statementWithin_evaluate {p : Parser τ} (bound : Nat)
    (h : p.next.kind ∈ evaluationKinds) :
    statementWithin bound p = evaluationWithin bound (p.recorded .parsingStatement).peeked := by
  revert h
  cases h : p.next.kind <;> simp [evaluationKinds, statementWithin, bind_run, h]

/-- A statement that fits is read. -/
theorem statementWithin_ok {p : Parser τ} (hopen : p.scopes.mappings ≠ []) (hdepth : p.depth = 0)
    {s : Sentence} (hs : s.Fits p.scopes) {bound : Nat} (hbound : s.tokens.length ≤ bound)
    {rest : List Token} (hy : p.Yields (s.tokens ++ rest)) :
    statementWithin bound p = (.ok (s.stmt p.scopes),
      (p.play (s.moves p.scopes)).within (s.effect p.scopes)) := by
  cases s with
  | declaration intro ident colon type semicolon =>
    -- the first token decides which procedure is called
    have hk : p.next.kind ∈ [TokenKind.kwLet, TokenKind.kwVar] := by
      rw [hy.next_eq]; exact intro.2
    rw [statementWithin_declare bound hk,
      varDecl_ok (p := p.recorded .parsingStatement) hopen hs (hy.recorded _)]
    rfl
  | evaluation e semicolon =>
    obtain ⟨x, xs, hx, hkind, -⟩ := e.head_kind
    simp only [Sentence.tokens, List.length_append, List.length_singleton] at hbound
    simp only [Sentence.tokens, List.append_assoc, List.singleton_append] at hy
    have hk : p.next.kind ∈ evaluationKinds := by
      rw [hx] at hy
      rw [hy.next_eq]; exact hkind
    rw [statementWithin_evaluate bound hk,
      evaluationWithin_ok (p := (p.recorded .parsingStatement).peeked) hopen hdepth hs
        (by omega : e.tokens.length ≤ bound) (hy.recorded _).peeked]
    rfl

end Parse

/-! ### Where reading a statement stops -/

/-- After `used` has been read of a statement, the token `bad` poses a problem. -/
inductive StuckSentence (scopes : Scopes) :
    List Token → Token → Problem → List Move → Prop where
  | loop {bad : Token} (hk : bad.kind = .kwWhile) :
      StuckSentence scopes [] bad (.unsupported "while statements")
        [.record .parsingStatement, .peek]
  | start {bad : Token} (hk : bad.kind ∉ .kwLet :: .kwVar :: .kwWhile :: evaluationKinds) :
      StuckSentence scopes [] bad (.unexpectedToken bad.kind.display)
        [.record .parsingStatement, .peek]
  | name (intro : Terminal [.kwLet, .kwVar]) {bad : Token} (hk : bad.kind ≠ .identifier) :
      StuckSentence scopes [intro.1] bad (missing .identifier bad)
        [.record .parsingStatement, .skip, .peek]
  | colon (intro : Terminal [.kwLet, .kwVar]) (ident : Terminal [.identifier]) {bad : Token}
      (hk : bad.kind ≠ .colon) :
      StuckSentence scopes [intro.1, ident.1] bad (missing .colon bad)
        [.record .parsingStatement, .skip, .skip, .peek]
  | type (intro : Terminal [.kwLet, .kwVar]) (ident : Terminal [.identifier])
      (colon : Terminal [.colon]) {bad : Token} (hk : bad.kind ∉ typeKinds) :
      StuckSentence scopes [intro.1, ident.1, colon.1] bad (.unexpectedToken bad.kind.display)
        [.record .parsingStatement, .skip, .skip, .skip, .peek]
  | endless (intro : Terminal [.kwLet, .kwVar]) (ident : Terminal [.identifier])
      (colon : Terminal [.colon]) (type : Terminal typeKinds) {bad : Token}
      (hk : bad.kind ≠ .semicolon) :
      StuckSentence scopes [intro.1, ident.1, colon.1, type.1] bad (missing .semicolon bad)
        [.record .parsingStatement, .skip, .skip, .skip, .skip, .peek]
  | inside {used : List Token} {bad : Token} {pr : Problem} {moves : List Move}
      (hk : (used.headD bad).kind ∈ evaluationKinds)
      (h : Stuck scopes .expr maxNesting used bad pr moves) :
      StuckSentence scopes used bad pr
        (.record .parsingStatement :: .peek :: .record .parsingExpression :: moves)
  | unfinished {e : Tree .expr} (he : e.Fits scopes maxNesting) {bad : Token}
      (hop : bad.kind ∉ operatorKinds) (hk : bad.kind ≠ .semicolon) :
      StuckSentence scopes e.tokens bad (missing .semicolon bad)
        (.record .parsingStatement :: .peek :: .record .parsingExpression ::
          (e.moves ++ [.peek]))

namespace Parse

variable {τ : Type} [TokenSource τ] [LawfulTokenSource τ]

/-- Whatever is stuck is rejected, no matter what follows. -/
theorem statementWithin_stuck {p : Parser τ} (hopen : p.scopes.mappings ≠ [])
    (hdepth : p.depth = 0) {used : List Token} {bad : Token} {pr : Problem} {moves : List Move}
    (h : StuckSentence p.scopes used bad pr moves) {bound : Nat} (hbound : used.length ≤ bound)
    {rest : List Token} (hy : p.Yields (used ++ bad :: rest)) :
    statementWithin bound p = (.error .rejected, p.play (moves ++ [blame pr bad])) := by
  cases h with
  | loop hk =>
    obtain rfl : p.next = bad := hy.next_eq
    simp [statementWithin, bind_run, hk, loop, blame]
  | start hk =>
    obtain rfl : p.next = bad := hy.next_eq
    revert hk
    cases hk : p.next.kind <;> simp [evaluationKinds, statementWithin, bind_run, hk, blame]
  | name intro hk =>
    have hy' := hy.recorded .parsingStatement
    -- the steps of a declaration go as they do for one that fits, up to the token that is missing
    have hnext := hy'.skipped.next_eq
    rw [statementWithin_declare bound (by rw [hy.next_eq]; exact intro.2), varDecl_intro hy',
      bind_error (expect_error (by rw [hnext]; exact hk)), hnext]
    rfl
  | colon intro ident hk =>
    have hy' := hy.recorded .parsingStatement
    have hnext := hy'.skipped.skipped.next_eq
    rw [statementWithin_declare bound (by rw [hy.next_eq]; exact intro.2), varDecl_ident hy',
      bind_error (skipExpected_error (by rw [hnext]; exact hk)), hnext]
    rfl
  | type intro ident colon hk =>
    have hy' := hy.recorded .parsingStatement
    have hnext := hy'.skipped.skipped.skipped.next_eq
    rw [statementWithin_declare bound (by rw [hy.next_eq]; exact intro.2), varDecl_colon hy',
      declarationTail, bind_error (type_error (by rw [hnext]; exact hk)), hnext]
    rfl
  | endless intro ident colon type hk =>
    have hy' := hy.recorded .parsingStatement
    have hy3 := hy'.skipped.skipped.skipped
    have hnext := hy3.skipped.next_eq
    rw [statementWithin_declare bound (by rw [hy.next_eq]; exact intro.2), varDecl_colon hy',
      declarationTail, bind_ok (type_ok (by rw [hy3.next_eq]; exact type.2)),
      bind_error (skipExpected_error (by rw [hnext]; exact hk)), hnext]
    rfl
  | @inside _ _ _ moves hk h =>
    -- the expression may be rejected at its first token, so that one is used or bad
    have hfirst : p.next = used.headD bad := by
      cases used <;> exact hy.next_eq
    have hrun := sticks_of_stuck (τ := τ) hopen h hbound
      ((p.recorded .parsingStatement).peeked.recorded .parsingExpression) rest rfl
      ((hy.recorded _).peeked.recorded _)
    rw [statementWithin_evaluate bound (by rw [hfirst]; exact hk), evaluationWithin]
    have hexpr := expressionWithin_run (p := (p.recorded .parsingStatement).peeked) hdepth bound
    rw [bind_error (hexpr.trans hrun)]
    rfl
  | @unfinished e he _ hop hk =>
    obtain ⟨x, xs, hx, hkind, -⟩ := e.head_kind
    have hfirst : p.next.kind ∈ evaluationKinds := by
      rw [hx] at hy
      rw [hy.next_eq]; exact hkind
    have hy' := (hy.recorded .parsingStatement).peeked
    -- the expression is complete; what is rejected is the token in place of the semicolon
    have hexpr := expressionWithin_ok (p := (p.recorded .parsingStatement).peeked) hopen hdepth he
      hbound hop hy'
    have hnext := next_after_expression hy'
    rw [statementWithin_evaluate bound hfirst, evaluationWithin, bind_ok hexpr,
      bind_error (skipExpected_error (by rw [hnext]; exact hk)), hnext]
    simp [blame, missing]

end Parse

/-! ### Either a statement or stuck -/

/-- No identifier among these is empty. -/
def Named (ts : List Token) : Prop :=
  ∀ t ∈ ts, t.kind = .identifier → t.text ≠ ""

/-- The tokens begin with a statement that fits. -/
def StartsSentence (scopes : Scopes) (ts : List Token) : Prop :=
  ∃ (s : Sentence) (rest : List Token), ts = s.tokens ++ rest ∧ s.Fits scopes

/-- Reading a statement gets stuck within the tokens. -/
def SentenceGetsStuck (scopes : Scopes) (ts : List Token) : Prop :=
  ∃ (used : List Token) (bad : Token) (rest : List Token) (pr : Problem) (moves : List Move),
    ts = used ++ bad :: rest ∧ StuckSentence scopes used bad pr moves

/-- A statement that begins like a declaration. -/
theorem declaration_or_stuck {scopes : Scopes} (intro : Terminal [.kwLet, .kwVar])
    {ts : List Token} (hend : HasEnd ts) (hnamed : Named ts) :
    StartsSentence scopes (intro.1 :: ts) ∨ SentenceGetsStuck scopes (intro.1 :: ts) := by
  -- none of the expected tokens is the end, so there is a next token to look at each time
  obtain ⟨ident, ts, rfl⟩ := hend.exists_cons
  by_cases hident : ident.kind = .identifier
  swap
  · exact .inr ⟨_, ident, ts, _, _, rfl, .name intro hident⟩
  replace hend := hend.tail (by rw [hident]; decide)
  obtain ⟨colon, ts, rfl⟩ := hend.exists_cons
  let ident' : Terminal [.identifier] := ⟨ident, List.mem_singleton.2 hident⟩
  by_cases hcolon : colon.kind = .colon
  swap
  · exact .inr ⟨[intro.1, ident], colon, ts, _, _, rfl, .colon intro ident' hcolon⟩
  replace hend := hend.tail (by rw [hcolon]; decide)
  obtain ⟨type, ts, rfl⟩ := hend.exists_cons
  let colon' : Terminal [.colon] := ⟨colon, List.mem_singleton.2 hcolon⟩
  by_cases htype : type.kind ∈ typeKinds
  swap
  · exact .inr ⟨[intro.1, ident, colon], type, ts, _, _, rfl, .type intro ident' colon' htype⟩
  replace hend := hend.tail (Terminal.kind_ne ⟨type, htype⟩ (by decide))
  obtain ⟨semicolon, ts, rfl⟩ := hend.exists_cons
  by_cases hsemi : semicolon.kind = .semicolon
  swap
  · exact .inr ⟨[intro.1, ident, colon, type], semicolon, ts, _, _, rfl,
      .endless intro ident' colon' ⟨type, htype⟩ hsemi⟩
  refine .inl ⟨.declaration intro ident' colon' ⟨type, htype⟩
    ⟨semicolon, List.mem_singleton.2 hsemi⟩, ts, rfl, ?_⟩
  exact hnamed ident List.mem_cons_self hident

/-- A statement that begins like an expression. -/
theorem evaluation_or_stuck {scopes : Scopes} {t : Token} {ts : List Token}
    (hk : t.kind ∈ evaluationKinds) (hend : HasEnd (t :: ts)) :
    StartsSentence scopes (t :: ts) ∨ SentenceGetsStuck scopes (t :: ts) := by
  rcases expr_or_stuck (operand_or_stuck scopes maxNesting) hend with
    ⟨e, next, rest, heq, hop, he⟩ | ⟨used, bad, rest, pr, moves, heq, hs⟩
  · by_cases hsemi : next.kind = .semicolon
    · refine .inl ⟨.evaluation e ⟨next, List.mem_singleton.2 hsemi⟩, rest, ?_, he⟩
      simp [Sentence.tokens, heq]
    · exact .inr ⟨_, next, rest, _, _, heq, .unfinished he hop hsemi⟩
  · have hfirst : used.headD bad = t := by
      cases used <;> simp_all
    exact .inr ⟨used, bad, rest, pr, _, heq, .inside (by rw [hfirst]; exact hk) hs⟩

/-- Every sequence of tokens begins with a statement, or reading one gets stuck. -/
theorem sentence_or_stuck (scopes : Scopes) {ts : List Token} (hend : HasEnd ts)
    (hnamed : Named ts) : StartsSentence scopes ts ∨ SentenceGetsStuck scopes ts := by
  obtain ⟨t, rest, rfl⟩ := hend.exists_cons
  by_cases hdecl : t.kind ∈ [TokenKind.kwLet, .kwVar]
  · have hne : t.kind ≠ .endOfFile := Terminal.kind_ne ⟨t, hdecl⟩ (by decide)
    exact declaration_or_stuck ⟨t, hdecl⟩ (hend.tail hne)
      fun x hx => hnamed x (List.mem_cons_of_mem _ hx)
  by_cases heval : t.kind ∈ evaluationKinds
  · exact evaluation_or_stuck heval hend
  refine .inr ⟨[], t, rest, ?_⟩
  by_cases hloop : t.kind = .kwWhile
  · exact ⟨_, _, rfl, .loop hloop⟩
  · refine ⟨_, _, rfl, .start ?_⟩
    simp_all

end SwiftDialect
