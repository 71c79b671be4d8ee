import Mathlib.Data.List.Forall2
import SwiftDialect.Proofs.Positions
import SwiftDialect.Proofs.Hearing

/-!
# From the tree back to the tokens

A syntax tree says what its tokens were, in order, apart from parentheses: each node stands for one token
whose value it holds, and most nodes hold the place of that token as well. What a tree says of a token is
called a *mark*. Parentheses leave no marks; they only group, and each statement closes all that it opens.

Main statement: the tokens of a program are those that its tree marks, in order, with balanced
parentheses among them (`tree_marks_tokens`).
-/

namespace SwiftDialect

/-! ### Marks -/

/-- What a tree says of one of its tokens. -/
inductive Mark where
  | integer (value : Int) (place : Location)
  | float (value : Binary64) (place : Location)
  | string (value : String) (place : Location)
  | name (ident : String) (place : Location)
  /-- An operator before its operand. -/
  | sign (op : UnaryOp) (place : Location)
  /-- An operator between its operands. -/
  | operator (op : BinaryOp)
  /-- The word that introduces a declaration. -/
  | intro (binding : Binding) (place : Location)
  /-- The name that is declared. -/
  | ident (name : String)
  | colon
  | type (kind : TypeName) (place : Location)
  | semicolon
  /-- A form that no tokens spell. -/
  | unwritten

namespace Mark

/-- Is this the token that the tree speaks of? -/
def Of (t : Token) : Mark → Prop
  | .integer n l => t.kind = .integerLiteral ∧ (decimalValue t.text : Int) = n ∧ t.location = l
  | .float x l =>
    t.kind = .floatLiteral ∧ Binary64.ofDecimal? t.text.toList = some x ∧ t.location = l
  | .string s l => t.kind = .stringLiteral ∧ t.text = s ∧ t.location = l
  | .name x l => t.kind = .identifier ∧ t.text = x ∧ t.location = l
  | .sign op l => t.kind = op.kind ∧ t.location = l
  | .operator op => t.kind = op.kind
  | .intro b l => t.kind = b.kind ∧ t.location = l
  | .ident x => t.kind = .identifier ∧ t.text = x
  | .colon => t.kind = .colon
  | .type k l => t.kind = k.kind ∧ t.location = l
  | .semicolon => t.kind = .semicolon
  | .unwritten => False

/-- The place of the token, if the tree holds it. -/
def place? : Mark → Option Location
  | .integer _ l | .float _ l | .string _ l | .name _ l | .sign _ l | .intro _ l | .type _ l => some l
  | .operator _ | .ident _ | .colon | .semicolon | .unwritten => none

theorem Of.place {m : Mark} {t : Token} (h : m.Of t) : ∀ l ∈ m.place?, l = t.location := by
  intro l hl
  cases m <;> simp_all [Of, place?]

end Mark

/-- The marks of an expression, from left to right. -/
def Expr.marks : Expr → List Mark
  | .integer n l => [.integer n l]
  | .float x l => [.float x l]
  | .string s l => [.string s l]
  | .name x _ l => [.name x l]
  | .unary op e l => .sign op l :: e.marks
  | .binary op l r => l.marks ++ .operator op :: r.marks
  | .ifThen .. | .ifThenElse .. => [.unwritten]

/-- The marks of a statement, from left to right. -/
def Stmt.marks : Stmt → List Mark
  | .declare d => [.intro d.binding d.location, .ident d.ident, .colon,
      .type d.type.kind d.type.location, .semicolon]
  | .eval e => e.marks ++ [.semicolon]
  | .loop .. => [.unwritten]

/-- The expression and everything in it. -/
def Expr.parts : Expr → List Expr
  | .unary op e l => .unary op e l :: e.parts
  | .binary op l r => .binary op l r :: (l.parts ++ r.parts)
  | .ifThen c t l => .ifThen c t l :: (c.parts ++ t.parts)
  | .ifThenElse c t e l => .ifThenElse c t e l :: (c.parts ++ (t.parts ++ e.parts))
  | e => [e]

mutual

/-- The expressions in a statement. -/
def Stmt.parts : Stmt → List Expr
  | .declare _ => []
  | .eval e => e.parts
  | .loop c body _ => c.parts ++ Stmt.allParts body

/-- The expressions in some statements. -/
def Stmt.allParts : List Stmt → List Expr
  | [] => []
  | s :: ss => s.parts ++ Stmt.allParts ss

end

/-! ### Places -/

/-- The places that the nodes of an expression hold, from left to right. -/
def Expr.places : Expr → List Location
  | .integer _ l | .float _ l | .string _ l | .name _ _ l => [l]
  | .unary _ e l => l :: e.places
  | .binary _ l r => l.places ++ r.places
  | .ifThen c t l => l :: (c.places ++ t.places)
  | .ifThenElse c t e l => l :: (c.places ++ (t.places ++ e.places))

mutual

/-- The places that the nodes of a statement hold, from left to right. -/
def Stmt.places : Stmt → List Location
  | .declare d => [d.location, d.type.location]
  | .eval e => e.places
  | .loop c body l => l :: (c.places ++ Stmt.allPlaces body)

/-- The places that the nodes of some statements hold. -/
def Stmt.allPlaces : List Stmt → List Location
  | [] => []
  | s :: ss => s.places ++ Stmt.allPlaces ss

end

/-- An expression stands where its first node does. -/
theorem Expr.head?_places (e : Expr) : e.places.head? = some e.location := by
  induction e with
  | binary op l r ihl ihr => simp [places, location, ihl]
  | _ => rfl

theorem Stmt.head?_places (s : Stmt) : s.places.head? = some s.location := by
  cases s with
  | declare d => rfl
  | eval e => exact e.head?_places
  | loop c body l => rfl

/-- Statements stand at some of the places that their nodes hold. -/
theorem Stmt.sublist_allPlaces (ss : List Stmt) : (ss.map Stmt.location).Sublist (allPlaces ss) := by
  induction ss with
  | nil => exact .slnil
  | cons s ss ih =>
    have hfirst : [s.location].Sublist s.places := by
      obtain ⟨rest, hrest⟩ := List.head?_eq_some_iff.1 s.head?_places
      rw [hrest]
      exact (List.nil_sublist rest).cons_cons _
    rw [allPlaces]
    exact hfirst.append ih

/-- The places in a tree are those of its marks. -/
theorem Expr.filterMap_marks {e : Expr} (h : Mark.unwritten ∉ e.marks) :
    e.marks.filterMap Mark.place? = e.places := by
  induction e with
  | unary op e l ih =>
    rw [marks, List.mem_cons, not_or] at h
    simp [marks, places, Mark.place?, ih h.2]
  | binary op l r ihl ihr =>
    rw [marks, List.mem_append, List.mem_cons, not_or, not_or] at h
    rw [marks, places, List.filterMap_append, ihl h.1, ← ihr h.2.2]
    rfl
  | ifThen c t l => exact absurd List.mem_cons_self h
  | ifThenElse c t e l => exact absurd List.mem_cons_self h
  | _ => rfl

theorem Stmt.filterMap_marks {s : Stmt} (h : Mark.unwritten ∉ s.marks) :
    s.marks.filterMap Mark.place? = s.places := by
  cases s with
  | declare d => rfl
  | eval e =>
    rw [marks, List.mem_append, not_or] at h
    simp [marks, places, Mark.place?, Expr.filterMap_marks h.1]
  | loop c body l => exact absurd List.mem_cons_self h

theorem Stmt.filterMap_allMarks {ss : List Stmt} (h : Mark.unwritten ∉ ss.flatMap marks) :
    (ss.flatMap marks).filterMap Mark.place? = allPlaces ss := by
  induction ss with
  | nil => rfl
  | cons s ss ih =>
    rw [List.flatMap_cons, List.mem_append, not_or] at h
    rw [List.flatMap_cons, List.filterMap_append, filterMap_marks h.1, ih h.2, allPlaces]

/-! ### Marks and their tokens -/

/-- Is the token a parenthesis? -/
def Token.isParen (t : Token) : Bool :=
  t.kind = .leftParen || t.kind = .rightParen

theorem Token.isParen_of_sign (t : Token) {op : UnaryOp} (h : t.kind = op.kind) :
    t.isParen = false := by
  cases op <;> simp [isParen, h, UnaryOp.kind]

theorem Token.isParen_of_operator (t : Token) {op : BinaryOp} (h : t.kind = op.kind) :
    t.isParen = false := by
  cases op <;> simp [isParen, h, BinaryOp.kind]

/-- The tokens that leave marks. -/
def unparenthesized (ts : List Token) : List Token :=
  ts.filter (!·.isParen)

/-- These are the tokens that the tree speaks of, one by one. -/
def MarkedBy (ms : List Mark) (ts : List Token) : Prop :=
  List.Forall₂ (fun m t => m.Of t) ms (unparenthesized ts)

theorem MarkedBy.append {ms ns : List Mark} {ts us : List Token} (h : MarkedBy ms ts)
    (h' : MarkedBy ns us) : MarkedBy (ms ++ ns) (ts ++ us) := by
  rw [MarkedBy, unparenthesized, List.filter_append]
  exact List.rel_append h h'

theorem markedBy_cons {m : Mark} {ms : List Mark} {t : Token} {ts : List Token}
    (ht : t.isParen = false) (hm : m.Of t) (h : MarkedBy ms ts) : MarkedBy (m :: ms) (t :: ts) := by
  rw [MarkedBy, unparenthesized, List.filter_cons_of_pos (by simp [ht])]
  exact .cons hm h

theorem markedBy_paren {ms : List Mark} {t : Token} {ts : List Token} (ht : t.isParen)
    (h : MarkedBy ms ts) : MarkedBy ms (t :: ts) := by
  rw [MarkedBy, unparenthesized, List.filter_cons_of_neg (by simp [ht])]
  exact h

theorem MarkedBy.flatMap {ss : List Stmt} {blocks : List (List Token)}
    (h : List.Forall₂ (fun s block => MarkedBy s.marks block) ss blocks) :
    MarkedBy (ss.flatMap Stmt.marks) blocks.flatten := by
  induction h with
  | nil => exact .nil
  | cons hs _ ih => exact hs.append ih

/-- What has tokens is not unwritten. -/
theorem MarkedBy.unwritten_notMem {ms : List Mark} {ts : List Token} (h : MarkedBy ms ts) :
    Mark.unwritten ∉ ms := by
  rw [MarkedBy] at h
  generalize unparenthesized ts = us at h
  induction h with
  | nil => exact List.not_mem_nil
  | @cons m t ms us hm _ ih =>
    rintro (_ | ⟨_, hmem⟩)
    · exact hm
    · exact ih hmem

/-- The places that marks hold are places of their tokens, in the same order. -/
theorem MarkedBy.sublist_places {ms : List Mark} {ts : List Token} (h : MarkedBy ms ts) :
    (ms.filterMap Mark.place?).Sublist (ts.map Token.location) := by
  have hmarked : (ms.filterMap Mark.place?).Sublist ((unparenthesized ts).map Token.location) := by
    rw [MarkedBy] at h
    generalize unparenthesized ts = us at h
    induction h with
    | nil => exact .slnil
    | @cons m t ms us hm _ ih =>
      rw [List.filterMap_cons, List.map_cons]
      cases hplace : m.place? with
      | none => exact ih.cons _
      | some l =>
        rw [hm.place l hplace]
        exact ih.cons_cons _
  exact hmarked.trans (List.filter_sublist.map _)

/-! ### Parentheses -/

/-- Are all parentheses closed, `depth` of which are open before these tokens? -/
def balanced : Nat → List Token → Bool
  | depth, [] => depth == 0
  | depth, t :: ts =>
    if t.kind = .leftParen then balanced (depth + 1) ts
    else if t.kind = .rightParen then depth != 0 && balanced (depth - 1) ts
    else balanced depth ts

theorem balanced_cons {t : Token} (h : t.isParen = false) (depth : Nat) (ts : List Token) :
    balanced depth (t :: ts) = balanced depth ts := by
  obtain ⟨hl, hr⟩ : t.kind ≠ .leftParen ∧ t.kind ≠ .rightParen := by simpa [Token.isParen] using h
  rw [balanced, if_neg hl, if_neg hr]

theorem balanced_left {t : Token} (h : t.kind = .leftParen) (depth : Nat) (ts : List Token) :
    balanced depth (t :: ts) = balanced (depth + 1) ts := by
  rw [balanced, if_pos h]

theorem balanced_right {t : Token} (h : t.kind = .rightParen) (depth : Nat) (ts : List Token) :
    balanced (depth + 1) (t :: ts) = balanced depth ts := by
  rw [balanced, if_neg (by rw [h]; decide), if_pos h]
  rfl

/-- The first token that opens no parenthesis. -/
def firstInside? (ts : List Token) : Option Token :=
  ts.find? (·.kind != .leftParen)

/-! ### The tokens of an expression -/

namespace Expr

/-- The expression is made of these tokens, parentheses included. -/
inductive Spans : Expr → List Token → Prop
  | leaf {e : Expr} {m : Mark} {t : Token} : e.parts = [e] → e.marks = [m] → m.Of t →
      t.isParen = false → t.location = e.location → Spans e [t]
  | sign {op : UnaryOp} {e : Expr} {t : Token} {ts : List Token} : t.kind = op.kind → Spans e ts →
      Spans (.unary op e t.location) (t :: ts)
  | group {e : Expr} {l r : Token} {ts : List Token} : l.kind = .leftParen → r.kind = .rightParen →
      Spans e ts → Spans e (l :: (ts ++ [r]))
  | chain {op : BinaryOp} {a b : Expr} {t : Token} {ts us : List Token} : t.kind = op.kind →
      Spans a ts → Spans b us → Spans (.binary op a b) (ts ++ t :: us)

variable {e : Expr} {ts : List Token}

theorem Spans.markedBy (h : e.Spans ts) : MarkedBy e.marks ts := by
  induction h with
  | leaf _ hmarks hm hparen _ =>
    rw [hmarks]
    exact markedBy_cons hparen hm .nil
  | @sign op e t ts hk _ ih => exact markedBy_cons (t.isParen_of_sign hk) ⟨hk, rfl⟩ ih
  | @group e l r ts hl hr _ ih =>
    refine markedBy_paren (by simp [Token.isParen, hl]) ?_
    rw [← List.append_nil e.marks]
    exact ih.append (markedBy_paren (by simp [Token.isParen, hr]) .nil)
  | @chain op a b t ts us hk _ _ iha ihb =>
    exact iha.append (markedBy_cons (t.isParen_of_operator hk) hk ihb)

/-- An expression closes the parentheses that it opens, and no others. -/
theorem Spans.balanced_append (h : e.Spans ts) : ∀ (depth : Nat) (rest : List Token),
    balanced depth (ts ++ rest) = balanced depth rest := by
  induction h with
  | leaf _ _ _ hparen _ => exact fun depth rest => balanced_cons hparen depth rest
  | @sign op e t ts hk _ ih =>
    intro depth rest
    rw [List.cons_append, balanced_cons (t.isParen_of_sign hk), ih]
  | @group e l r ts hl hr _ ih =>
    intro depth rest
    rw [List.cons_append, balanced_left hl, List.append_assoc, ih, List.singleton_append,
      balanced_right hr]
  | @chain op a b t ts us hk _ _ iha ihb =>
    intro depth rest
    rw [List.append_assoc, iha, List.cons_append, balanced_cons (t.isParen_of_operator hk), ihb]

/-- An expression stands at its first token, parentheses aside. -/
theorem Spans.location_eq (h : e.Spans ts) :
    (firstInside? ts).map Token.location = some e.location := by
  have hhere : ∀ {t : Token}, t.isParen = false → ∀ ts, firstInside? (t :: ts) = some t := by
    intro t ht ts
    obtain ⟨hne, -⟩ : t.kind ≠ .leftParen ∧ t.kind ≠ .rightParen := by
      simpa [Token.isParen] using ht
    rw [firstInside?, List.find?_cons_of_pos (by simpa using hne)]
  have hmore : ∀ {ts : List Token} {l : Location}, (firstInside? ts).map Token.location = some l →
      ∀ us, (firstInside? (ts ++ us)).map Token.location = some l := by
    intro ts l hl us
    obtain ⟨t, ht, hplace⟩ := Option.map_eq_some_iff.1 hl
    rw [firstInside?, List.find?_append, ← firstInside?, ht]
    exact congrArg some hplace
  induction h with
  | leaf _ _ _ hparen hplace => rw [hhere hparen, Option.map_some, hplace]
  | sign hk _ _ => rw [hhere (Token.isParen_of_sign _ hk), Option.map_some, location]
  | group hl _ _ ih =>
    rw [firstInside?, List.find?_cons_of_neg (by simp [hl]), ← firstInside?]
    exact hmore ih _
  | chain _ _ _ ih _ => exact hmore ih _

/-- Each part of an expression is made of tokens that stand side by side. -/
theorem Spans.exists_of_part (h : e.Spans ts) : ∀ x ∈ e.parts, ∃ before own after,
    ts = before ++ (own ++ after) ∧ x.Spans own := by
  induction h with
  | @leaf e m t hparts hmarks hm hparen hplace =>
    rw [hparts]
    intro x hx
    obtain rfl := List.mem_singleton.1 hx
    exact ⟨[], [t], [], rfl, .leaf hparts hmarks hm hparen hplace⟩
  | @sign op e t ts hk he ih =>
    rintro x (_ | ⟨_, hx⟩)
    · exact ⟨[], t :: ts, [], by simp, .sign hk he⟩
    · obtain ⟨before, own, after, rfl, hown⟩ := ih x hx
      exact ⟨t :: before, own, after, rfl, hown⟩
  | @group e l r ts hl hr he ih =>
    intro x hx
    obtain ⟨before, own, after, rfl, hown⟩ := ih x hx
    exact ⟨l :: before, own, after ++ [r], by simp, hown⟩
  | @chain op a b t ts us hk ha hb iha ihb =>
    rintro x (_ | ⟨_, hx⟩)
    · exact ⟨[], ts ++ t :: us, [], by simp, .chain hk ha hb⟩
    · rcases List.mem_append.1 hx with hx | hx
      · obtain ⟨before, own, after, rfl, hown⟩ := iha x hx
        exact ⟨before, own, after ++ t :: us, by simp, hown⟩
      · obtain ⟨before, own, after, rfl, hown⟩ := ihb x hx
        exact ⟨ts ++ t :: before, own, after, by simp, hown⟩

end Expr

/-! ### Trees -/

theorem BinaryOp.kind_of_ofToken {k : TokenKind} {op : BinaryOp} (h : ofToken? k = some op) :
    k = op.kind := by
  cases k <;> simp [ofToken?] at h <;> subst h <;> rfl

theorem UnaryOp.kind_of_ofToken {k : TokenKind} {op : UnaryOp} (h : ofToken? k = some op) :
    k = op.kind := by
  cases k <;> simp [ofToken?] at h <;> subst h <;> rfl

theorem integerValue_eq {text : String} {n : Int} (h : integerValue text = .ok n) :
    (decimalValue text : Int) = n := by
  rw [integerValue] at h
  split at h
  · rw [decimalValue, ← digitsValue_eq_decimalValue]
    exact Except.ok.inj h
  · cases h

/-- The value of a literal or name is made of its token. -/
theorem spans_of_leafValue {scopes : Scopes} {t : Token} {v : Expr}
    (h : leafValue? scopes t = some v) : v.Spans [t] := by
  have hparen : t.isParen = false := by
    rcases Parse.kind_of_leafValue h with hk | hk | hk | hk <;> simp [Token.isParen, hk]
  unfold leafValue? at h
  split at h
  · next hk =>
    obtain ⟨n, hn, rfl⟩ := Option.map_eq_some_iff.1 h
    cases hvalue : integerValue t.text with
    | error e => simp [hvalue, Except.toOption] at hn
    | ok k =>
      obtain rfl : k = n := by simpa [hvalue, Except.toOption] using hn
      exact .leaf rfl rfl ⟨hk, integerValue_eq hvalue, rfl⟩ hparen rfl
  · next hk =>
    obtain ⟨x, hx, rfl⟩ := Option.map_eq_some_iff.1 h
    have hvalue : Binary64.ofDecimal? t.text.toList = some x := by
      rw [floatValue] at hx
      cases hd : Binary64.ofDecimal? t.text.toList <;> simp_all [Except.toOption]
    exact .leaf rfl rfl ⟨hk, hvalue, rfl⟩ hparen rfl
  · next hk =>
    obtain rfl := Option.some.inj h
    exact .leaf rfl rfl ⟨hk, rfl, rfl⟩ hparen rfl
  · next hk =>
    obtain ⟨symbol, -, rfl⟩ := Option.map_eq_some_iff.1 h
    exact .leaf rfl rfl ⟨hk, rfl, rfl⟩ hparen rfl
  · cases h

/-- Whatever the grouping, the operands stay in order. -/
theorem Spine.spans : ∀ {s : Spine} {min : Nat}, s.Climbs min →
    s.All (fun o => o.value.Spans o.tokens) → s.value.Spans s.tokens
  | .operand _, _, _, h => h
  | .node .., _, ⟨htok, _, hl, hr⟩, h =>
    .chain (BinaryOp.kind_of_ofToken htok) (spans hl h.1) (spans hr h.2)

theorem Tree.spans_operands {scopes : Scopes} {f : Phrase} (t : Tree f) : ∀ {room : Nat},
    t.Fits scopes room → (t.spine scopes).Climbs 0 ∧
      (t.spine scopes).All (fun o => o.value.Spans o.tokens) := by
  induction t with
  | leaf t =>
    intro room h
    obtain ⟨v, hv⟩ := Option.isSome_iff_exists.1 h.2
    rw [spine, hv]
    exact ⟨trivial, spans_of_leafValue hv⟩
  | sign t e ih =>
    intro room h
    obtain ⟨hcl, hall⟩ := ih h.2
    exact ⟨trivial, .sign (UnaryOp.kind_of_ofToken (sign_of_mem t.2)) (Spine.spans hcl hall)⟩
  | group l e r ih =>
    intro room h
    obtain ⟨hcl, hall⟩ := ih h.2
    exact ⟨trivial, .group (List.mem_singleton.1 l.2) (List.mem_singleton.1 r.2)
      (Spine.spans hcl hall)⟩
  | single e ih => exact ih
  | chain l op r ihl ihr =>
    intro room h
    obtain ⟨hcl, hall⟩ := ihl h.1
    obtain ⟨hclr, hallr⟩ := ihr h.2
    exact ⟨Spine.climbs_extend _ _ _ (operator_of_mem op.2) hcl (Nat.zero_le _),
      Spine.all_extend _ _ _ hall (Spine.spans hclr hallr)⟩

/-- The value of a tree is made of the tokens of the tree. -/
theorem Tree.spans {scopes : Scopes} {f : Phrase} {t : Tree f} {room : Nat}
    (h : t.Fits scopes room) : (t.value scopes).Spans t.tokens := by
  obtain ⟨hcl, hall⟩ := t.spans_operands h
  rw [← t.tokens_spine scopes]
  exact Spine.spans hcl hall

/-! ### Statements -/

/-- The tokens are those of the expression: they are the ones that it speaks of, with balanced
parentheses, and it stands at the first of them that opens none. -/
structure Expr.Covers (e : Expr) (ts : List Token) : Prop where
  marked : MarkedBy e.marks ts
  balanced : balanced 0 ts
  location : (firstInside? ts).map Token.location = some e.location

theorem Expr.Spans.covers {e : Expr} {ts : List Token} (h : e.Spans ts) : e.Covers ts := by
  have hbalanced := h.balanced_append 0 []
  rw [List.append_nil] at hbalanced
  exact ⟨h.markedBy, hbalanced, h.location_eq⟩

/-- The tokens are those of the statement, up to its semicolon, and so it is for each expression in it. -/
structure Stmt.Covers (s : Stmt) (ts : List Token) : Prop where
  marked : MarkedBy s.marks ts
  ends : ∃ init last, ts = init ++ [last] ∧ last.kind = .semicolon
  balanced : balanced 0 ts
  parts : ∀ e ∈ s.parts, ∃ before own after, ts = before ++ (own ++ after) ∧ e.Covers own

namespace Sentence

theorem typeName_kind {t : Token} (h : t.kind ∈ typeKinds) : t.kind = (typeName t).kind := by
  unfold typeName
  revert h
  cases t.kind <;> first | exact fun _ => rfl | exact fun h => absurd h (by decide)

theorem binding_kind {t : Token} (h : t.kind ∈ [TokenKind.kwLet, TokenKind.kwVar]) :
    t.kind = (binding t).kind := by
  unfold binding
  revert h
  cases t.kind <;> first | exact fun _ => rfl | exact fun h => absurd h (by decide)

theorem isParen_of_terminal {kinds : List TokenKind} (t : Terminal kinds)
    (h : ∀ k ∈ kinds, k ≠ .leftParen ∧ k ≠ .rightParen) : t.1.isParen = false := by
  have hne := h _ t.2
  simp [Token.isParen, hne.1, hne.2]

/-- A statement is made of its tokens. -/
theorem covers {scopes : Scopes} {s : Sentence} (h : s.Fits scopes) :
    (s.stmt scopes).Covers s.tokens := by
  cases s with
  | declaration intro ident colon type semicolon =>
    have hintro := isParen_of_terminal intro (by decide)
    have hident := isParen_of_terminal ident (by decide)
    have hcolon := isParen_of_terminal colon (by decide)
    have htype := isParen_of_terminal type (by decide)
    have hsemi := isParen_of_terminal semicolon (by decide)
    refine ⟨?_, ⟨[intro.1, ident.1, colon.1, type.1], semicolon.1, rfl,
      List.mem_singleton.1 semicolon.2⟩, ?_, fun e he => absurd he List.not_mem_nil⟩
    · refine markedBy_cons hintro ⟨binding_kind intro.2, rfl⟩ (markedBy_cons hident
        ⟨List.mem_singleton.1 ident.2, rfl⟩ (markedBy_cons hcolon (List.mem_singleton.1 colon.2)
          (markedBy_cons htype ⟨typeName_kind type.2, rfl⟩ (markedBy_cons hsemi
            (List.mem_singleton.1 semicolon.2) .nil))))
    · rw [tokens, balanced_cons hintro, balanced_cons hident, balanced_cons hcolon,
        balanced_cons htype, balanced_cons hsemi]
      rfl
  | evaluation e semicolon =>
    have hspans := e.spans h
    have hsemi := isParen_of_terminal semicolon (by decide)
    refine ⟨?_, ⟨e.tokens, semicolon.1, rfl, List.mem_singleton.1 semicolon.2⟩, ?_, ?_⟩
    · exact hspans.markedBy.append (markedBy_cons hsemi (List.mem_singleton.1 semicolon.2) .nil)
    · rw [tokens, hspans.balanced_append, balanced_cons hsemi]
      rfl
    · intro x hx
      obtain ⟨before, own, after, heq, hown⟩ := hspans.exists_of_part x hx
      exact ⟨before, own, after ++ [semicolon.1], by simp [tokens, heq], hown.covers⟩

theorem covers_all (ss : List Sentence) : ∀ {scopes : Scopes}, AllFit scopes ss →
    List.Forall₂ Stmt.Covers (stmts scopes ss) (ss.map tokens) := by
  induction ss with
  | nil => exact fun _ => .nil
  | cons s ss ih => exact fun h => .cons (covers h.1) (ih h.2)

end Sentence

/-! ### Programs -/

/-- A program keeps its tokens, in order, apart from the parentheses, which are balanced in each
statement. Each of its nodes holds the value and the place of its own token, and each of its expressions
stands at its first token that opens no parenthesis. So as long as the counters can hold the text, the
places in the tree increase strictly, and so do those of the statements. -/
theorem tree_marks_tokens (name text : String) (tabWidth : Nat) (program : Program)
    (h : (parseText name text tabWidth).program = some program) :
    ∃ blocks eof, (tokenizeText name text tabWidth).tokens = blocks.flatten ++ [eof] ∧
      eof.kind = .endOfFile ∧
      MarkedBy (program.body.flatMap Stmt.marks) (tokenizeText name text tabWidth).tokens.dropLast ∧
      List.Forall₂ Stmt.Covers program.body blocks ∧
      ((∀ t ∈ (tokenizeText name text tabWidth).tokens, t.location.handle < counterLimit) →
        (Stmt.allPlaces program.body).Pairwise (fun l m => l.handle < m.handle) ∧
        (program.body.map Stmt.location).Pairwise (fun l m => l.handle < m.handle)) := by
  obtain ⟨segments, hseg⟩ := exists_segmentation text.toList
  have htokens := (tokenizeText_eq name tabWidth hseg).1
  rcases parseText_heard name tabWidth hseg with
    ⟨ss, last, p, hpulls, hlast, hfit, hprogram, -⟩ |
    ⟨ss, last, final, rest, used, bad, pr, moves, -, -, -, -, hprogram, -⟩
  · obtain rfl := Option.some.inj (hprogram.symm.trans h)
    have hblocks : (tokenizeText name text tabWidth).tokens =
        (ss.map Sentence.tokens).flatten ++ [p.token] := by
      rw [htokens, hpulls, List.map_append, hlast, List.flatMap_def]
      rfl
    have hcovers := Sentence.covers_all ss hfit
    have hmarked : MarkedBy ((Sentence.stmts (Scopes.push {}) ss).flatMap Stmt.marks)
        (ss.map Sentence.tokens).flatten :=
      MarkedBy.flatMap (hcovers.imp fun _ _ hs => hs.marked)
    refine ⟨ss.map Sentence.tokens, p.token, hblocks, kind_of_last_pull hpulls, ?_, hcovers, ?_⟩
    · rw [hblocks, List.dropLast_concat]
      exact hmarked
    · intro hroom
      rw [htokens] at hroom
      have hsorted := (hasRoom_of_tokens hroom).pairwise_tokens hseg
      rw [← htokens, hblocks] at hsorted
      -- the places in the tree are places of tokens in their order, so they increase as those do
      have hplaces : (Stmt.allPlaces (Sentence.stmts (Scopes.push {}) ss)).Pairwise
          (fun l m => l.handle < m.handle) := by
        rw [← Stmt.filterMap_allMarks hmarked.unwritten_notMem]
        refine List.Pairwise.sublist hmarked.sublist_places ?_
        exact List.pairwise_map.2 (List.pairwise_append.1 hsorted).1
      exact ⟨hplaces, hplaces.sublist (Stmt.sublist_allPlaces _)⟩
  · rw [hprogram] at h
    cases h

/-- Parentheses within parentheses, behind a sign. -/
theorem tree_marks_nested_tokens :
    ∃ program, (parseText "unit" "let x: Int32; -(x + (2)) * 3;" 8).program = some program ∧
      MarkedBy (program.body.flatMap Stmt.marks)
        (tokenizeText "unit" "let x: Int32; -(x + (2)) * 3;" 8).tokens.dropLast ∧
      (Stmt.allPlaces program.body).Pairwise (fun l m => l.handle < m.handle) := by
  obtain ⟨program, hprogram⟩ : ∃ program,
      (parseText "unit" "let x: Int32; -(x + (2)) * 3;" 8).program = some program :=
    Option.isSome_iff_exists.1 (by decide +kernel)
  obtain ⟨blocks, eof, -, -, hmarked, -, hplaces⟩ := tree_marks_tokens _ _ _ program hprogram
  exact ⟨program, hprogram, hmarked, (hplaces (by decide +kernel)).1⟩

end SwiftDialect
