import SwiftDialect.Proofs.Acceptance
import SwiftDialect.Proofs.Spelling

/-!
# Where a rejected program goes wrong

A parser that rejects its tokens blames one of them. What was read before that token can be completed
to a program, unless it is nested too deeply, and no program begins with what was read together with
that token: the token is the first one that cannot be mended.

The places of tokens have no bearing on whether they form a program, so all this is said about
lexemes. A completion is written down with single spaces between its lexemes.
-/

namespace SwiftDialect

/-! ### Places do not matter -/

/-- The token without its place. -/
def Token.unplaced (t : Token) : Token :=
  { t with location := default }

theorem Token.unplaced_eq_iff {t u : Token} : t.unplaced = u.unplaced ↔ t.lexeme = u.lexeme := by
  simp [unplaced, lexeme]

namespace Terminal

variable {kinds : List TokenKind}

/-- The terminal without its place. -/
def unplaced (t : Terminal kinds) : Terminal kinds :=
  ⟨t.1.unplaced, t.2⟩

/-- Another token in the place of a terminal. -/
def replace (t : Terminal kinds) (x : Token) (h : x.lexeme = t.1.lexeme) : Terminal kinds :=
  ⟨x, by rw [show x.kind = t.1.kind from congrArg Lexeme.kind h]; exact t.2⟩

@[simp] theorem unplaced_replace (t : Terminal kinds) (x : Token) (h : x.lexeme = t.1.lexeme) :
    (t.replace x h).unplaced = t.unplaced :=
  Subtype.ext (Token.unplaced_eq_iff.2 h)

end Terminal

/-- Leaves without their places. -/
def bare (leaves : List (Nat × Token)) : List (Nat × Lexeme) :=
  leaves.map fun l => (l.1, l.2.lexeme)

namespace Tree

/-- The tree without its places. -/
def unplaced {f : Phrase} : Tree f → Tree f
  | .leaf t => .leaf t.unplaced
  | .sign t e => .sign t.unplaced e.unplaced
  | .group l e r => .group l.unplaced e.unplaced r.unplaced
  | .single e => .single e.unplaced
  | .chain l op r => .chain l.unplaced op.unplaced r.unplaced

@[simp] theorem tokens_unplaced {f : Phrase} (t : Tree f) :
    t.unplaced.tokens = t.tokens.map Token.unplaced := by
  induction t with
  | leaf t => rfl
  | sign t e ih => simp [unplaced, tokens, ih, Terminal.unplaced]
  | group l e r ih => simp [unplaced, tokens, ih, Terminal.unplaced]
  | single e ih => exact ih
  | chain l op r ihl ihr => simp [unplaced, tokens, ihl, ihr, Terminal.unplaced]

theorem bare_leaves_unplaced {f : Phrase} (t : Tree f) (depth : Nat) :
    bare (t.unplaced.leaves depth) = bare (t.leaves depth) := by
  induction t generalizing depth with
  | leaf t => rfl
  | sign t e ih => exact ih (depth + 1)
  | group l e r ih => exact ih (depth + 1)
  | single e ih => exact ih depth
  | chain l op r ihl ihr =>
    simp only [bare, unplaced, leaves, List.map_append] at ihl ihr ⊢
    rw [ihl, ihr]

/-- Tokens that differ from those of a tree in their places only are those of a tree, which differs in its
places only. -/
theorem exists_like {f : Phrase} (t : Tree f) :
    ∀ {ts : List Token}, ts.map Token.lexeme = t.tokens.map Token.lexeme →
      ∃ t' : Tree f, t'.tokens = ts ∧ t'.unplaced = t.unplaced := by
  induction t with
  | leaf t =>
    intro ts h
    obtain ⟨x, rfl, hx⟩ := List.map_eq_singleton_iff.1 h
    exact ⟨.leaf (t.replace x hx), rfl, by simp [unplaced]⟩
  | sign t e ih =>
    intro ts h
    obtain ⟨x, xs, rfl, hx, hxs⟩ := List.map_eq_cons_iff.1 h
    obtain ⟨e', rfl, he⟩ := ih hxs
    exact ⟨.sign (t.replace x hx) e', rfl, by simp [unplaced, he]⟩
  | group l e r ih =>
    intro ts h
    simp only [tokens, List.map_cons, List.map_append] at h
    obtain ⟨x, xs, rfl, hx, hxs⟩ := List.map_eq_cons_iff.1 h
    obtain ⟨ys, zs, rfl, hys, hzs⟩ := List.map_eq_append_iff.1 hxs
    obtain ⟨z, rfl, hz⟩ := List.map_eq_singleton_iff.1 hzs
    obtain ⟨e', rfl, he⟩ := ih hys
    exact ⟨.group (l.replace x hx) e' (r.replace z hz), rfl, by simp [unplaced, he]⟩
  | single e ih =>
    intro ts h
    obtain ⟨e', rfl, he⟩ := ih h
    exact ⟨.single e', rfl, congrArg single he⟩
  | chain l op r ihl ihr =>
    intro ts h
    simp only [tokens, List.map_cons, List.map_append] at h
    obtain ⟨xs, ys, rfl, hxs, hys⟩ := List.map_eq_append_iff.1 h
    obtain ⟨y, zs, rfl, hy, hzs⟩ := List.map_eq_cons_iff.1 hys
    obtain ⟨l', rfl, hl⟩ := ihl hxs
    obtain ⟨r', rfl, hr⟩ := ihr hzs
    exact ⟨.chain l' (op.replace y hy) r', rfl, by simp [unplaced, hl, hr]⟩

end Tree

namespace Sentence

/-- The statement without its places. -/
def unplaced : Sentence → Sentence
  | .declaration intro ident colon type semicolon =>
    .declaration intro.unplaced ident.unplaced colon.unplaced type.unplaced semicolon.unplaced
  | .evaluation expr semicolon => .evaluation expr.unplaced semicolon.unplaced

theorem exists_like (s : Sentence) {ts : List Token}
    (h : ts.map Token.lexeme = s.tokens.map Token.lexeme) :
    ∃ s' : Sentence, s'.tokens = ts ∧ s'.unplaced = s.unplaced := by
  cases s with
  | declaration intro ident colon type semicolon =>
    obtain ⟨a, as, rfl, ha, has⟩ := List.map_eq_cons_iff.1 h
    obtain ⟨b, bs, rfl, hb, hbs⟩ := List.map_eq_cons_iff.1 has
    obtain ⟨c, cs, rfl, hc, hcs⟩ := List.map_eq_cons_iff.1 hbs
    obtain ⟨d, ds, rfl, hd, hds⟩ := List.map_eq_cons_iff.1 hcs
    obtain ⟨e, rfl, he⟩ := List.map_eq_singleton_iff.1 hds
    exact ⟨.declaration (intro.replace a ha) (ident.replace b hb) (colon.replace c hc)
      (type.replace d hd) (semicolon.replace e he), rfl, by simp [unplaced]⟩
  | evaluation expr semicolon =>
    simp only [tokens, List.map_append] at h
    obtain ⟨xs, ys, rfl, hxs, hys⟩ := List.map_eq_append_iff.1 h
    obtain ⟨y, rfl, hy⟩ := List.map_eq_singleton_iff.1 hys
    obtain ⟨expr', rfl, hexpr⟩ := expr.exists_like hxs
    exact ⟨.evaluation expr' (semicolon.replace y hy), rfl, by simp [unplaced, hexpr]⟩

theorem exists_all_like (ss : List Sentence) :
    ∀ {ts : List Token}, ts.map Token.lexeme = (ss.flatMap tokens).map Token.lexeme →
      ∃ ss' : List Sentence, ss'.flatMap tokens = ts ∧ ss'.map unplaced = ss.map unplaced := by
  induction ss with
  | nil =>
    intro ts h
    obtain rfl : ts = [] := List.map_eq_nil_iff.1 h
    exact ⟨[], rfl, rfl⟩
  | cons s ss ih =>
    intro ts h
    rw [List.flatMap_cons, List.map_append] at h
    obtain ⟨xs, ys, rfl, hxs, hys⟩ := List.map_eq_append_iff.1 h
    obtain ⟨s', rfl, hs⟩ := s.exists_like hxs
    obtain ⟨ss', rfl, hss⟩ := ih hys
    exact ⟨s' :: ss', rfl, by rw [List.map_cons, List.map_cons, hs, hss]⟩

/-- What matters about a statement: the literals and names in it, and the name that it declares. -/
def shape (s : Sentence) : List (Nat × Lexeme) × Option String :=
  (bare s.leaves, s.declared?)

theorem shape_unplaced (s : Sentence) : s.unplaced.shape = s.shape := by
  cases s with
  | declaration intro ident colon type semicolon => rfl
  | evaluation expr semicolon => exact Prod.ext (expr.bare_leaves_unplaced 0) rfl

theorem map_shape_congr {ss ss' : List Sentence} (h : ss'.map unplaced = ss.map unplaced) :
    ss'.map shape = ss.map shape := by
  simpa [Function.comp_def, shape_unplaced] using congrArg (List.map shape) h

theorem exists_leaf_like {s s' : Sentence} (h : s'.shape = s.shape) {l : Nat × Token}
    (hl : l ∈ s'.leaves) : ∃ m ∈ s.leaves, m.1 = l.1 ∧ m.2.lexeme = l.2.lexeme := by
  have hmem : (l.1, l.2.lexeme) ∈ bare s.leaves := by
    rw [← show bare s'.leaves = bare s.leaves from congrArg Prod.fst h]
    exact List.mem_map_of_mem hl
  obtain ⟨m, hm, heq⟩ := List.mem_map.1 hmem
  exact ⟨m, hm, (Prod.mk.inj heq).1, (Prod.mk.inj heq).2⟩

end Sentence

theorem Admissible.congr {ss ss' : List Sentence}
    (h : ss'.map Sentence.shape = ss.map Sentence.shape) (hss : Admissible ss) : Admissible ss' := by
  -- every leaf of the one has a counterpart in the other, which is as deep and reads the same
  have hleaf : ∀ s' ∈ ss', ∀ l ∈ s'.leaves, ∃ s ∈ ss, ∃ m ∈ s.leaves, m.1 = l.1 ∧
      m.2.kind = l.2.kind ∧ m.2.text = l.2.text := by
    intro s' hs' l hl
    have hmem : s'.shape ∈ ss.map Sentence.shape := h ▸ List.mem_map_of_mem hs'
    obtain ⟨s, hs, hshape⟩ := List.mem_map.1 hmem
    obtain ⟨m, hm, hdepth, hlex⟩ := Sentence.exists_leaf_like hshape.symm hl
    exact ⟨s, hs, m, hm, hdepth, congrArg Lexeme.kind hlex, congrArg Lexeme.text hlex⟩
  refine ⟨?_, ?_, ?_, ?_⟩
  · rintro before' s' after' rfl l hl hk
    rw [List.map_append, List.map_cons] at h
    -- the statements before it have counterparts too, and these declare the same names
    obtain ⟨before, rest, rfl, hbefore, hrest⟩ := List.map_eq_append_iff.1 h.symm
    obtain ⟨s, after, rfl, hs, -⟩ := List.map_eq_cons_iff.1 hrest
    obtain ⟨m, hm, -, hlex⟩ := Sentence.exists_leaf_like hs.symm hl
    obtain ⟨d, hd, hname⟩ := hss.declared before s after rfl m hm
      ((congrArg Lexeme.kind hlex).trans hk)
    have hmem : d.shape ∈ before'.map Sentence.shape := hbefore ▸ List.mem_map_of_mem hd
    obtain ⟨d', hd', hshape⟩ := List.mem_map.1 hmem
    refine ⟨d', hd', ?_⟩
    rw [show d'.declared? = d.declared? from congrArg Prod.snd hshape, hname]
    exact congrArg some (congrArg Lexeme.text hlex)
  · intro s' hs' l hl hk
    obtain ⟨s, hs, m, hm, -, hkind, htext⟩ := hleaf s' hs' l hl
    exact htext ▸ hss.integers s hs m hm (hkind.trans hk)
  · intro s' hs' l hl hk
    obtain ⟨s, hs, m, hm, -, hkind, htext⟩ := hleaf s' hs' l hl
    exact htext ▸ hss.floats s hs m hm (hkind.trans hk)
  · intro s' hs' l hl
    obtain ⟨s, hs, m, hm, hdepth, -, -⟩ := hleaf s' hs' l hl
    exact hdepth ▸ hss.nesting s hs m hm

/-- Whether tokens form a program does not depend on their places. -/
theorem IsProgram.congr {ts ts' : List Token} (h : ts'.map Token.lexeme = ts.map Token.lexeme)
    (hts : IsProgram ts) : IsProgram ts' := by
  obtain ⟨ss, eof, heof, rfl, hadm⟩ := hts
  rw [List.map_append] at h
  obtain ⟨xs, ys, rfl, hxs, hys⟩ := List.map_eq_append_iff.1 h
  obtain ⟨y, rfl, hy⟩ := List.map_eq_singleton_iff.1 hys
  obtain ⟨ss', rfl, hlike⟩ := Sentence.exists_all_like ss hxs
  exact ⟨ss', y, (congrArg Lexeme.kind hy).trans heof, rfl, hadm.congr (Sentence.map_shape_congr hlike)⟩

/-! ### Sequences of lexemes that are accepted -/

/-- The lexemes up to the end, which is included. -/
def Lexer.lexemes {σ : Type} [CharSource σ] (q : Lexer σ) : List Lexeme :=
  q.readAll.1.map Token.lexeme

/-- Some unit that has these lexemes is accepted. -/
def Accepted (xs : List Lexeme) : Prop :=
  ∃ (σ : Type) (_ : CharSource σ) (name : String) (source : σ) (tabWidth : Nat) (journal : Journal),
    (Lexer.start name source tabWidth journal).lexemes = xs ∧
      ∃ program, (Parse.program { tokens := Lexer.start name source tabWidth journal }).1 = .ok program

/-- Some unit that begins with these lexemes is accepted. -/
def Viable (xs : List Lexeme) : Prop :=
  ∃ more, Accepted (xs ++ more)

/-- Lexemes of the right shape are those of a text. -/
theorem exists_text {xs : List Lexeme} (hvalid : ∀ x ∈ xs, x.Writable)
    (name : String) (tabWidth : Nat) (journal : Journal) :
    ∃ body eof, (Lexer.start name (Lexeme.written xs) tabWidth journal).readAll.1 = body ++ [eof] ∧
      (Lexer.start name (Lexeme.written xs) tabWidth journal).ToEnd body eof ∧
      body.map Token.lexeme = xs ∧ eof.lexeme = ⟨.endOfFile, ""⟩ := by
  obtain ⟨body, eof, hread, hend⟩ :=
    Lookahead.readAll_spec (Lexer.start name (Lexeme.written xs) tabWidth journal)
  have hahead : (Scanner.start name (Lexeme.written xs) tabWidth journal).Ahead xs :=
    .inl (Lookahead.spells_text _)
  obtain ⟨ts, eof', hy, rfl, heof'⟩ := hahead.yields hvalid
  have hkind : ∀ t ∈ ts, t.kind ≠ .endOfFile := fun t ht =>
    (hvalid _ (List.mem_map_of_mem ht)).2
  obtain ⟨rfl, rfl⟩ := hend.eq_of_yields hy hkind (congrArg Lexeme.kind heof')
  exact ⟨body, eof, hread, hend, rfl, heof'⟩

/-- Tokens of the right shape form a program exactly if their lexemes are accepted. -/
theorem accepted_iff_isProgram {ts : List Token} (hvalid : ∀ t ∈ ts, t.lexeme.Valid) :
    Accepted (ts.map Token.lexeme) ↔ IsProgram ts := by
  constructor
  · rintro ⟨σ, _, name, source, tabWidth, journal, hlex, hok⟩
    obtain ⟨body, eof, hread, hend, hbody⟩ := Lexer.readAll_start name source tabWidth journal
    rw [Lexer.lexemes, hread] at hlex
    rw [Parse.program_ok_iff hend fun t ht => hbody t (List.mem_append_left _ ht)] at hok
    exact hok.congr hlex.symm
  · intro hts
    have hprogram := hts
    obtain ⟨ss, last, hlast, rfl, -⟩ := hts
    have hbody : ∀ x ∈ (ss.flatMap Sentence.tokens).map Token.lexeme, x.Writable := by
      intro x hx
      obtain ⟨t, ht, rfl⟩ := List.mem_map.1 hx
      exact ⟨hvalid t (List.mem_append_left _ ht), Sentence.kind_ne_end_all ss t ht⟩
    have hend : last.lexeme = ⟨.endOfFile, ""⟩ := by
      have := hvalid last (List.mem_append_right _ List.mem_cons_self)
      rw [Token.lexeme, hlast] at this ⊢
      rw [show last.text = "" from this]
    obtain ⟨body, eof, hread, htext, hlex, heof⟩ :=
      exists_text hbody anonymousUnit defaultTabWidth .empty
    have heq : (body ++ [eof]).map Token.lexeme =
        (ss.flatMap Sentence.tokens ++ [last]).map Token.lexeme := by
      simp only [List.map_append, List.map_cons, List.map_nil, hlex, heof, hend]
    refine ⟨List Char, inferInstance, anonymousUnit, _, defaultTabWidth, .empty,
      by rw [Lexer.lexemes, hread, heq], ?_⟩
    rw [Parse.program_ok_iff htext fun t ht => (hbody _ (hlex ▸ List.mem_map_of_mem ht)).1]
    exact hprogram.congr heq

/-! ### Lists of tokens as sources -/

/-- A list is a source of tokens that keeps no journal; the end comes after its tokens. -/
instance : TokenSource (List Token) where
  next
    | [] => ({ kind := .endOfFile, location := default }, [])
    | t :: ts => (t, ts)
  remaining := List.length
  record _ ts := ts

instance : LawfulTokenSource (List Token) where
  yields_record _ _ _ h := h
  remaining_record _ _ := rfl
  remaining_next ts h := by
    cases ts with
    | nil => exact absurd rfl h
    | cons t ts => exact Nat.lt_succ_self _

theorem yields_list (ts : List Token) : (Lookahead.ofSource ts : Lookahead _ Token).Yields ts := by
  induction ts with
  | nil => trivial
  | cons t ts ih => exact ⟨rfl, ih⟩

theorem toEnd_list {body : List Token} {eof : Token} (heof : eof.kind = .endOfFile)
    (hbody : ∀ t ∈ body, t.kind ≠ .endOfFile) :
    (Lookahead.ofSource (body ++ [eof]) : Lookahead _ Token).ToEnd body eof := by
  refine ⟨yields_list _, heof, hbody, ?_⟩
  simp [Lookahead.tokensLeft, Lookahead.ofSource, TokenSource.remaining]

/-- Tokens on which reading a program gets stuck begin no program. -/
theorem ProgramStuck.not_isProgram {ss : List Sentence} {used : List Token} {bad : Token}
    {pr : Problem} {moves : List Move} (h : ProgramStuck (Scopes.push {}) ss used bad pr moves)
    (rest : List Token)
    (hvalid : ∀ t ∈ ss.flatMap Sentence.tokens ++ (used ++ bad :: rest), t.lexeme.Valid) :
    ¬ IsProgram (ss.flatMap Sentence.tokens ++ (used ++ bad :: rest)) := by
  intro hprogram
  -- a parser on a list of these tokens would both accept and reject them
  have hts := hprogram
  obtain ⟨ss', eof, heof, heq, -⟩ := hts
  have hend := toEnd_list heof (Sentence.kind_ne_end_all ss')
  rw [heq] at hprogram hvalid
  obtain ⟨program, hok⟩ := (Parse.program_ok_iff hend fun t ht =>
    hvalid t (List.mem_append_left _ ht)).2 hprogram
  rw [Parse.program_stuck (p := { tokens := .ofSource (ss'.flatMap Sentence.tokens ++ [eof]) }) rfl
    hend heq.symm h] at hok
  cases hok

/-! ### Completing what was read -/

/-! What is missing is supplied by tokens without a place: a zero for an operand, and the signs and words
that the grammar asks for. -/

namespace Supply

def zero : Terminal [.integerLiteral, .floatLiteral, .stringLiteral, .identifier] :=
  ⟨⟨.integerLiteral, default, "0"⟩, by decide⟩

def close : Terminal [.rightParen] :=
  ⟨⟨.rightParen, default, ""⟩, by decide⟩

def ident : Terminal [.identifier] :=
  ⟨⟨.identifier, default, "x"⟩, by decide⟩

def colon : Terminal [.colon] :=
  ⟨⟨.colon, default, ""⟩, by decide⟩

def type : Terminal typeKinds :=
  ⟨⟨.kwInt32, default, ""⟩, by decide⟩

def semicolon : Terminal [.semicolon] :=
  ⟨⟨.semicolon, default, ""⟩, by decide⟩

theorem leafValue_zero (scopes : Scopes) : (leafValue? scopes zero.1).isSome := by
  simp only [leafValue?, zero]
  decide

/-- Everything that is supplied has the right shape. -/
theorem valid : ∀ t ∈ [zero.1, close.1, ident.1, colon.1, type.1, semicolon.1], t.lexeme.Valid := by
  have hzero : zero.1.lexeme.Valid := ⟨by decide, List.all_eq_true.1 (by decide)⟩
  have hident : ident.1.lexeme.Valid :=
    ⟨⟨'x', [], rfl, by decide, fun _ h => absurd h List.not_mem_nil⟩, by decide⟩
  simp only [List.forall_mem_cons, List.not_mem_nil, false_imp_iff, implies_true, and_true]
  exact ⟨hzero, rfl, hident, rfl, rfl, rfl⟩

end Supply

/-- What was read of an expression can be completed, unless it is nested too deeply. -/
theorem Stuck.complete {scopes : Scopes} {f : Phrase} {room : Nat} {used : List Token} {bad : Token}
    {pr : Problem} {moves : List Move} (h : Stuck scopes f room used bad pr moves)
    (hcode : pr.entry.code ≠ "E0014") :
    ∃ (t : Tree f) (more : List Token), t.tokens = used ++ more ∧ t.Fits scopes room ∧
      ∀ x ∈ more, x.lexeme.Valid := by
  have hclose : ∀ x ∈ [Supply.close.1], x.lexeme.Valid := fun x hx =>
    Supply.valid x (by simp_all)
  -- where an operand is missing, a zero is one
  have hzero : ∀ room, ∃ (t : Tree .unary) (more : List Token), t.tokens = [] ++ more ∧
      t.Fits scopes (room + 1) ∧ ∀ x ∈ more, x.lexeme.Valid := by
    intro room
    refine ⟨.leaf Supply.zero, [Supply.zero.1], rfl, ?_, fun x hx => Supply.valid x (by simp_all)⟩
    exact ⟨Nat.succ_pos _, Supply.leafValue_zero scopes⟩
  induction h with
  | tooDeep => exact absurd rfl hcode
  | invalid room => exact hzero room
  | unresolved room => exact hzero room
  | conditional room => exact hzero room
  | unexpected room => exact hzero room
  | sign t _ ih =>
    obtain ⟨e, more, he, hfit, hmore⟩ := ih hcode
    exact ⟨.sign t e, more, by simp [Tree.tokens, he], ⟨Nat.succ_pos _, hfit⟩, hmore⟩
  | inside l _ ih =>
    obtain ⟨e, more, he, hfit, hmore⟩ := ih hcode
    refine ⟨.group l e Supply.close, more ++ [Supply.close.1], by simp [Tree.tokens, he],
      ⟨Nat.succ_pos _, hfit⟩, List.forall_mem_append.2 ⟨hmore, hclose⟩⟩
  | @unclosed l room e he =>
    exact ⟨.group l e Supply.close, [Supply.close.1], rfl, ⟨Nat.succ_pos _, he⟩, hclose⟩
  | first _ ih =>
    obtain ⟨e, more, he, hfit, hmore⟩ := ih hcode
    exact ⟨.single e, more, he, hfit, hmore⟩
  | @later room l hl op _ _ _ _ _ ih =>
    obtain ⟨e, more, he, hfit, hmore⟩ := ih hcode
    exact ⟨.chain l op e, more, by simp [Tree.tokens, he], ⟨hl, hfit⟩, hmore⟩

/-- What was read of a statement can be completed, unless it is nested too deeply. -/
theorem StuckSentence.complete {scopes : Scopes} {used : List Token} {bad : Token} {pr : Problem}
    {moves : List Move} (h : StuckSentence scopes used bad pr moves)
    (hcode : pr.entry.code ≠ "E0014") (hvalid : ∀ t ∈ used, t.lexeme.Valid) :
    ∃ (ss : List Sentence) (more : List Token), ss.flatMap Sentence.tokens = used ++ more ∧
      Sentence.AllFit scopes ss ∧ ∀ x ∈ more, x.lexeme.Valid := by
  have hsemi : ∀ x ∈ [Supply.semicolon.1], x.lexeme.Valid := fun x hx =>
    Supply.valid x (by simp_all)
  have hname : ∀ ident : Terminal [.identifier], ident.1 ∈ used → ident.1.text ≠ "" :=
    fun ident hmem => named_of_valid hvalid ident.1 hmem (List.mem_singleton.1 ident.2)
  cases h with
  | loop => exact ⟨[], [], rfl, trivial, fun _ hx => absurd hx List.not_mem_nil⟩
  | start => exact ⟨[], [], rfl, trivial, fun _ hx => absurd hx List.not_mem_nil⟩
  | name intro =>
    -- what is missing from the declaration is supplied
    refine ⟨[.declaration intro Supply.ident Supply.colon Supply.type Supply.semicolon],
      [Supply.ident.1, Supply.colon.1, Supply.type.1, Supply.semicolon.1], rfl, ⟨?_, trivial⟩, ?_⟩
    · exact show "x" ≠ "" by decide
    · exact fun x hx => Supply.valid x (by simp_all)
  | colon intro ident =>
    refine ⟨[.declaration intro ident Supply.colon Supply.type Supply.semicolon],
      [Supply.colon.1, Supply.type.1, Supply.semicolon.1], rfl, ⟨hname ident ?_, trivial⟩, ?_⟩
    · simp
    · exact fun x hx => Supply.valid x (by simp_all)
  | type intro ident colon =>
    refine ⟨[.declaration intro ident colon Supply.type Supply.semicolon],
      [Supply.type.1, Supply.semicolon.1], rfl, ⟨hname ident ?_, trivial⟩, ?_⟩
    · simp
    · exact fun x hx => Supply.valid x (by simp_all)
  | endless intro ident colon type =>
    refine ⟨[.declaration intro ident colon type Supply.semicolon], [Supply.semicolon.1], rfl,
      ⟨hname ident ?_, trivial⟩, hsemi⟩
    simp
  | inside _ h =>
    obtain ⟨e, more, he, hfit, hmore⟩ := h.complete hcode
    exact ⟨[.evaluation e Supply.semicolon], more ++ [Supply.semicolon.1],
      by simp [Sentence.tokens, he], ⟨hfit, trivial⟩, List.forall_mem_append.2 ⟨hmore, hsemi⟩⟩
  | @unfinished e he =>
    exact ⟨[.evaluation e Supply.semicolon], [Supply.semicolon.1], by simp [Sentence.tokens],
      ⟨he, trivial⟩, hsemi⟩

theorem Sentence.allFit_append (ss ss' : List Sentence) : ∀ {scopes : Scopes},
    AllFit scopes ss → AllFit (effects scopes ss) ss' → AllFit scopes (ss ++ ss') := by
  induction ss with
  | nil => exact fun _ h => h
  | cons s ss ih => exact fun h h' => ⟨h.1, ih h.2 h'⟩

/-- What was read of a program can be completed, unless it is nested too deeply. -/
theorem ProgramStuck.viable {ss : List Sentence} {used : List Token} {bad : Token} {pr : Problem}
    {moves : List Move} (h : ProgramStuck (Scopes.push {}) ss used bad pr moves)
    (hcode : pr.entry.code ≠ "E0014")
    (hvalid : ∀ t ∈ ss.flatMap Sentence.tokens ++ used, t.lexeme.Valid) :
    Viable ((ss.flatMap Sentence.tokens ++ used).map Token.lexeme) := by
  obtain ⟨hss, hused⟩ := List.forall_mem_append.1 hvalid
  obtain ⟨ss', more, heq, hfit, hmore⟩ := h.stuck.complete hcode hused
  have hall : ∀ t ∈ (ss ++ ss').flatMap Sentence.tokens, t.lexeme.Valid := by
    rw [List.flatMap_append, heq]
    exact List.forall_mem_append.2 ⟨hss, List.forall_mem_append.2 ⟨hused, hmore⟩⟩
  have heof : ∀ t ∈ [(⟨.endOfFile, default, ""⟩ : Token)], t.lexeme.Valid := by
    simp [Token.lexeme, Lexeme.Valid]
  -- the statements read before, the completed one and an end make a program
  have hprogram : IsProgram ((ss ++ ss').flatMap Sentence.tokens ++ [⟨.endOfFile, default, ""⟩]) :=
    ⟨ss ++ ss', _, rfl, rfl, (Sentence.allFit_iff_admissible hall).1
      (Sentence.allFit_append ss ss' h.fit hfit)⟩
  have haccepted := (accepted_iff_isProgram (List.forall_mem_append.2 ⟨hall, heof⟩)).2 hprogram
  rw [List.flatMap_append, heq] at haccepted
  exact ⟨more.map Token.lexeme ++ [⟨.endOfFile, ""⟩], by simpa [Token.lexeme] using haccepted⟩

/-- No program begins with what was read together with the token that is blamed. -/
theorem ProgramStuck.not_viable {ss : List Sentence} {used : List Token} {bad : Token} {pr : Problem}
    {moves : List Move} (h : ProgramStuck (Scopes.push {}) ss used bad pr moves)
    (hvalid : ∀ t ∈ ss.flatMap Sentence.tokens ++ (used ++ [bad]), t.lexeme.Valid) :
    ¬ Viable ((ss.flatMap Sentence.tokens ++ (used ++ [bad])).map Token.lexeme) := by
  rintro ⟨more, σ, _, name, source, tabWidth, journal, hlex, hok⟩
  obtain ⟨body, eof, hread, hend, hbody⟩ := Lexer.readAll_start name source tabWidth journal
  rw [Lexer.lexemes, hread] at hlex
  obtain ⟨begun, rest, hsplit, hbegun, -⟩ := List.map_eq_append_iff.1 hlex
  rw [Parse.program_ok_iff hend fun t ht => hbody t (List.mem_append_left _ ht)] at hok
  rw [hsplit] at hok hbody
  -- the tokens that were read take the places of their counterparts in the accepted unit
  have hlike : (ss.flatMap Sentence.tokens ++ (used ++ bad :: rest)).map Token.lexeme =
      (begun ++ rest).map Token.lexeme := by
    calc (ss.flatMap Sentence.tokens ++ (used ++ bad :: rest)).map Token.lexeme
        = (ss.flatMap Sentence.tokens ++ (used ++ [bad])).map Token.lexeme ++
            rest.map Token.lexeme := by simp
      _ = (begun ++ rest).map Token.lexeme := by rw [← hbegun, List.map_append]
  refine h.not_isProgram rest ?_ (hok.congr hlike)
  intro t ht
  have hmem : t ∈ (ss.flatMap Sentence.tokens ++ (used ++ [bad])) ++ rest := by simpa using ht
  rcases List.mem_append.1 hmem with hmem | hmem
  · exact hvalid t hmem
  · exact hbody t (List.mem_append_right _ hmem)

/-! ### The token that is blamed -/

/-- The codes of the problems for which a parser rejects its tokens. -/
def rejectionCodes : List String :=
  ["E0010", "E0011", "E0012", "E0013", "E0014", "E0020"]

theorem Stuck.code_mem {scopes : Scopes} {f : Phrase} {room : Nat} {used : List Token} {bad : Token}
    {pr : Problem} {moves : List Move} (h : Stuck scopes f room used bad pr moves) :
    pr.entry.code ∈ rejectionCodes := by
  induction h with
  | sign _ _ ih => exact ih
  | inside _ _ ih => exact ih
  | first _ ih => exact ih
  | later _ _ _ ih => exact ih
  | _ => exact List.elem_iff.1 rfl

theorem StuckSentence.code_mem {scopes : Scopes} {used : List Token} {bad : Token} {pr : Problem}
    {moves : List Move} (h : StuckSentence scopes used bad pr moves) :
    pr.entry.code ∈ rejectionCodes := by
  cases h with
  | inside _ h => exact h.code_mem
  | _ => exact List.elem_iff.1 rfl

/-- The report of the problem is the last one. -/
theorem getLast_blame {σ : Type} [CharSource σ] (q : Lexer σ) (depth : Nat) (body : List Move)
    (pr : Problem) (bad : Token) :
    (Lookahead.play q (Parse.programMoves depth (body ++ [blame pr bad])
      [])).source.journal.diagnostics.getLast? = some (pr.diagnose bad.location) := by
  have hsplit : Parse.programMoves depth (body ++ [blame pr bad]) [] =
      (.record .parsingProgram :: .record (.scopeOpened (depth + 1)) :: body) ++
        [blame pr bad, .record (.scopeClosed depth)] := by
    simp [Parse.programMoves]
  rw [hsplit, Lookahead.play, List.foldl_append]
  simp only [List.foldl_cons, List.foldl_nil, Lookahead.move, blame, Lookahead.mapSource,
    TokenSource.record, Scanner.record, Journal.diagnostics_record, Event.diagnostic?]
  simp

variable {σ : Type} [CharSource σ]

/-- A parser that rejects a unit reports its last diagnostic at one of the tokens. What comes before
that token begins some unit that is accepted, unless it is nested too deeply, and no unit that is
accepted begins with what comes before it together with the token itself. -/
theorem rejected_at_first_unviable_token (name : String) (source : σ) (tabWidth : Nat)
    (journal : Journal) {stop : Stop}
    (h : (Parse.program { tokens := Lexer.start name source tabWidth journal }).1 = .error stop) :
    ∃ (i : Nat) (t : Token) (d : Diagnostic),
      (Lexer.start name source tabWidth journal).readAll.1[i]? = some t ∧
      (Parse.program { tokens := Lexer.start name source tabWidth journal
        }).2.tokens.source.journal.diagnostics.getLast? = some d ∧
      d.location = some t.location ∧
      d.code ∈ ["E0010", "E0011", "E0012", "E0013", "E0014", "E0020"] ∧
      (d.code ≠ "E0014" → Viable ((Lexer.start name source tabWidth journal).lexemes.take i)) ∧
      ¬ Viable ((Lexer.start name source tabWidth journal).lexemes.take (i + 1)) := by
  obtain ⟨body, eof, hread, hend, hvalid⟩ := Lexer.readAll_start name source tabWidth journal
  have hnamed := named_of_valid fun t ht => hvalid t (List.mem_append_left _ ht)
  rcases Parse.program_cases (p := { tokens := Lexer.start name source tabWidth journal }) rfl hend
    hnamed with ⟨ss, -, -, hrun⟩ | ⟨ss, used, bad, rest, pr, moves, heq, hst, hrun⟩
  · rw [hrun] at h
    cases h
  -- the same tokens, cut before and after the one that is blamed
  have hbefore : (Lexer.start name source tabWidth journal).readAll.1 =
      (ss.flatMap Sentence.tokens ++ used) ++ bad :: rest := by
    rw [hread, heq, List.append_assoc]
  have hafter : (Lexer.start name source tabWidth journal).readAll.1 =
      (ss.flatMap Sentence.tokens ++ (used ++ [bad])) ++ rest := by
    rw [hbefore]
    simp
  rw [← hread] at hvalid
  refine ⟨(ss.flatMap Sentence.tokens ++ used).length, bad, pr.diagnose bad.location, ?_, ?_, rfl,
    hst.stuck.code_mem, fun hcode => ?_, ?_⟩
  · rw [hbefore, List.getElem?_append_right (Nat.le_refl _), Nat.sub_self]
    rfl
  · rw [hrun, ← List.append_assoc]
    exact getLast_blame _ _ _ _ _
  · rw [hbefore] at hvalid
    rw [Lexer.lexemes, hbefore, ← List.map_take, List.take_left]
    exact hst.viable hcode fun t ht => hvalid t (List.mem_append_left _ ht)
  · rw [hafter] at hvalid
    rw [Lexer.lexemes, hafter, ← List.map_take, List.take_left' (by simp [Nat.add_assoc])]
    exact hst.not_viable fun t ht => hvalid t (List.mem_append_left _ ht)

/-- A group that is cut off by a semicolon. -/
theorem rejected_at_semicolon_in_group :
    (Parse.program { tokens := Lexer.start "unit" "( 1 ;".toList 8 .empty }).1 = .error .rejected ∧
    ∃ (i : Nat) (t : Token) (d : Diagnostic),
      (Lexer.start "unit" "( 1 ;".toList 8 .empty).readAll.1[i]? = some t ∧
      (Parse.program { tokens := Lexer.start "unit" "( 1 ;".toList 8 .empty
        }).2.tokens.source.journal.diagnostics.getLast? = some d ∧
      d.location = some t.location ∧
      d.code ∈ ["E0010", "E0011", "E0012", "E0013", "E0014", "E0020"] ∧
      (d.code ≠ "E0014" → Viable ((Lexer.start "unit" "( 1 ;".toList 8 .empty).lexemes.take i)) ∧
      ¬ Viable ((Lexer.start "unit" "( 1 ;".toList 8 .empty).lexemes.take (i + 1)) := by
  have hvalid : ∀ x ∈ [(⟨.leftParen, ""⟩ : Lexeme), ⟨.integerLiteral, "1"⟩, ⟨.semicolon, ""⟩],
      x.Writable := by
    have hone : Lexeme.Valid ⟨.integerLiteral, "1"⟩ := ⟨by decide, List.all_eq_true.1 (by decide)⟩
    simp only [List.forall_mem_cons, List.not_mem_nil, false_imp_iff, implies_true, and_true]
    exact ⟨⟨rfl, by decide⟩, ⟨hone, by decide⟩, rfl, by decide⟩
  have hwritten : "( 1 ;".toList =
      Lexeme.written [⟨.leftParen, ""⟩, ⟨.integerLiteral, "1"⟩, ⟨.semicolon, ""⟩] := by decide
  have hrejected : (Parse.program { tokens := Lexer.start "unit" "( 1 ;".toList 8 .empty }).1 =
      .error .rejected := by
    rw [hwritten]
    obtain ⟨body, eof, -, hend, hlex, -⟩ := exists_text hvalid "unit" 8 .empty
    obtain ⟨l, body, rfl, hl, hlex⟩ := List.map_eq_cons_iff.1 hlex
    obtain ⟨one, body, rfl, hone, hlex⟩ := List.map_eq_cons_iff.1 hlex
    obtain ⟨bad, rfl, hbad⟩ := List.map_eq_singleton_iff.1 hlex
    have hlk : l.kind ∈ [TokenKind.leftParen] := by
      rw [show l.kind = .leftParen from congrArg Lexeme.kind hl]; decide
    have hok : one.kind = .integerLiteral := congrArg Lexeme.kind hone
    have hbk : bad.kind = .semicolon := congrArg Lexeme.kind hbad
    have hfit : (Tree.single (.leaf ⟨one, by rw [hok]; decide⟩)).Fits (Scopes.push {}) 127 := by
      refine ⟨by decide, ?_⟩
      simp only [leafValue?, hok, show one.text = "1" from congrArg Lexeme.text hone,
        Option.isSome_map]
      decide
    have hstuck : ProgramStuck (Scopes.push {}) [] [l, one] bad _ _ :=
      ⟨trivial, .inside (Terminal.kind_mem ⟨l, hlk⟩ (by decide)) (.first (.unclosed ⟨l, hlk⟩ hfit
        (by rw [hbk]; decide) (by rw [hbk]; decide))), Terminal.kind_ne ⟨l, hlk⟩ (by decide)⟩
    exact congrArg Prod.fst (Parse.program_stuck rfl hend rfl hstuck)
  exact ⟨hrejected, rejected_at_first_unviable_token "unit" "( 1 ;".toList 8 .empty hrejected⟩

end SwiftDialect
