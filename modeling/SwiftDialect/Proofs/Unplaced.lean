import SwiftDialect.Proofs.Hearing

/-!
# Places have no bearing on what a text means

Everything that the parser makes of tokens comes out the same, places apart, if the tokens have other places:
the values of trees, the scopes that statements leave, what statements are warned about, and where and why
reading gets stuck. Each of these is shown to commute with taking the places away.

Main statement: texts whose tokens, and what is reported between them, differ in their places only have
outcomes that differ in their places only (`parseText_congr`).
-/

namespace SwiftDialect

/-! ### Scopes -/

/-- The symbol without the place of its declaration. -/
def Symbol.erase (s : Symbol) : Symbol :=
  { s with declaration := s.declaration.map Declaration.erase }

/-- The scope without places. -/
def Mapping.erase (m : Mapping) : Mapping :=
  ⟨m.symbols.map Symbol.erase⟩

/-- The scopes without places. -/
def Scopes.erase (scopes : Scopes) : Scopes :=
  ⟨scopes.mappings.map Mapping.erase⟩

theorem Mapping.get?_erase (m : Mapping) (name : String) :
    m.erase.get? name = (m.get? name).map Symbol.erase := by
  simp only [get?, erase, List.find?_map]
  rfl

theorem Mapping.insertInto_erase (symbol : Symbol) (symbols : List Symbol) :
    insertInto symbol.erase (symbols.map Symbol.erase) = (insertInto symbol symbols).map Symbol.erase := by
  induction symbols with
  | nil => rfl
  | cons other symbols ih =>
    simp only [List.map_cons, insertInto, ih]
    by_cases h : other.name == symbol.name <;> simp [Symbol.erase, h]

namespace Scopes

theorem resolve_erase (scopes : Scopes) (name : String) :
    scopes.erase.resolve name = (scopes.resolve name).map Symbol.erase := by
  simp only [resolve, erase, List.findSome?_map, Function.comp_def, Mapping.get?_erase, List.map_findSome?]

theorem knows_erase (scopes : Scopes) (name : String) : scopes.erase.knows name = scopes.knows name := by
  rcases scopes with ⟨_ | ⟨innermost, rest⟩⟩
  · rfl
  · simp [knows, erase, Mapping.contains, Mapping.get?_erase]

theorem define_erase (scopes : Scopes) (name : String) (d : Declaration) :
    scopes.erase.define name d.erase = (scopes.define name d).erase := by
  rcases scopes with ⟨_ | ⟨innermost, rest⟩⟩
  · rfl
  · simp only [define, erase, List.map_cons, Mapping.insert, Mapping.erase]
    rw [← Mapping.insertInto_erase]
    rfl

end Scopes

/-! ### Expressions -/

theorem leafValue?_unplaced (scopes : Scopes) (t : Token) :
    leafValue? scopes.erase t.unplaced = (leafValue? scopes t).map Expr.erase := by
  simp only [leafValue?, Token.unplaced, Scopes.resolve_erase]
  split <;> simp [Expr.erase, Symbol.erase, Function.comp_def]

/-- The operand without its places. -/
def Operand.unplaced (o : Operand) : Operand where
  tokens := o.tokens.map Token.unplaced
  moves := o.moves
  value := o.value.erase
  consumed := by rw [List.length_map, o.consumed]

namespace Spine

/-- The spine without its places. -/
def unplaced : Spine → Spine
  | .operand o => .operand o.unplaced
  | .node lhs token op rhs => .node lhs.unplaced token.unplaced op rhs.unplaced

theorem tokens_unplaced (s : Spine) : s.unplaced.tokens = s.tokens.map Token.unplaced := by
  induction s with
  | operand o => rfl
  | node lhs token op rhs ihl ihr => simp [unplaced, tokens, ihl, ihr]

theorem moves_unplaced (s : Spine) : s.unplaced.moves = s.moves := by
  induction s with
  | operand o => rfl
  | node lhs token op rhs ihl ihr => simp [unplaced, moves, ihl, ihr]

theorem value_unplaced (s : Spine) : s.unplaced.value = s.value.erase := by
  induction s with
  | operand o => rfl
  | node lhs token op rhs ihl ihr => simp [unplaced, value, Expr.erase, ihl, ihr]

theorem unplaced_extend (token : Token) (op : BinaryOp) (o : Operand) (s : Spine) :
    (s.extend token op o).unplaced = s.unplaced.extend token.unplaced op o.unplaced := by
  induction s with
  | operand first => rfl
  | node lhs token' op' rhs _ ihr =>
    simp only [extend, unplaced]
    split
    · simp only [unplaced, ihr]
    · rfl

theorem unplaced_toOperand (s : Spine) : s.toOperand.unplaced = s.unplaced.toOperand := by
  simp only [Operand.unplaced, toOperand, tokens_unplaced, moves_unplaced, value_unplaced]

end Spine

namespace Tree

variable {f : Phrase}

/-- The operators are grouped without regard to places. -/
theorem unplaced_spine (t : Tree f) (scopes : Scopes) :
    (t.spine scopes).unplaced = t.unplaced.spine scopes.erase := by
  induction t with
  | leaf t =>
    simp only [spine, unplaced, Terminal.unplaced, leafValue?_unplaced, Spine.unplaced]
    cases leafValue? scopes t.1 <;> rfl
  | sign t e ih =>
    simp only [spine, unplaced, ← ih, ← Spine.unplaced_toOperand]
    rfl
  | group l e r ih =>
    simp only [spine, unplaced, ← ih, Spine.unplaced, Operand.unplaced, Operand.group, List.map_cons,
      List.map_append, Spine.tokens_unplaced, Spine.moves_unplaced, Spine.value_unplaced]
    rfl
  | single e ih => exact ih
  | chain l op r ihl ihr =>
    simp only [spine, unplaced, ← ihl, ← ihr, ← Spine.unplaced_toOperand]
    exact Spine.unplaced_extend ..

theorem value_unplaced (t : Tree f) (scopes : Scopes) :
    t.unplaced.value scopes.erase = (t.value scopes).erase := by
  rw [value, value, ← unplaced_spine, Spine.value_unplaced]

theorem moves_unplaced (t : Tree f) : t.unplaced.moves = t.moves := by
  induction t with
  | leaf t => rfl
  | sign t e ih => simp [unplaced, moves, ih]
  | group l e r ih => simp [unplaced, moves, ih]
  | single e ih => exact ih
  | chain l op r ihl ihr => simp [unplaced, moves, ihl, ihr]

theorem fits_unplaced (t : Tree f) (scopes : Scopes) (room : Nat) :
    t.unplaced.Fits scopes.erase room ↔ t.Fits scopes room := by
  induction t generalizing room with
  | leaf t => simp [unplaced, Fits, Terminal.unplaced, leafValue?_unplaced]
  | sign t e ih => simp [unplaced, Fits, ih]
  | group l e r ih => simp [unplaced, Fits, ih]
  | single e ih => exact ih room
  | chain l op r ihl ihr => simp [unplaced, Fits, ihl, ihr]

end Tree

/-! ### Statements -/

namespace Sentence

theorem stmt_unplaced (s : Sentence) (scopes : Scopes) :
    s.unplaced.stmt scopes.erase = (s.stmt scopes).erase := by
  cases s with
  | declaration intro ident colon type semicolon => rfl
  | evaluation expr semicolon => simp only [unplaced, stmt, Stmt.erase, Tree.value_unplaced]

theorem effect_unplaced (s : Sentence) (scopes : Scopes) :
    s.unplaced.effect scopes.erase = (s.effect scopes).erase := by
  cases s with
  | declaration intro ident colon type semicolon =>
    exact scopes.define_erase ident.1.text ⟨intro.1.location, typeName type.1, binding intro.1⟩
  | evaluation expr semicolon => rfl

theorem fits_unplaced (s : Sentence) (scopes : Scopes) : s.unplaced.Fits scopes.erase ↔ s.Fits scopes := by
  cases s with
  | declaration intro ident colon type semicolon => rfl
  | evaluation expr semicolon => exact expr.fits_unplaced scopes maxNesting

theorem length_tokens_unplaced (s : Sentence) : s.unplaced.tokens.length = s.tokens.length := by
  cases s with
  | declaration intro ident colon type semicolon => rfl
  | evaluation expr semicolon => simp [unplaced, tokens]

theorem warned_unplaced (s : Sentence) (scopes : Scopes) :
    (s.unplaced.warned scopes.erase).map Diagnostic.unplaced =
      (s.warned scopes).map Diagnostic.unplaced := by
  cases s with
  | declaration intro ident colon type semicolon =>
    simp only [unplaced, warned, Scopes.knows_erase, Terminal.unplaced, Token.unplaced]
    split <;> rfl
  | evaluation expr semicolon => rfl

theorem effects_unplaced (ss : List Sentence) (scopes : Scopes) :
    effects scopes.erase (ss.map unplaced) = (effects scopes ss).erase := by
  induction ss generalizing scopes with
  | nil => rfl
  | cons s ss ih =>
    rw [List.map_cons, effects, List.foldl_cons, ← effects, effect_unplaced, ih]
    rfl

theorem stmts_unplaced (ss : List Sentence) (scopes : Scopes) :
    stmts scopes.erase (ss.map unplaced) = Stmt.eraseAll (stmts scopes ss) := by
  induction ss generalizing scopes with
  | nil => rfl
  | cons s ss ih => simp only [List.map_cons, stmts, Stmt.eraseAll, stmt_unplaced, effect_unplaced, ih]

theorem allFit_unplaced (ss : List Sentence) (scopes : Scopes) :
    AllFit scopes.erase (ss.map unplaced) ↔ AllFit scopes ss := by
  induction ss generalizing scopes with
  | nil => rfl
  | cons s ss ih => simp only [List.map_cons, AllFit, fits_unplaced, effect_unplaced, ih]

end Sentence

/-- The pull without places. -/
def Pull.unplaced (p : Pull) : Pull :=
  ⟨p.reports.map Diagnostic.unplaced, p.token.unplaced⟩

theorem Diagnostic.unplaced_unplaced (d : Diagnostic) : d.unplaced.unplaced = d.unplaced := rfl

theorem Pull.reports_unplaced (ps : List Pull) :
    ((ps.map unplaced).flatMap reports) = (ps.flatMap reports).map Diagnostic.unplaced := by
  simp [List.flatMap_map, List.map_flatMap, unplaced]

theorem Sentence.heard_unplaced (ss : List Sentence) (scopes : Scopes) (ps : List Pull) :
    (heard scopes.erase (ss.map unplaced) (ps.map Pull.unplaced)).map Diagnostic.unplaced =
      (heard scopes ss ps).map Diagnostic.unplaced := by
  induction ss generalizing scopes ps with
  | nil => rfl
  | cons s ss ih =>
    simp only [List.map_cons, heard, length_tokens_unplaced, List.map_append, ← List.map_take,
      ← List.map_drop, effect_unplaced, warned_unplaced, ih, Pull.reports_unplaced, List.map_map,
      Function.comp_def, Diagnostic.unplaced_unplaced]

/-! ### Getting stuck -/

theorem Token.exists_location {t u : Token} (h : u.lexeme = t.lexeme) :
    ∃ l, u = { t with location := l } := by
  obtain ⟨kind, l, text⟩ := u
  obtain ⟨hkind, htext⟩ := Lexeme.mk.inj h
  exact ⟨l, by simp_all⟩

variable {scopes scopes' : Scopes}

theorem Tree.exists_fitting {f : Phrase} {t : Tree f} {room : Nat} (h : t.Fits scopes room)
    (hscopes : scopes'.erase = scopes.erase) {ts : List Token}
    (hts : ts.map Token.lexeme = t.tokens.map Token.lexeme) :
    ∃ t' : Tree f, t'.tokens = ts ∧ t'.Fits scopes' room ∧ t'.moves = t.moves := by
  obtain ⟨t', htokens, hlike⟩ := t.exists_like hts
  refine ⟨t', htokens, ?_, ?_⟩
  · rw [← fits_unplaced, hlike, hscopes]
    exact (t.fits_unplaced scopes room).2 h
  · rw [← moves_unplaced, hlike, moves_unplaced]

/-- Reading an expression gets stuck for the same reason if the tokens are in other places. -/
theorem Stuck.like (hscopes : scopes'.erase = scopes.erase) {f : Phrase} {room : Nat}
    {used : List Token} {bad : Token} {pr : Problem} {moves : List Move}
    (h : Stuck scopes f room used bad pr moves) {bad' : Token} (hbad : bad'.lexeme = bad.lexeme) :
    ∀ {used' : List Token}, used'.map Token.lexeme = used.map Token.lexeme →
      Stuck scopes' f room used' bad' pr moves := by
  obtain ⟨l, rfl⟩ := Token.exists_location hbad
  induction h with
  | tooDeep bad =>
    intro used' h
    obtain rfl := List.map_eq_nil_iff.1 h
    exact .tooDeep _
  | invalid room herror =>
    intro used' h
    obtain rfl := List.map_eq_nil_iff.1 h
    exact .invalid room herror
  | @unresolved bad room hk hnone =>
    intro used' h
    obtain rfl := List.map_eq_nil_iff.1 h
    refine .unresolved room hk ?_
    have herase := congrArg (fun s => s.resolve bad.text) hscopes
    simpa [Scopes.resolve_erase, hnone] using herase
  | conditional room hk =>
    intro used' h
    obtain rfl := List.map_eq_nil_iff.1 h
    exact .conditional room hk
  | unexpected room hk =>
    intro used' h
    obtain rfl := List.map_eq_nil_iff.1 h
    exact .unexpected room hk
  | sign t _ ih =>
    intro used' h
    obtain ⟨x, xs, rfl, hx, hxs⟩ := List.map_eq_cons_iff.1 h
    exact .sign (t.replace x hx) (ih hbad hxs)
  | inside t _ ih =>
    intro used' h
    obtain ⟨x, xs, rfl, hx, hxs⟩ := List.map_eq_cons_iff.1 h
    exact .inside (t.replace x hx) (ih hbad hxs)
  | unclosed t he hop hk =>
    intro used' h
    obtain ⟨x, xs, rfl, hx, hxs⟩ := List.map_eq_cons_iff.1 h
    obtain ⟨e', rfl, he', hmoves⟩ := Tree.exists_fitting he hscopes hxs
    rw [← hmoves]
    exact .unclosed (t.replace x hx) he' hop hk
  | first _ ih => exact fun h => .first (ih hbad h)
  | later he op _ ih =>
    intro used' h
    rw [List.map_append, List.map_cons] at h
    obtain ⟨xs, ys, rfl, hxs, hys⟩ := List.map_eq_append_iff.1 h
    obtain ⟨y, ys, rfl, hy, hys⟩ := List.map_eq_cons_iff.1 hys
    obtain ⟨e', rfl, he', hmoves⟩ := Tree.exists_fitting he hscopes hxs
    rw [← hmoves]
    exact .later he' (op.replace y hy) (ih hbad hys)

theorem kind_headD_congr {used used' : List Token} {bad bad' : Token}
    (h : used'.map Token.lexeme = used.map Token.lexeme) (hbad : bad'.lexeme = bad.lexeme) :
    (used'.headD bad').kind = (used.headD bad).kind := by
  cases used with
  | nil =>
    obtain rfl := List.map_eq_nil_iff.1 h
    exact congrArg Lexeme.kind hbad
  | cons x xs =>
    obtain ⟨y, ys, rfl, hy, -⟩ := List.map_eq_cons_iff.1 h
    exact congrArg Lexeme.kind hy

/-- Reading a statement gets stuck for the same reason if the tokens are in other places. -/
theorem StuckSentence.like (hscopes : scopes'.erase = scopes.erase) {used used' : List Token}
    {bad bad' : Token} {pr : Problem} {moves : List Move} (h : StuckSentence scopes used bad pr moves)
    (hbad : bad'.lexeme = bad.lexeme) (hused : used'.map Token.lexeme = used.map Token.lexeme) :
    StuckSentence scopes' used' bad' pr moves := by
  have hhead := kind_headD_congr hused hbad
  obtain ⟨l, rfl⟩ := Token.exists_location hbad
  cases h with
  | loop hk =>
    obtain rfl := List.map_eq_nil_iff.1 hused
    exact .loop hk
  | start hk =>
    obtain rfl := List.map_eq_nil_iff.1 hused
    exact .start hk
  | name intro hk =>
    obtain ⟨a, rfl, ha⟩ := List.map_eq_singleton_iff.1 hused
    exact .name (intro.replace a ha) hk
  | colon intro ident hk =>
    obtain ⟨a, as, rfl, ha, has⟩ := List.map_eq_cons_iff.1 hused
    obtain ⟨b, rfl, hb⟩ := List.map_eq_singleton_iff.1 has
    exact .colon (intro.replace a ha) (ident.replace b hb) hk
  | type intro ident colon hk =>
    obtain ⟨a, as, rfl, ha, has⟩ := List.map_eq_cons_iff.1 hused
    obtain ⟨b, bs, rfl, hb, hbs⟩ := List.map_eq_cons_iff.1 has
    obtain ⟨c, rfl, hc⟩ := List.map_eq_singleton_iff.1 hbs
    exact .type (intro.replace a ha) (ident.replace b hb) (colon.replace c hc) hk
  | endless intro ident colon type hk =>
    obtain ⟨a, as, rfl, ha, has⟩ := List.map_eq_cons_iff.1 hused
    obtain ⟨b, bs, rfl, hb, hbs⟩ := List.map_eq_cons_iff.1 has
    obtain ⟨c, cs, rfl, hc, hcs⟩ := List.map_eq_cons_iff.1 hbs
    obtain ⟨d, rfl, hd⟩ := List.map_eq_singleton_iff.1 hcs
    exact .endless (intro.replace a ha) (ident.replace b hb) (colon.replace c hc) (type.replace d hd) hk
  | inside hk h => exact .inside (hhead ▸ hk) (h.like hscopes hbad hused)
  | unfinished he hop hk =>
    obtain ⟨e', rfl, he', hmoves⟩ := Tree.exists_fitting he hscopes hused
    rw [← hmoves]
    exact .unfinished he' hop hk

/-! ### Texts -/

/-- A program gets stuck for the same reason if its tokens are in other places. -/
theorem ProgramStuck.like {ss ss' : List Sentence}
    (hss : ss'.map Sentence.unplaced = ss.map Sentence.unplaced) {used used' : List Token}
    {bad bad' : Token} {pr : Problem} {moves : List Move} (h : ProgramStuck scopes ss used bad pr moves)
    (hbad : bad'.lexeme = bad.lexeme) (hused : used'.map Token.lexeme = used.map Token.lexeme) :
    ProgramStuck scopes ss' used' bad' pr moves := by
  refine ⟨?_, h.stuck.like ?_ hbad hused, ?_⟩
  · rw [← Sentence.allFit_unplaced, hss, Sentence.allFit_unplaced]
    exact h.fit
  · rw [← Sentence.effects_unplaced, hss, Sentence.effects_unplaced]
  · rw [kind_headD_congr hused hbad]
    exact h.starts

theorem Pull.lexemes_congr {ps qs : List Pull} (h : qs.map unplaced = ps.map unplaced) :
    (qs.map token).map Token.lexeme = (ps.map token).map Token.lexeme := by
  have hlexeme : ∀ p : Pull, p.unplaced.token.lexeme = p.token.lexeme := fun _ => rfl
  simpa [Function.comp_def, hlexeme] using congrArg (List.map fun p => p.token.lexeme) h

theorem Sentence.heard_congr {ss ss' : List Sentence} {ps ps' : List Pull}
    (hss : ss'.map unplaced = ss.map unplaced) (hps : ps'.map Pull.unplaced = ps.map Pull.unplaced) :
    (heard scopes ss' ps').map Diagnostic.unplaced = (heard scopes ss ps).map Diagnostic.unplaced := by
  rw [← heard_unplaced, hss, hps, heard_unplaced]

/-- Texts whose tokens differ in their places only, and so do the reports between them, come to the same. -/
theorem parseText_congr {w w' : Nat} {text text' : String} {segments segments' : List Segment}
    (name name' : String) (hseg : IsSegmentation text.toList segments)
    (hseg' : IsSegmentation text'.toList segments')
    (h : (pulls w' [] segments').map Pull.unplaced = (pulls w [] segments).map Pull.unplaced) :
    (parseText name' text' w').program.map Program.erase =
        (parseText name text w).program.map Program.erase ∧
      (parseText name' text' w').diagnostics.map Diagnostic.unplaced =
        (parseText name text w).diagnostics.map Diagnostic.unplaced := by
  rcases parseText_heard name w hseg with ⟨ss, last, p, hpulls, hlast, hfit, hprogram, hdiagnostics⟩ |
    ⟨ss, last, final, rest, used, bad, pr, moves, hpulls, hlast, hfinal, hst, hprogram, hdiagnostics⟩
  · rw [hpulls, List.map_append] at h
    obtain ⟨last', ps, hpulls', hlike, hps⟩ := List.map_eq_append_iff.1 h
    obtain ⟨p', rfl, hp⟩ := List.map_eq_singleton_iff.1 hps
    obtain ⟨ss', hss', hsame⟩ := Sentence.exists_all_like ss (hlast ▸ Pull.lexemes_congr hlike)
    -- whether statements fit does not depend on places
    have hfit' : Sentence.AllFit (Scopes.push {}) ss' := by
      rw [← Sentence.allFit_unplaced, hsame, Sentence.allFit_unplaced]
      exact hfit
    obtain ⟨hprogram', hdiagnostics'⟩ := parseText_of_fit name' hseg' hpulls' hss'.symm hfit'
    constructor
    · simp only [hprogram', hprogram, Option.map_some, Program.erase, ← Sentence.stmts_unplaced, hsame]
    · simp only [hdiagnostics', hdiagnostics, List.map_append, Sentence.heard_congr hsame hlike]
      exact congrArg _ (congrArg Pull.reports hp)
  · rw [hpulls, List.map_append, List.map_append] at h
    obtain ⟨last', ps, hpulls', hlike, hps⟩ := List.map_eq_append_iff.1 h
    obtain ⟨final', rest', rfl, hfinals, -⟩ := List.map_eq_append_iff.1 hps
    obtain ⟨ss', hss', hsame⟩ := Sentence.exists_all_like ss (hlast ▸ Pull.lexemes_congr hlike)
    have hlexemes := Pull.lexemes_congr hfinals
    rw [hfinal, List.map_append] at hlexemes
    obtain ⟨used', bads, hfinal', hused, hbads⟩ := List.map_eq_append_iff.1 hlexemes
    obtain ⟨bad', rfl, hbad⟩ := List.map_eq_singleton_iff.1 hbads
    obtain ⟨hprogram', hdiagnostics'⟩ :=
      parseText_of_stuck name' hseg' hpulls' hss'.symm hfinal' (hst.like hsame hbad hused)
    refine ⟨by rw [hprogram', hprogram], ?_⟩
    simp only [hdiagnostics', hdiagnostics, List.map_append, Sentence.heard_congr hsame hlike,
      ← Pull.reports_unplaced, hfinals]
    rfl

end SwiftDialect
