import SwiftDialect.Proofs.Failure

/-!
# Texts that go on

Whether a segment stands depends on the next character alone, so the segments of a text are segments of a
longer text as well, if the last of them does not grow. The same is then true of what the scanner gives out,
and of what the parser makes of it: statements that have been read are not read again, and a rejection is not
taken back.

Main statement: the outcome of a text is stable if the text goes on after a program, or differently after a
rejection (`outcome_stable`).
-/

namespace SwiftDialect

/-! ### Segments -/

/-- Whether a segment stands depends on the next character alone. -/
theorem Segment.Stands.congr_head {segment : Segment} {rest rest' : List Char}
    (h : segment.Stands rest) (hhead : rest'.head? = rest.head?) : segment.Stands rest' := by
  cases segment with
  | blank c => exact h
  | _ =>
    simp only [Segment.Stands, hhead] at h ⊢
    exact h

/-- Does the segment go on to the end of its line? -/
def Segment.lasts : Segment → Bool
  | .comment _ => true
  | .string _ closed => !closed
  | _ => false

/-- The characters that a blank or a comment starts with. -/
def layoutStarts : List Char :=
  [' ', '\t', '\n', '#']

/-- A segment that stands anywhere stands before a blank or a comment, or at least before a line end. -/
theorem Segment.Stands.before_layout {segment : Segment} {rest : List Char} (h : segment.Stands rest)
    {c : Char} (hc : c ∈ layoutStarts) (hlasts : segment.lasts → c = '\n') (rest' : List Char) :
    segment.Stands (c :: rest') := by
  -- no layout goes on a word, a number or an operator
  have hletter : ¬ (IsLetter c ∨ IsDigit c) := by
    rw [← isIdentifierRest_iff]
    simp only [layoutStarts, List.mem_cons, List.not_mem_nil, or_false] at hc
    rcases hc with rfl | rfl | rfl | rfl <;> decide
  have hother : ∀ d, d ∉ layoutStarts → (c :: rest').head? ≠ some d := by
    rintro d hd heq
    exact hd (Option.some.inj heq ▸ hc)
  cases segment with
  | blank d => exact h
  | comment text => exact ⟨h.1, fun d hd => Option.some.inj hd ▸ hlasts rfl⟩
  | unrecognised d =>
    obtain ⟨hfixed, hletters, hdigits, hsign, -⟩ := h
    exact ⟨hfixed, hletters, hdigits, hsign, fun _ => hother '=' (by decide)⟩
  | word first more =>
    refine ⟨h.1, h.2.1, fun d hd => ?_⟩
    obtain rfl := Option.some.inj hd
    exact hletter
  | number text =>
    refine ⟨h.1, h.2.1, h.2.2.1, fun d hd => ?_⟩
    obtain rfl := Option.some.inj hd
    exact ⟨fun hdigit => hletter (.inr hdigit),
      fun hpoint => absurd (congrArg some hpoint) (hother '.' (by decide))⟩
  | string text closed =>
    -- a string that was cut off needs the end of its line
    refine ⟨h.1, fun hopen d hd => Option.some.inj hd ▸ hlasts ?_⟩
    rw [Segment.lasts, hopen]
    rfl
  | sign kind => exact ⟨h.1, fun _ => hother '=' (by decide)⟩

/-- Segments stay segments if something else follows them before which the last one stands. -/
theorem IsSegmentation.extend {xs ys ys' : List Segment} {rest rest' : List Char}
    (h : IsSegmentation (xs.flatMap Segment.chars ++ rest) (xs ++ ys))
    (hlast : ∀ segment ∈ xs.getLast?, segment.Stands rest → segment.Stands rest')
    (h' : IsSegmentation rest' ys') :
    IsSegmentation (xs.flatMap Segment.chars ++ rest') (xs ++ ys') := by
  induction xs with
  | nil => exact h'
  | cons segment xs ih =>
    rw [List.flatMap_cons, List.append_assoc, List.cons_append] at h ⊢
    obtain ⟨tail, htail, hstands, hrest⟩ := isSegmentation_cons.1 h
    obtain rfl := List.append_cancel_left htail
    cases xs with
    | nil => exact isSegmentation_cons.2 ⟨rest', rfl, hlast segment rfl hstands, h'⟩
    | cons next xs =>
      refine isSegmentation_cons.2 ⟨_, rfl, hstands.congr_head ?_, ih hrest ?_⟩
      · -- the next segment has a first character, which comes next in both texts
        obtain ⟨tail, -, hnext, -⟩ := isSegmentation_cons.1 hrest
        obtain ⟨c, cs, hc⟩ := hnext.exists_cons
        simp [hc]
      · simpa using hlast

/-- The segments of the part of a text that lies behind. -/
theorem IsSegmentation.drop {xs ys : List Segment} {rest : List Char}
    (h : IsSegmentation (xs.flatMap Segment.chars ++ rest) (xs ++ ys)) : IsSegmentation rest ys := by
  induction xs with
  | nil => exact h
  | cons segment xs ih =>
    rw [List.flatMap_cons, List.append_assoc, List.cons_append] at h
    obtain ⟨tail, htail, -, hrest⟩ := isSegmentation_cons.1 h
    obtain rfl := List.append_cancel_left htail
    exact ih hrest

/-! ### Pulls -/

theorem Pull.after_nil (ps : List Pull) : after [] ps = ps := by
  cases ps <;> rfl

theorem Pull.after_after (ds es : List Diagnostic) (ps : List Pull) :
    after ds (after es ps) = after (ds ++ es) ps := by
  cases ps with
  | nil => rfl
  | cons p ps => simp [after]

theorem Pull.exists_head_after (ds : List Diagnostic) {ps : List Pull} (h : ps ≠ []) :
    ∃ p ∈ (after ds ps).head?, ds <+: p.reports := by
  obtain ⟨p, ps, rfl⟩ := List.exists_cons_of_ne_nil h
  exact ⟨_, rfl, List.prefix_append _ _⟩

/-- The pulls of some segments come first, whatever follows them. What was reported before the end is
reported before the next token instead. -/
theorem pulls_append (w : Nat) (before xs : List Segment) :
    ∃ ps q, pulls w before xs = ps ++ [q] ∧ ∀ ys,
      pulls w before (xs ++ ys) = ps ++ Pull.after q.reports (pulls w (before ++ xs) ys) := by
  induction xs generalizing before with
  | nil => exact ⟨[], _, rfl, fun ys => by simp [Pull.after_nil]⟩
  | cons segment xs ih =>
    obtain ⟨ps, q, hxs, hall⟩ := ih (before ++ [segment])
    simp only [List.append_assoc, List.singleton_append] at hall
    cases hx : segment.lexeme? with
    | some x =>
      refine ⟨⟨(segment.diagnostic? w before).toList, x.token (placeAfter w before)⟩ :: ps, q, ?_,
        fun ys => ?_⟩
      · simp only [pulls, hx, hxs]
        rfl
      · simp only [List.cons_append, pulls, hx, hall]
    | none =>
      -- without a lexeme the report goes to the next token, which may be the end
      cases ps with
      | nil =>
        refine ⟨[], { q with reports := (segment.diagnostic? w before).toList ++ q.reports }, ?_,
          fun ys => ?_⟩
        · simp only [pulls, hx, hxs]
          rfl
        · simp only [List.cons_append, pulls, hx, hall, List.nil_append, Pull.after_after]
      | cons p ps =>
        refine ⟨{ p with reports := (segment.diagnostic? w before).toList ++ p.reports } :: ps, q, ?_,
          fun ys => ?_⟩
        · simp only [pulls, hx, hxs]
          rfl
        · simp only [List.cons_append, pulls, hx, hall]
          rfl

/-- There is one pull for every lexeme, and one for the end. -/
theorem length_pulls (w : Nat) (before xs : List Segment) :
    (pulls w before xs).length = (xs.filterMap Segment.lexeme?).length + 1 := by
  induction xs generalizing before with
  | nil => rfl
  | cons segment xs ih =>
    have hafter (ds : List Diagnostic) (ps : List Pull) : (Pull.after ds ps).length = ps.length := by
      cases ps <;> rfl
    rw [pulls, List.filterMap_cons]
    cases segment.lexeme? with
    | none => simp only [hafter, ih]
    | some x => simp only [List.length_cons, ih]

/-! ### Statements -/

namespace Sentence

theorem stmts_append (ss ss' : List Sentence) : ∀ scopes : Scopes,
    stmts scopes (ss ++ ss') = stmts scopes ss ++ stmts (effects scopes ss) ss' := by
  induction ss with
  | nil => exact fun _ => rfl
  | cons s ss ih => exact fun scopes => congrArg (s.stmt scopes :: ·) (ih (s.effect scopes))

theorem heard_append (ss ss' : List Sentence) : ∀ {scopes : Scopes} {ps qs : List Pull},
    ps.length = (ss.flatMap tokens).length →
      heard scopes (ss ++ ss') (ps ++ qs) = heard scopes ss ps ++ heard (effects scopes ss) ss' qs := by
  induction ss with
  | nil =>
    intro scopes ps qs hlength
    rw [List.eq_nil_of_length_eq_zero hlength]
    rfl
  | cons s ss ih =>
    intro scopes ps qs hlength
    rw [List.flatMap_cons, List.length_append] at hlength
    have hfirst : s.tokens.length ≤ ps.length := by omega
    have hothers : (ps.drop s.tokens.length).length = (ss.flatMap tokens).length := by
      rw [List.length_drop]
      omega
    rw [List.cons_append, heard, heard, List.take_append_of_le_length hfirst,
      List.drop_append_of_le_length hfirst, ih hothers, List.append_assoc, List.append_assoc]
    rfl

/-- What is reported before the first token is heard first. -/
theorem reports_prefix_heard {scopes : Scopes} {ss : List Sentence} {p : Pull} {ps : List Pull}
    (h : (p :: ps).length = (ss.flatMap tokens).length) : p.reports <+: heard scopes ss (p :: ps) := by
  cases ss with
  | nil => cases h
  | cons s ss =>
    obtain ⟨t, ts, ht⟩ := s.exists_cons
    rw [heard, ht, List.length_cons, List.take_succ_cons, List.flatMap_cons, List.append_assoc]
    exact List.prefix_append _ _

/-- What is reported before the first token is heard first, even if no statement is read to its end. -/
theorem reports_prefix_heard_append {scopes : Scopes} {ss : List Sentence} {last final : List Pull}
    (h : last.length = (ss.flatMap tokens).length) (hfinal : final ≠ []) {p : Pull}
    (hp : p ∈ (last ++ final).head?) (ds : List Diagnostic) :
    p.reports <+: heard scopes ss last ++ (final.flatMap Pull.reports ++ ds) := by
  cases last with
  | cons q last =>
    obtain rfl : q = p := Option.some.inj hp
    exact (reports_prefix_heard h).trans (List.prefix_append _ _)
  | nil =>
    obtain ⟨q, final, rfl⟩ := List.exists_cons_of_ne_nil hfinal
    obtain rfl : q = p := Option.some.inj hp
    -- no token was pulled for statements, so there are none
    have hnil : ss = [] := by
      cases ss with
      | nil => rfl
      | cons s ss =>
        obtain ⟨t, ts, ht⟩ := s.exists_cons
        rw [List.flatMap_cons, ht] at h
        cases h
    rw [hnil, heard, List.nil_append, List.flatMap_cons, List.append_assoc]
    exact List.prefix_append _ _

end Sentence

/-- A text that begins with statements is read as these statements first, and what is reported before the
token after them is heard next. -/
theorem parseText_begins (name : String) {text : String} {w : Nat} {segments : List Segment}
    {ss : List Sentence} {last next : List Pull} (hseg : IsSegmentation text.toList segments)
    (hpulls : pulls w [] segments = last ++ next)
    (hlast : last.map Pull.token = ss.flatMap Sentence.tokens)
    (hfit : Sentence.AllFit (Scopes.push {}) ss) :
    (∃ more, (parseText name text w).diagnostics = Sentence.heard (Scopes.push {}) ss last ++ more ∧
      ∀ p ∈ next.head?, p.reports <+: more) ∧
    ∀ program, (parseText name text w).program = some program →
      Sentence.stmts (Scopes.push {}) ss <+: program.body := by
  obtain ⟨body, eof, heq, -, hend⟩ :=
    Lexer.toEnd_pulls hseg (Lookahead.spells_text _) name w .empty
  rw [hpulls, List.map_append, hlast] at heq
  -- each pull brings one token, so the pulls are cut where the statements end
  have hlength : last.length = (ss.flatMap Sentence.tokens).length := by rw [← hlast, List.length_map]
  have hends : HasEnd (ss.flatMap Sentence.tokens ++ next.map Pull.token) :=
    heq ▸ ⟨eof, List.mem_append_right _ List.mem_cons_self, hend.eof_kind⟩
  -- what is left is read on its own, with the names that the statements have declared
  have hnamed : Named (next.map Pull.token) := by
    have hall := (Scanner.named_of_toEnd hend).concat hend.eof_kind
    rw [← heq] at hall
    exact fun t ht => hall t (List.mem_append_right _ ht)
  rcases program_or_stuck _ (Sentence.effects (Scopes.push {}) ss) _ (Nat.le_refl _)
    (hends.append_right (Sentence.kind_ne_end_all ss)) hnamed with
    ⟨ss', x, rest, hx, hk, hfit'⟩ | ⟨ss', used, bad, rest, pr, moves, hx, hst⟩
  · -- the rest of the text makes it a program
    rw [hx, ← List.append_assoc] at heq
    -- there is one end token, so the statements of the rest go up to the end of the text
    obtain ⟨rfl, -⟩ := eq_of_append_end hend.body_kind hk heq.symm
    obtain ⟨-, rfl⟩ := List.cons.inj (List.append_cancel_left heq)
    obtain ⟨last', final, rfl, hlast', hfinal⟩ := List.map_eq_append_iff.1 hx
    obtain ⟨p, rfl, -⟩ := List.map_eq_singleton_iff.1 hfinal
    have hlength' : last'.length = (ss'.flatMap Sentence.tokens).length := by
      rw [← hlast', List.length_map]
    rw [← List.append_assoc] at hpulls
    obtain ⟨hprogram, hdiagnostics⟩ := parseText_of_fit name hseg hpulls
      (by rw [List.map_append, List.flatMap_append, hlast, hlast'])
      (Sentence.allFit_append ss ss' hfit hfit')
    rw [Sentence.heard_append ss ss' hlength, List.append_assoc] at hdiagnostics
    refine ⟨⟨_, hdiagnostics, fun q hq => ?_⟩, fun program hsome => ?_⟩
    · simpa using Sentence.reports_prefix_heard_append hlength' (List.cons_ne_nil p []) hq []
    · rw [hprogram, Option.some.injEq] at hsome
      rw [← hsome, Sentence.stmts_append]
      exact List.prefix_append _ _
  · -- the rest of the text is rejected
    rw [List.append_cons used] at hx
    obtain ⟨last', ps, rfl, hlast', hps⟩ := List.map_eq_append_iff.1 hx
    obtain ⟨final, ps, rfl, hfinal, -⟩ := List.map_eq_append_iff.1 hps
    have hlength' : last'.length = (ss'.flatMap Sentence.tokens).length := by
      rw [← hlast', List.length_map]
    have hne : final ≠ [] := by
      rintro rfl
      simp at hfinal
    -- where the rest is stuck after its own statements, the whole is stuck after all of them
    have hstuck : ProgramStuck (Scopes.push {}) (ss ++ ss') used bad pr moves := by
      refine ⟨Sentence.allFit_append ss ss' hfit hst.fit, ?_, hst.starts⟩
      rw [Sentence.effects, List.foldl_append]
      exact hst.stuck
    rw [← List.append_assoc] at hpulls
    obtain ⟨hprogram, hdiagnostics⟩ := parseText_of_stuck name hseg hpulls
      (by rw [List.map_append, List.flatMap_append, hlast, hlast']) hfinal hstuck
    rw [Sentence.heard_append ss ss' hlength, List.append_assoc] at hdiagnostics
    refine ⟨⟨_, hdiagnostics, fun q hq => ?_⟩, fun program hsome => ?_⟩
    · refine Sentence.reports_prefix_heard_append hlength' hne ?_ _
      -- the first pull is one that was heard, not one behind the rejected token
      rw [← List.append_assoc, List.head?_append_of_ne_nil _ (by simp [hne])] at hq
      exact hq
    · cases hprogram.symm.trans hsome

/-! ### Lines -/

namespace Scanner

variable {σ : Type} [CharSource σ] {s : Scanner σ} {name : String} {w : Nat}
  {before passed after : List Segment} {segment : Segment} {x : Lexeme}

theorem Alike.afterTokens {j₁ j₂ : Journal} (n : Nat) : ∀ {s₁ s₂ : Scanner σ}, Alike j₁ j₂ s₁ s₂ →
    Alike j₁ j₂ (s₁.afterTokens n) (s₂.afterTokens n) := by
  induction n with
  | zero => exact fun h => h
  | succ n ih => exact fun h => ih h.next.2

/-- The last place that was asked for on the way past a lexeme is where it starts, or where it is cut off. -/
theorem Faces.highest_step (h : s.Faces name w before (segment :: after))
    (hx : segment.lexeme? = some x) :
    s.step.2.lines.highest = (placeAfter w (segment.leading before)).handle := by
  obtain ⟨rest, htext, hstands, -⟩ := isSegmentation_cons.1 h.stands
  obtain rfl : after.flatMap Segment.chars = rest :=
    List.append_cancel_left ((List.flatMap_cons ..).symm.trans htext)
  obtain ⟨-, hpast, hhighest⟩ := h.past.here
  have hleave := (step_passes hstands (List.flatMap_cons .. ▸ h.chars)).leave
  rw [hleave]
  cases segment with
  | blank c => cases hx
  | comment text => cases hx
  | unrecognised c => cases hx
  | string text closed =>
    cases closed with
    | true => exact hhighest
    | false =>
      -- a string that is cut off is reported where it ends, so a second place is asked for
      have hmove := hpast.counts.leave_chars (w := w) (by simp) hstands
      have hlength : (Segment.string text false).chars.length = 1 + text.length := by
        simp [Segment.chars, Nat.add_comm]
      rw [hlength, ← trace_concat] at hmove
      exact hmove.here.2.2
  | _ => exact hhighest

/-- The line table after the tokens up to a lexeme. -/
theorem Faces.afterTokens (hx : segment.lexeme? = some x) : ∀ {s : Scanner σ} {before : List Segment},
    s.Faces name w before (passed ++ segment :: after) →
      (s.afterTokens ((passed.filterMap Segment.lexeme?).length + 1)).lines =
        ⟨[name], startsAt (trace w (before ++ passed ++ [segment])),
          (placeAfter w (segment.leading (before ++ passed))).handle⟩ := by
  induction passed with
  | nil =>
    intro s before h
    obtain ⟨hstep, hfaces, -⟩ := h.step_cons
    rw [hx] at hstep
    have hnext : (Producer.next s).2.lines = s.step.2.lines := by
      rw [next_of_some hstep]
      rfl
    rw [List.append_nil, ← hfaces.past.counts.files, ← hfaces.past.counts.starts, ← h.highest_step hx]
    exact hnext
  | cons first passed ih =>
    intro s before h
    obtain ⟨hstep, hfaces, -⟩ := h.step_cons
    cases hf : first.lexeme? with
    | none =>
      rw [hf] at hstep
      have hrest := ih hfaces
      simp only [Scanner.afterTokens, next_of_none hstep, List.filterMap_cons, hf, List.append_assoc,
        List.cons_append, List.nil_append] at hrest ⊢
      exact hrest
    | some y =>
      rw [hf] at hstep
      have hrest := ih (hfaces.record (.scanned y.kind y.text))
      rw [Scanner.afterTokens, next_of_some hstep]
      simp only [List.filterMap_cons, hf, List.length_cons, List.append_assoc, List.cons_append,
        List.nil_append] at hrest ⊢
      exact hrest

end Scanner

/-- The line table depends on the tokens that the moves reach, and on nothing else. -/
theorem Lexer.lines_play {σ : Type} [CharSource σ] (moves : List Move) :
    ∀ {q : Lexer σ} {b : Bool} {n : Nat}, q.buffer.length = b.toNat → reach b moves = b.toNat + n →
      (Lookahead.play q moves).source.lines = (q.source.afterTokens n).lines := by
  induction moves with
  | nil =>
    intro q b n _ hreach
    obtain rfl : n = 0 := by simpa using hreach
    rfl
  | cons m moves ih =>
    rintro ⟨buffer, s⟩ b n hbuffer hreach
    cases m with
    | record e =>
      rw [reach_record] at hreach
      have hrest := ih (q := ⟨buffer, s.record e⟩) hbuffer hreach
      exact hrest.trans ((s.alike_record e).afterTokens n).lines.symm
    | peek =>
      rw [reach_peek] at hreach
      cases b with
      | true =>
        obtain ⟨t, rfl⟩ := List.length_eq_one_iff.1 hbuffer
        exact ih (q := ⟨[t], s⟩) (b := true) rfl hreach
      | false =>
        obtain rfl := List.length_eq_zero_iff.1 hbuffer
        have hone := one_le_reach moves
        obtain ⟨n, rfl⟩ : ∃ m, n = m + 1 := Nat.exists_eq_succ_of_ne_zero (by simp at hreach; omega)
        exact ih (q := ⟨[(Producer.next s).1], (Producer.next s).2⟩) (b := true) rfl
          (by simp at hreach ⊢; omega)
    | skip =>
      rw [reach_skip] at hreach
      cases b with
      | true =>
        obtain ⟨t, rfl⟩ := List.length_eq_one_iff.1 hbuffer
        exact ih (q := ⟨[], s⟩) (b := false) rfl (by simp at hreach ⊢; omega)
      | false =>
        obtain rfl := List.length_eq_zero_iff.1 hbuffer
        obtain ⟨n, rfl⟩ : ∃ m, n = m + 1 := Nat.exists_eq_succ_of_ne_zero (by simp at hreach; omega)
        exact ih (q := ⟨[], (Producer.next s).2⟩) (b := false) rfl (by simp at hreach ⊢; omega)

/-! ### Rejections -/

/-- What a parser that gives up has scanned, and the lines that it has come past. -/
theorem parseText_traces_of_stuck (name : String) {text : String} {w : Nat} {segments : List Segment}
    {ss : List Sentence} {last final rest : List Pull} {used : List Token} {bad : Token} {pr : Problem}
    {moves : List Move} (hseg : IsSegmentation text.toList segments)
    (hpulls : pulls w [] segments = last ++ (final ++ rest))
    (hlast : last.map Pull.token = ss.flatMap Sentence.tokens)
    (hfinal : final.map Pull.token = used ++ [bad])
    (hst : ProgramStuck (Scopes.push {}) ss used bad pr moves) :
    (parseText name text w).journal.scanned = ((last ++ final).map Pull.token).map Token.lexeme ∧
      (parseText name text w).lines = ((Scanner.start name text.toList w (Journal.empty.record
        (.parsingText name text.utf8ByteSize))).afterTokens (last ++ final).length).lines := by
  let journal := Journal.empty.record (.parsingText name text.utf8ByteSize)
  have hrun := Parse.program_of_stuck name hseg hpulls hlast hfinal hst journal
  have hafter : lexerAfter name text w = _ := congrArg (·.2.tokens) hrun
  have htokens : (last ++ final).map Pull.token = (ss.flatMap Sentence.tokens ++ used) ++ [bad] := by
    rw [List.map_append, hlast, hfinal, List.append_assoc]
  constructor
  · obtain ⟨body, eof, heq, -, hend⟩ :=
      Lexer.toEnd_pulls hseg (Lookahead.spells_text _) name w journal
    rw [hpulls, List.map_append, List.map_append, hlast, hfinal, List.append_assoc] at heq
    have hstart : Lexer.Stands (Lexer.start name text.toList w journal) [] false (body ++ [eof]) :=
      ⟨rfl, rfl, hend.yields⟩
    -- the parser has scanned what it consumed and what waits, and nothing else
    obtain ⟨taken, b, coming, hstands, -, -, hpulled⟩ :=
      hstart.rejected hend.body_kind heq.symm hst (Scopes.depth {})
    rw [scanned_parseText, hafter, htokens, ← hpulled]
    exact hstands.scanned
  · obtain ⟨-, -, hlines⟩ := Analysis.parse_of_run hrun (Lexer.takeFailure_text name _ w journal _)
    refine hlines.trans (Lexer.lines_play _ (b := false) rfl ?_)
    rw [hst.reach_programMoves, ← List.length_map Pull.token, htokens]
    simp only [List.length_append, List.length_singleton, Bool.toNat_false, Nat.zero_add]

/-- The text is rejected at the lexeme that follows the segments in `before`: it is the last one that was
scanned. -/
structure RejectedAt (name text : String) (w : Nat) (before : List Segment) (segment : Segment) : Prop where
  cut : ∃ after, IsSegmentation text.toList (before ++ segment :: after)
  isLexeme : segment.lexeme?.isSome
  program : (parseText name text w).program = none
  scanned : (parseText name text w).journal.scanned = (before ++ [segment]).filterMap Segment.lexeme?

/-- A token other than the end is one of the lexemes of the text. -/
theorem exists_segment_of_token {w : Nat} {before ahead : List Segment} {ts rest : List Token} {t : Token}
    (h : (pulls w before ahead).map Pull.token = ts ++ t :: rest) (hk : t.kind ≠ .endOfFile) :
    ∃ passed segment after x, ahead = passed ++ segment :: after ∧ segment.lexeme? = some x ∧
      t = x.token (placeAfter w (before ++ passed)) ∧
      ts.map Token.lexeme = passed.filterMap Segment.lexeme? := by
  induction ahead generalizing before ts with
  | nil =>
    obtain ⟨rfl, hts⟩ : ts = [] ∧ _ := by
      cases ts with
      | nil => exact ⟨rfl, trivial⟩
      | cons t ts => simp [pulls] at h
    obtain rfl : endLexeme.token (placeAfter w before) = t := (List.cons.inj h).1
    exact absurd rfl hk
  | cons segment ahead ih =>
    rw [pulls] at h
    cases hx : segment.lexeme? with
    | none =>
      simp only [hx, Pull.map_token_after] at h
      -- the segment gives no token, so the token comes from a later one
      obtain ⟨passed, next, after, x, rfl, hnext, ht, hts⟩ := ih h
      refine ⟨segment :: passed, next, after, x, rfl, hnext, by simpa using ht, ?_⟩
      rw [hts, List.filterMap_cons, hx]
    | some y =>
      simp only [hx, List.map_cons] at h
      cases ts with
      | nil =>
        obtain ⟨rfl, -⟩ := List.cons.inj h
        exact ⟨[], segment, ahead, y, rfl, hx, by simp, rfl⟩
      | cons u ts =>
        obtain ⟨rfl, htail⟩ := List.cons.inj h
        obtain ⟨passed, next, after, x, rfl, hnext, ht, hts⟩ := ih htail
        refine ⟨segment :: passed, next, after, x, rfl, hnext, by simpa using ht, ?_⟩
        rw [List.map_cons, hts, List.filterMap_cons, hx, Lexeme.lexeme_token]

/-- Every text that is no program is rejected at its end or at one of its lexemes, and the rejection is
located there. -/
theorem rejectedAtEnd_or_rejectedAt {name text : String} {w : Nat}
    (h : (parseText name text w).program = none) :
    ((parseText name text w).RejectedAtEnd ∧
      ∃ eof d, (tokenizeText name text w).tokens.getLast? = some eof ∧ eof.kind = .endOfFile ∧
        (parseText name text w).diagnostics.getLast? = some d ∧ d.location = some eof.location) ∨
      ∃ before segment d, RejectedAt name text w before segment ∧
        (parseText name text w).diagnostics.getLast? = some d ∧
        d.location = some (placeAfter w before) := by
  obtain ⟨segments, hseg⟩ := exists_segmentation text.toList
  rcases parseText_heard name w hseg with ⟨_, _, _, _, _, _, hsome, _⟩ |
    ⟨ss, last, final, rest, used, bad, pr, moves, hpulls, hlast, hfinal, hst, -, hdiagnostics⟩
  · cases h.symm.trans hsome
  have hreport : (parseText name text w).diagnostics.getLast? = some (pr.diagnose bad.location) := by
    rw [hdiagnostics, ← List.append_assoc, List.getLast?_concat]
  obtain ⟨hscanned, -⟩ := parseText_traces_of_stuck name hseg hpulls hlast hfinal hst
  rw [List.map_append, hlast, hfinal, ← List.append_assoc, List.map_append] at hscanned
  have htokens : (pulls w [] segments).map Pull.token =
      (ss.flatMap Sentence.tokens ++ used) ++ bad :: rest.map Pull.token := by
    rw [hpulls, List.map_append, List.map_append, hlast, hfinal]
    simp
  by_cases hk : bad.kind = .endOfFile
  · -- the rejected token is the end, and there is only one
    rw [map_token_pulls] at htokens
    obtain ⟨-, rfl⟩ := eq_of_append_end (hseg.kind_ne w) hk htokens
    refine .inl ⟨⟨h, by rw [hscanned]; simp⟩, _, _, ?_, rfl, hreport, rfl⟩
    rw [(tokenizeText_eq name w hseg).1, map_token_pulls, List.getLast?_concat]
  · obtain ⟨before, segment, after, x, rfl, hx, hbad, hbefore⟩ := exists_segment_of_token htokens hk
    refine .inr ⟨before, segment, pr.diagnose bad.location, ⟨⟨after, hseg⟩, ?_, h, ?_⟩, hreport, ?_⟩
    · rw [hx]
      rfl
    · rw [hscanned, hbefore, hbad, List.filterMap_append]
      simp [hx]
    · rw [hbad]
      rfl

/-- The pulls up to a lexeme do not depend on what follows it. -/
theorem exists_pulls_upTo (w : Nat) (before : List Segment) {segment : Segment}
    (h : segment.lexeme?.isSome) : ∃ ps,
      ps.length = (before.filterMap Segment.lexeme?).length + 1 ∧ ∀ after,
        pulls w [] (before ++ segment :: after) = ps ++ pulls w (before ++ [segment]) after := by
  obtain ⟨x, hx⟩ := Option.isSome_iff_exists.1 h
  obtain ⟨ps, q, hbefore, hall⟩ := pulls_append w [] before
  have hlength := length_pulls w [] before
  rw [hbefore, List.length_append, List.length_singleton, Nat.add_right_cancel_iff] at hlength
  refine ⟨ps ++ [⟨q.reports ++ (segment.diagnostic? w before).toList, x.token (placeAfter w before)⟩],
    by rw [List.length_append, List.length_singleton, hlength], fun after => ?_⟩
  rw [hall, List.nil_append, pulls, List.append_assoc]
  simp only [hx]
  rfl

/-- A text that agrees with another one on some characters and the next one. -/
theorem exists_tail {cs tail text : List Char}
    (h : text.take (cs.length + 1) = (cs ++ tail).take (cs.length + 1)) :
    ∃ tail', text = cs ++ tail' ∧ tail'.head? = tail.head? := by
  have hfirst : text.take cs.length = cs := by
    have htake := congrArg (List.take cs.length) h
    rwa [List.take_take, List.take_take, Nat.min_eq_left (Nat.le_succ _), List.take_left] at htake
  -- the texts agree on one character more, if there is one
  have hnext : text[cs.length]? = tail.head? := by
    have hget := congrArg (·[cs.length]?) h
    simp only [List.getElem?_take_of_lt (Nat.lt_succ_self _)] at hget
    rwa [List.getElem?_append_right (Nat.le_refl _), Nat.sub_self, ← List.head?_eq_getElem?] at hget
  refine ⟨text.drop cs.length, ?_, by rw [List.head?_drop, hnext]⟩
  calc text = text.take cs.length ++ text.drop cs.length := (List.take_append_drop ..).symm
    _ = cs ++ text.drop cs.length := by rw [hfirst]

/-- What follows the lexeme at which a text is rejected, and the character after it, makes no difference. -/
theorem RejectedAt.outcome_eq {name text text' : String} {w : Nat} {before : List Segment}
    {segment : Segment} (h : RejectedAt name text w before segment)
    (hagree : text'.toList.take (((before ++ [segment]).flatMap Segment.chars).length + 1) =
      text.toList.take (((before ++ [segment]).flatMap Segment.chars).length + 1)) :
    (parseText name text' w).program = none ∧
      (parseText name text' w).diagnostics = (parseText name text w).diagnostics ∧
      (parseText name text' w).lines = (parseText name text w).lines := by
  obtain ⟨after, hseg⟩ := h.cut
  obtain ⟨x, hx⟩ := Option.isSome_iff_exists.1 h.isLexeme
  -- the other text is cut into the same segments up to the lexeme
  have htext : text.toList =
      (before ++ [segment]).flatMap Segment.chars ++ after.flatMap Segment.chars := by
    rw [← hseg.chars, ← List.flatMap_append, List.append_assoc, List.singleton_append]
  have hsame := hseg
  rw [htext, List.append_cons before segment after] at hsame
  rw [htext] at hagree
  obtain ⟨tail, htail, hhead⟩ := exists_tail hagree
  obtain ⟨after', hafter'⟩ := exists_segmentation tail
  have hseg' := hsame.extend (fun s _ hs => hs.congr_head hhead) hafter'
  rw [← htail, List.append_assoc, List.singleton_append] at hseg'
  -- so the parser gets the same tokens up to the one that it rejects
  rcases parseText_heard name w hseg with ⟨_, _, _, _, _, _, hsome, _⟩ |
    ⟨ss, last, final, rest, used, bad, pr, moves, hpulls, hlast, hfinal, hst, hnone, hdiagnostics⟩
  · cases h.program.symm.trans hsome
  obtain ⟨ps, hlength, hall⟩ := exists_pulls_upTo w before h.isLexeme
  obtain ⟨hscanned, hlines⟩ := parseText_traces_of_stuck name hseg hpulls hlast hfinal hst
  have hcount : (last ++ final).length = (before.filterMap Segment.lexeme?).length + 1 := by
    have hsame := congrArg List.length (hscanned.symm.trans h.scanned)
    simpa [hx] using hsame
  rw [hall, ← List.append_assoc] at hpulls
  obtain ⟨rfl, rfl⟩ := List.append_inj hpulls (hlength.trans hcount.symm)
  have hpulls' := hall after'
  rw [List.append_assoc] at hpulls'
  obtain ⟨hnone', hdiagnostics'⟩ := parseText_of_stuck name hseg' hpulls' hlast hfinal hst
  obtain ⟨-, hlines'⟩ := parseText_traces_of_stuck name hseg' hpulls' hlast hfinal hst
  refine ⟨hnone', hdiagnostics'.trans hdiagnostics.symm, ?_⟩
  rw [hlines, hlines', hcount,
    (Scanner.faces_start name w hseg (Lookahead.spells_text _) _).afterTokens hx,
    (Scanner.faces_start name w hseg' (Lookahead.spells_text _) _).afterTokens hx]

/-- If a text is a program and goes on in a new line, then all that was reported is still reported first, and
the statements that have been read come first in the program, if there is one. If a text is rejected at a
lexeme, then what comes after the next character makes no difference to the outcome. Every text that is no
program is rejected at its end or at a lexeme, and the rejection is located at the end token or at the
lexeme. -/
theorem outcome_stable (name text : String) (w : Nat) :
    (∀ program, (parseText name text w).program = some program → ∀ more : String,
      (parseText name text w).diagnostics <+: (parseText name (text ++ "\n" ++ more) w).diagnostics ∧
      ∀ program', (parseText name (text ++ "\n" ++ more) w).program = some program' →
        program.body <+: program'.body) ∧
    (∀ before segment, RejectedAt name text w before segment → ∀ text' : String,
      text'.toList.take (((before ++ [segment]).flatMap Segment.chars).length + 1) =
        text.toList.take (((before ++ [segment]).flatMap Segment.chars).length + 1) →
      (parseText name text' w).program = none ∧
        (parseText name text' w).diagnostics = (parseText name text w).diagnostics ∧
        (parseText name text' w).lines = (parseText name text w).lines) ∧
    ((parseText name text w).program = none →
      ((parseText name text w).RejectedAtEnd ∧
        ∃ eof d, (tokenizeText name text w).tokens.getLast? = some eof ∧ eof.kind = .endOfFile ∧
          (parseText name text w).diagnostics.getLast? = some d ∧ d.location = some eof.location) ∨
      ∃ before segment d, RejectedAt name text w before segment ∧
        (parseText name text w).diagnostics.getLast? = some d ∧
        d.location = some (placeAfter w before)) := by
  refine ⟨fun program hprogram more => ?_, fun before segment h text' hagree => h.outcome_eq hagree,
    rejectedAtEnd_or_rejectedAt⟩
  obtain ⟨segments, hseg⟩ := exists_segmentation text.toList
  obtain ⟨segments', hseg'⟩ := exists_segmentation more.toList
  have hlonger : IsSegmentation (text ++ "\n" ++ more).toList
      (segments ++ .blank '\n' :: segments') := by
    have htext : (text ++ "\n" ++ more).toList =
        segments.flatMap Segment.chars ++ '\n' :: more.toList := by
      rw [hseg.chars]
      simp
    have hsame : IsSegmentation (segments.flatMap Segment.chars ++ []) (segments ++ []) := by
      rw [List.append_nil, List.append_nil, hseg.chars]
      exact hseg
    rw [htext]
    exact hsame.extend (fun s _ hs => hs.before_layout (by decide) (fun _ => rfl) _)
      (isSegmentation_cons.2 ⟨_, rfl, .inr (.inr rfl), hseg'⟩)
  rcases parseText_heard name w hseg with
    ⟨ss, last, p, hpulls, hlast, hfit, hsome, hdiagnostics⟩ | ⟨_, _, _, _, _, _, _, _, _, _, _, _, hnone, _⟩
  · obtain ⟨ps, q, hsame, hall⟩ := pulls_append w [] segments
    obtain ⟨rfl, hq⟩ := List.append_inj' (hsame.symm.trans hpulls) rfl
    obtain rfl : q = p := List.singleton_inj.1 hq
    obtain ⟨⟨heard, hheard, hfirst⟩, hstmts⟩ := parseText_begins name hlonger (hall _) hlast hfit
    obtain ⟨p, hp, hreports⟩ := Pull.exists_head_after q.reports
      (pulls_ne_nil w ([] ++ segments) (.blank '\n' :: segments'))
    rw [hsome, Option.some.injEq] at hprogram
    refine ⟨?_, fun program' hprogram' => hprogram ▸ hstmts program' hprogram'⟩
    rw [hdiagnostics, hheard]
    exact (List.prefix_append_right_inj _).2 (hreports.trans (hfirst p hp))
  · cases hnone.symm.trans hprogram

/-- A program with an unexpected character goes on with a statement that does not end; and what comes after a
semicolon that is rejected is never heard of. -/
theorem outcome_stable_behind_semicolon :
    ((parseText "unit" "@ 1;" 8).program ≠ none ∧
      (parseText "unit" "@ 1;" 8).diagnostics <+:
        (parseText "unit" ("@ 1;" ++ "\n" ++ "2 +") 8).diagnostics) ∧
    (RejectedAt "unit" "1 + ; 2" 8 [.number ['1'], .blank ' ', .sign .plus, .blank ' ']
        (.sign .semicolon) ∧
      (parseText "unit" "1 + ; @" 8).diagnostics = (parseText "unit" "1 + ; 2" 8).diagnostics) := by
  have hsome : (parseText "unit" "@ 1;" 8).program.isSome := by decide +kernel
  obtain ⟨program, hprogram⟩ := Option.isSome_iff_exists.1 hsome
  have hrejected : RejectedAt "unit" "1 + ; 2" 8 [.number ['1'], .blank ' ', .sign .plus, .blank ' ']
      (.sign .semicolon) := by
    refine ⟨?_, rfl, by decide +kernel, by decide +kernel⟩
    obtain ⟨after, hafter⟩ := exists_segmentation [' ', '2']
    have hdigit : IsDigit '1' ∧ ¬ IsDigit ' ' := by
      rw [← isDigit_iff, ← isDigit_iff]
      decide
    refine ⟨after, isSegmentation_cons.2 ⟨" + ; 2".toList, rfl, ⟨by decide, ?_, by decide, ?_⟩,
      isSegmentation_cons.2 ⟨"+ ; 2".toList, rfl, .inl rfl,
        isSegmentation_cons.2 ⟨" ; 2".toList, rfl, ⟨by decide, fun h => absurd h (by decide)⟩,
          isSegmentation_cons.2 ⟨"; 2".toList, rfl, .inl rfl,
            isSegmentation_cons.2 ⟨_, rfl, ⟨by decide, fun h => absurd h (by decide)⟩, hafter⟩⟩⟩⟩⟩⟩
    · intro c hc
      rw [List.mem_singleton.1 hc]
      exact .inl hdigit.1
    · rintro c ⟨⟩
      exact ⟨hdigit.2, fun h => absurd h (by decide)⟩
  refine ⟨⟨by simp [hprogram], ?_⟩, hrejected, ?_⟩
  · exact ((outcome_stable "unit" "@ 1;" 8).1 program hprogram "2 +").1
  · exact ((outcome_stable "unit" "1 + ; 2" 8).2.1 _ _ hrejected "1 + ; @" (by decide)).2.1

end SwiftDialect
