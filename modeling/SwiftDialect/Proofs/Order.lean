import SwiftDialect.Proofs.Hearing
import SwiftDialect.Proofs.Positions

/-!
# The order of diagnostics

The scanner reports in the order of the text, and so does the parser. But the parser speaks of a token
after others have been scanned: of the name that a declaration repeats only after its semicolon, and of
a string that it rejects only after the scanner has found that the string does not end. Whatever the
scanner reports in between comes out too early.

These two cases do occur, and the main statement of this module is that they are the only ones in which
diagnostics are out of order.
-/

namespace SwiftDialect

/-! ### Pulls from left to right -/

/-- The pull lies between two places. A character that starts nothing comes before the token, and the
place where a string is cut off after it. -/
structure Pull.Spans (lo hi : Nat) (p : Pull) : Prop where
  starts : lo ≤ p.token.location.handle
  ends : p.token.location.handle < hi
  reports : ∀ d ∈ p.reports,
    (d.code = "E0001" ∧ lo ≤ d.handle ∧ d.handle < p.token.location.handle) ∨
    (d.code = "E0002" ∧ p.token.kind = .stringLiteral ∧ p.token.location.handle < d.handle ∧
      d.handle ≤ hi)

/-- Each pull ends before the next one starts. -/
def Ranked : Nat → List Pull → Prop
  | _, [] => True
  | lo, p :: ps => ∃ hi, p.Spans lo hi ∧ Ranked hi ps

section

variable {lo hi w : Nat} {p : Pull} {ps qs : List Pull} {before ahead : List Segment}
  {segment : Segment}

theorem Pull.Spans.lower (h : p.Spans lo hi) :
    lo ≤ p.token.location.handle ∧ ∀ d ∈ p.reports, lo ≤ d.handle := by
  refine ⟨h.starts, fun d hd => ?_⟩
  have := h.starts
  rcases h.reports d hd with ⟨-, hlo, -⟩ | ⟨-, -, hlt, -⟩ <;> omega

theorem Ranked.lower (h : Ranked lo ps) :
    ∀ p ∈ ps, lo ≤ p.token.location.handle ∧ ∀ d ∈ p.reports, lo ≤ d.handle := by
  induction ps generalizing lo with
  | nil => exact fun p hp => absurd hp List.not_mem_nil
  | cons q ps ih =>
    obtain ⟨hi, hq, hps⟩ := h
    intro p hp
    rcases List.mem_cons.1 hp with rfl | hp
    · exact hq.lower
    · obtain ⟨htoken, hreports⟩ := ih hps p hp
      have := hq.starts
      have := hq.ends
      exact ⟨by omega, fun d hd => by have := hreports d hd; omega⟩

theorem Ranked.append (h : Ranked lo (ps ++ qs)) : ∃ mid, lo ≤ mid ∧ Ranked mid qs ∧
    ∀ p ∈ ps, p.token.location.handle < mid ∧ ∀ d ∈ p.reports, d.handle ≤ mid := by
  induction ps generalizing lo with
  | nil => exact ⟨lo, Nat.le_refl _, h, fun p hp => absurd hp List.not_mem_nil⟩
  | cons q ps ih =>
    obtain ⟨hi, hq, hps⟩ := h
    obtain ⟨mid, hle, hqs, hmid⟩ := ih hps
    have hstarts := hq.starts
    have hends := hq.ends
    refine ⟨mid, by omega, hqs, fun p hp => ?_⟩
    rcases List.mem_cons.1 hp with rfl | hp
    · refine ⟨by omega, fun d hd => ?_⟩
      rcases hq.reports d hd with ⟨-, -, hlt⟩ | ⟨-, -, -, hlt⟩ <;> omega
    · exact hmid p hp

theorem Ranked.left (h : Ranked lo (ps ++ qs)) : Ranked lo ps := by
  induction ps generalizing lo with
  | nil => trivial
  | cons q ps ih =>
    obtain ⟨hi, hq, hps⟩ := h
    exact ⟨hi, hq, ih hps⟩

/-- Up to a token everything comes before it, except for the place where it is cut off itself. -/
theorem Ranked.upTo (h : Ranked lo (ps ++ p :: qs)) :
    ∃ hi, p.token.location.handle < hi ∧ Ranked hi qs ∧
      ∀ d ∈ (ps ++ [p]).flatMap Pull.reports, d.handle ≤ p.token.location.handle ∨
        d.code = "E0002" ∧ p.token.kind = .stringLiteral := by
  obtain ⟨mid, -, ⟨hi, hp, hqs⟩, hmid⟩ := h.append
  have hstarts := hp.starts
  refine ⟨hi, hp.ends, hqs, fun d hd => ?_⟩
  rw [List.flatMap_append, List.flatMap_singleton, List.mem_append] at hd
  rcases hd with hd | hd
  · obtain ⟨q, hq, hd⟩ := List.mem_flatMap.1 hd
    have := (hmid q hq).2 d hd
    exact .inl (by omega)
  · rcases hp.reports d hd with ⟨-, -, hlt⟩ | ⟨hcode, hkind, -⟩
    · exact .inl (Nat.le_of_lt hlt)
    · exact .inr ⟨hcode, hkind⟩

theorem Ranked.code (h : Ranked lo ps) :
    ∀ d ∈ ps.flatMap Pull.reports, d.code = "E0001" ∨ d.code = "E0002" := by
  induction ps generalizing lo with
  | nil => exact fun d hd => absurd hd List.not_mem_nil
  | cons q ps ih =>
    obtain ⟨hi, hq, hps⟩ := h
    intro d hd
    rw [List.flatMap_cons, List.mem_append] at hd
    rcases hd with hd | hd
    · exact (hq.reports d hd).imp And.left And.left
    · exact ih hps d hd

/-- The scanner neither warns of names nor rejects tokens. -/
theorem Ranked.code_ne (h : Ranked lo ps) :
    ∀ d ∈ ps.flatMap Pull.reports, d.code ≠ "W0021" ∧ d.code ∉ rejectionCodes := by
  intro d hd
  rcases h.code d hd with hcode | hcode <;> rw [hcode] <;> decide

theorem Ranked.exists_string (h : Ranked lo ps) {d : Diagnostic} (hd : d ∈ ps.flatMap Pull.reports)
    (hcode : d.code = "E0002") : ∃ p ∈ ps, p.token.kind = .stringLiteral := by
  obtain ⟨p, hp, hmem⟩ := List.mem_flatMap.1 hd
  obtain ⟨before, after, rfl⟩ := List.append_of_mem hp
  obtain ⟨mid, -, ⟨hi, hspans, -⟩, -⟩ := h.append
  rcases hspans.reports d hmem with ⟨hother, -⟩ | ⟨-, hkind, -⟩
  · rw [hcode] at hother
    exact absurd hother (by decide)
  · exact ⟨p, hp, hkind⟩

/-- What is reported outside of lexemes is a character that starts nothing. -/
theorem Segment.report_of_none {d : Diagnostic} (hx : segment.lexeme? = none)
    (hd : segment.diagnostic? w before = some d) : d.code = "E0001" ∧
      d.handle = (placeAfter w before).handle ∧ ∀ c, segment ≠ .blank c := by
  obtain ⟨pr, hpr, rfl⟩ := Option.map_eq_some_iff.1 hd
  cases segment with
  | unrecognised c =>
    obtain rfl := Option.some.inj hpr
    exact ⟨rfl, rfl, nofun⟩
  | blank c => cases hpr
  | comment text => cases hpr
  | _ => cases hx

/-- What is reported about a lexeme is that a string does not end. -/
theorem Segment.report_of_some {d : Diagnostic} {x : Lexeme} (hx : segment.lexeme? = some x)
    (hd : segment.diagnostic? w before = some d) : d.code = "E0002" ∧ x.kind = .stringLiteral ∧
      d.handle = (placeAfter w (before ++ [segment])).handle := by
  obtain ⟨pr, hpr, rfl⟩ := Option.map_eq_some_iff.1 hd
  cases segment with
  | string text closed =>
    cases closed with
    | true => cases hpr
    | false =>
      obtain rfl := Option.some.inj hpr
      obtain rfl := Option.some.inj hx
      exact ⟨rfl, rfl, rfl⟩
  | unrecognised c => cases hx
  | _ => cases hpr

/-- The pulls of a text lie one after the other. -/
theorem ranked_pulls {cs : List Char} (h : IsSegmentation cs (before ++ ahead))
    (hroom : HasRoom w (before ++ ahead)) :
    Ranked (handleAt (trace w before)) (pulls w before ahead) := by
  induction ahead generalizing before with
  | nil =>
    have hplace : (placeAfter w before).handle = handleAt (trace w before) := hroom.handle_placeAfter
    refine ⟨handleAt (trace w before) + 1, ⟨Nat.le_of_eq hplace.symm, ?_, nofun⟩, trivial⟩
    exact Nat.lt_succ_of_le (Nat.le_of_eq hplace)
  | cons segment ahead ih =>
    have hstands := h.stands before segment ahead rfl
    have hplace : (placeAfter w before).handle = handleAt (trace w before) := hroom.handle_placeAfter
    rw [List.append_cons] at h hroom
    have hnext : (placeAfter w (before ++ [segment])).handle =
        handleAt (trace w (before ++ [segment])) := hroom.handle_placeAfter
    have hrest := ih h hroom
    have hlt : (∀ c, segment ≠ .blank c) →
        handleAt (trace w before) < handleAt (trace w (before ++ [segment])) :=
      fun hne => handleAt_lt_of_cons (hstands.breadth_pos hne)
    rw [pulls]
    cases hx : segment.lexeme? with
    | none =>
      -- the report of the segment goes before the next token, which stands behind the segment
      obtain ⟨p, ps, hps⟩ := List.exists_cons_of_ne_nil (pulls_ne_nil w (before ++ [segment]) ahead)
      rw [hps] at hrest ⊢
      obtain ⟨hi, hp, hafter⟩ := hrest
      have hle : handleAt (trace w before) ≤ handleAt (trace w (before ++ [segment])) := by
        rw [handleAt_trace_append]
        exact Nat.le_add_right _ _
      refine ⟨hi, ⟨Nat.le_trans hle hp.starts, hp.ends, fun d hd => ?_⟩, hafter⟩
      rcases List.mem_append.1 hd with hd | hd
      · obtain ⟨hcode, hhandle, hne⟩ := Segment.report_of_none hx (Option.mem_toList.1 hd)
        have := hlt hne
        have := hp.starts
        exact .inl ⟨hcode, by omega, by show _ < p.token.location.handle; omega⟩
      · rcases hp.reports d hd with ⟨hcode, hlo, hhi⟩ | hcut
        · exact .inl ⟨hcode, Nat.le_trans hle hlo, hhi⟩
        · exact .inr hcut
    | some x =>
      -- a token stands where its segment starts, and a cut string is reported where it ends
      have hpos := hlt (Segment.ne_blank_of_lexeme hx)
      rw [← hplace] at hpos ⊢
      refine ⟨_, ⟨Nat.le_refl _, hpos, fun d hd => .inr ?_⟩, hrest⟩
      obtain ⟨hcode, hkind, hhandle⟩ := Segment.report_of_some hx (Option.mem_toList.1 hd)
      rw [hnext] at hhandle
      exact ⟨hcode, hkind, by rw [hhandle]; exact hpos, Nat.le_of_eq hhandle⟩

end

/-! ### What is out of order -/

/-- Diagnostics in the order of their places. -/
def InOrder (ds : List Diagnostic) : Prop :=
  ds.Pairwise fun d e => d.handle ≤ e.handle

/-- The parser does not come late with a report: after a repeated name nothing unexpected stands before
the next semicolon, and no string is cut off after a token that is rejected. -/
structure Punctual (ts : List Token) (ds : List Diagnostic) : Prop where
  warnings : ∀ d ∈ ds, ∀ e ∈ ds, d.code = "W0021" → e.code = "E0001" → d.handle < e.handle →
    ∃ t ∈ ts, t.kind = .semicolon ∧ d.handle < t.location.handle ∧ t.location.handle < e.handle
  rejections : ∀ d ∈ ds, ∀ e ∈ ds, d.code ∈ rejectionCodes → e.code = "E0002" → e.handle ≤ d.handle

theorem inOrder_append {ds es : List Diagnostic} (h : ∀ d ∈ ds, ∀ e ∈ es, d.handle ≤ e.handle) :
    InOrder (ds ++ es) ↔ InOrder ds ∧ InOrder es := by
  rw [InOrder, List.pairwise_append]
  exact ⟨fun hall => ⟨hall.1, hall.2.1⟩, fun hall => ⟨hall.1, hall.2, h⟩⟩

theorem inOrder_concat {ds : List Diagnostic} (h : InOrder ds) (d : Diagnostic) :
    InOrder (ds ++ [d]) ↔ ∀ e ∈ ds, e.handle ≤ d.handle := by
  rw [InOrder, List.pairwise_append]
  refine ⟨fun hall e he => hall.2.2 e he d (List.mem_singleton_self d), fun hall =>
    ⟨h, List.pairwise_singleton _ _, fun e he d' hd' => ?_⟩⟩
  rw [List.mem_singleton.1 hd']
  exact hall e he

/-- Reports that a semicolon parts can be looked at apart. -/
theorem punctual_append {ts : List Token} {ds es : List Diagnostic} {t : Token} (ht : t ∈ ts)
    (hkind : t.kind = .semicolon) (hds : ∀ d ∈ ds, d.code ∉ rejectionCodes ∧
      d.handle ≤ t.location.handle ∧ (d.code = "W0021" → d.handle < t.location.handle))
    (hes : ∀ e ∈ es, t.location.handle < e.handle) :
    Punctual ts (ds ++ es) ↔ Punctual ts ds ∧ Punctual ts es := by
  constructor
  · intro h
    have hleft : ∀ d ∈ ds, d ∈ ds ++ es := fun d hd => List.mem_append_left _ hd
    have hright : ∀ e ∈ es, e ∈ ds ++ es := fun e he => List.mem_append_right _ he
    exact ⟨⟨fun d hd e he => h.warnings d (hleft d hd) e (hleft e he),
        fun d hd e he => h.rejections d (hleft d hd) e (hleft e he)⟩,
      ⟨fun d hd e he => h.warnings d (hright d hd) e (hright e he),
        fun d hd e he => h.rejections d (hright d hd) e (hright e he)⟩⟩
  · rintro ⟨hleft, hright⟩
    constructor
    · intro d hd e he hwarning hunexpected hlt
      -- a warning and a character on both sides of the semicolon are excused by it
      rcases List.mem_append.1 hd with hd | hd <;> rcases List.mem_append.1 he with he | he
      · exact hleft.warnings d hd e he hwarning hunexpected hlt
      · exact ⟨t, ht, hkind, (hds d hd).2.2 hwarning, hes e he⟩
      · have := (hds e he).2.1
        have := hes d hd
        omega
      · exact hright.warnings d hd e he hwarning hunexpected hlt
    · intro d hd e he hrejection hcut
      rcases List.mem_append.1 hd with hd | hd
      · exact absurd hrejection (hds d hd).1
      rcases List.mem_append.1 he with he | he
      · have := (hds e he).2.1
        have := hes d hd
        omega
      · exact hright.rejections d hd e he hrejection hcut

/-- Reports of the scanner alone are punctual. -/
theorem Ranked.punctual {lo : Nat} {ps : List Pull} (h : Ranked lo ps) (ts : List Token) :
    Punctual ts (ps.flatMap Pull.reports) := by
  refine ⟨fun d hd e _ hcode => ?_, fun d hd e _ hcode => ?_⟩
  · exact absurd hcode (h.code_ne d hd).1
  · exact absurd hcode (h.code_ne d hd).2

/-! ### Statement by statement -/

/-- Tokens from left to right. -/
def Increasing (ts : List Token) : Prop :=
  ts.Pairwise fun t u => t.location.handle < u.location.handle

theorem Increasing.mem_between {as mid bs : List Token} {x y t : Token}
    (h : Increasing (as ++ x :: (mid ++ y :: bs))) (ht : t ∈ as ++ x :: (mid ++ y :: bs))
    (hlo : x.location.handle < t.location.handle) (hhi : t.location.handle < y.location.handle) :
    t ∈ mid := by
  obtain ⟨-, hfrom, has⟩ := List.pairwise_append.1 h
  obtain ⟨-, hrest⟩ := List.pairwise_cons.1 hfrom
  obtain ⟨-, hpast, -⟩ := List.pairwise_append.1 hrest
  obtain ⟨hbs, -⟩ := List.pairwise_cons.1 hpast
  rcases List.mem_append.1 ht with ht | ht
  · have := has t ht x List.mem_cons_self
    omega
  rcases List.mem_cons.1 ht with rfl | ht
  · omega
  rcases List.mem_append.1 ht with ht | ht
  · exact ht
  rcases List.mem_cons.1 ht with rfl | ht
  · omega
  · have := hbs t ht
    omega

namespace Sentence

theorem exists_semicolon (s : Sentence) :
    ∃ init last, s.tokens = init ++ [last] ∧ last.kind = .semicolon := by
  cases s with
  | declaration intro ident colon type semicolon =>
    exact ⟨[intro.1, ident.1, colon.1, type.1], semicolon.1, rfl, List.mem_singleton.1 semicolon.2⟩
  | evaluation e semicolon => exact ⟨e.tokens, semicolon.1, rfl, List.mem_singleton.1 semicolon.2⟩

variable {s : Sentence} (scopes : Scopes) {ts before after : List Token} {taken rest : List Pull}
  {lo : Nat}

/-- A warning speaks of a name that comes before the semicolon. -/
theorem warned_spec {init : List Token} {last : Token} (hlast : s.tokens = init ++ [last])
    (hsorted : Increasing s.tokens) : ∀ d ∈ s.warned scopes, d.code = "W0021" ∧
      d.handle < last.location.handle := by
  intro d hd
  cases s with
  | evaluation e semicolon => cases hd
  | declaration intro ident colon type semicolon =>
    have htokens : tokens (declaration intro ident colon type semicolon) =
        [intro.1, ident.1, colon.1, type.1] ++ [semicolon.1] := rfl
    rw [htokens] at hlast hsorted
    obtain rfl : semicolon.1 = last := (List.cons.inj (List.append_inj' hlast rfl).2).1
    rw [warned] at hd
    split at hd
    · obtain rfl := List.mem_singleton.1 hd
      exact ⟨rfl, (List.pairwise_append.1 hsorted).2.2 ident.1 (by simp) semicolon.1 (by simp)⟩
    · cases hd

/-- What is reported while a statement is read lies before its semicolon, and all else after it. -/
theorem parted (hranked : Ranked lo (taken ++ rest)) (htaken : taken.map Pull.token = s.tokens)
    (hsorted : Increasing s.tokens) : ∃ hi, ∃ t ∈ s.tokens, t.kind = .semicolon ∧
      s.tokens.getLast? = some t ∧ t.location.handle < hi ∧ Ranked hi rest ∧
      ∀ d ∈ taken.flatMap Pull.reports ++ s.warned scopes, d.code ∉ rejectionCodes ∧
        d.handle ≤ t.location.handle ∧ (d.code = "W0021" → d.handle < t.location.handle) := by
  obtain ⟨init, last, hlast, hkind⟩ := s.exists_semicolon
  have hwarned := warned_spec scopes hlast hsorted
  rw [hlast] at htaken ⊢
  obtain ⟨ps, qs, rfl, -, hqs⟩ := List.map_eq_append_iff.1 htaken
  obtain ⟨q, rfl, rfl⟩ := List.map_eq_singleton_iff.1 hqs
  have hcode := hranked.left.code_ne
  rw [← List.append_cons] at hranked
  obtain ⟨hi, hlt, hrest, hup⟩ := hranked.upTo
  refine ⟨hi, q.token, by simp, hkind, by simp, hlt, hrest, fun d hd => ?_⟩
  rcases List.mem_append.1 hd with hd | hd
  · obtain ⟨hwarning, hrejection⟩ := hcode d hd
    -- only a string is reported beyond its place, and the semicolon is none
    refine ⟨hrejection, (hup d hd).resolve_right fun hstring => ?_, fun h => absurd h hwarning⟩
    rw [hkind] at hstring
    cases hstring.2
  · obtain ⟨hcode, hlt⟩ := hwarned d hd
    exact ⟨by rw [hcode]; decide, Nat.le_of_lt hlt, fun _ => hlt⟩

/-- The reports of one statement are in order exactly if its warning does not come late. -/
theorem inOrder_iff (hranked : Ranked lo (taken ++ rest)) (htaken : taken.map Pull.token = s.tokens)
    (hsorted : Increasing (before ++ (s.tokens ++ after)))
    (hreports : InOrder (taken.flatMap Pull.reports)) :
    InOrder (taken.flatMap Pull.reports ++ s.warned scopes) ↔
      Punctual (before ++ (s.tokens ++ after)) (taken.flatMap Pull.reports ++ s.warned scopes) := by
  -- without a warning nothing can be late
  have hplain : ∀ {es : List Diagnostic}, es = [] →
      (InOrder (taken.flatMap Pull.reports ++ es) ↔
        Punctual (before ++ (s.tokens ++ after)) (taken.flatMap Pull.reports ++ es)) := by
    rintro es rfl
    rw [List.append_nil]
    exact iff_of_true hreports (hranked.left.punctual _)
  have hblock : Increasing s.tokens :=
    (List.pairwise_append.1 (List.pairwise_append.1 hsorted).2.1).1
  obtain ⟨hi, t, -, -, hlast, -, -, hbefore⟩ := parted scopes hranked htaken hblock
  cases s with
  | evaluation e semicolon => exact hplain rfl
  | declaration intro ident colon type semicolon =>
    rw [warned] at hbefore ⊢
    split
    · next hknown =>
      rw [if_pos hknown] at hbefore
      obtain rfl : semicolon.1 = t := Option.some.inj hlast
      have hcode := hranked.left.code
      -- the warning comes last, so all that matters is that no report lies beyond the name
      rw [inOrder_concat hreports]
      constructor
      · intro h
        refine ⟨fun d hd e he hwarning hunexpected hlt => ?_, fun d hd e _ hrejection =>
          absurd hrejection (hbefore d hd).1⟩
        rcases List.mem_append.1 he with he | he
        · rcases List.mem_append.1 hd with hd | hd
          · exact absurd hwarning (hranked.left.code_ne d hd).1
          · rw [List.mem_singleton.1 hd] at hlt
            exact absurd hlt (Nat.not_lt.2 (h e he))
        · rw [List.mem_singleton.1 he] at hunexpected
          have hcodes : "W0021" = "E0001" := hunexpected
          exact absurd hcodes (by decide)
      · intro h e he
        refine Nat.le_of_not_lt fun hlt => ?_
        rcases hcode e he with hunexpected | hcut
        · -- the semicolon that excuses the warning would have to stand before the type ends
          obtain ⟨t, ht, hkind, hlo, hhi⟩ := h.warnings _ (List.mem_append_right _ List.mem_cons_self)
            e (List.mem_append_left _ he) rfl hunexpected hlt
          have hle := (hbefore e (List.mem_append_left _ he)).2.1
          have hwhole : Increasing ((before ++ [intro.1]) ++
              ident.1 :: ([colon.1, type.1] ++ semicolon.1 :: after)) := by
            simpa [tokens] using hsorted
          have hmem : t ∈ [colon.1, type.1] := hwhole.mem_between (by simpa [tokens] using ht) hlo
            (Nat.lt_of_lt_of_le hhi hle)
          rcases List.mem_cons.1 hmem with rfl | hmem
          · exact colon.kind_ne (by decide) hkind
          · rw [List.mem_singleton.1 hmem] at hkind
            exact type.kind_ne (by decide) hkind
        · -- only a string is cut off, and a declaration has none
          obtain ⟨p, hp, hstring⟩ := hranked.left.exists_string he hcut
          have hmem : p.token ∈ tokens (declaration intro ident colon type semicolon) := by
            rw [← htaken]
            exact List.mem_map_of_mem hp
          simp only [tokens, List.mem_cons, List.not_mem_nil, or_false] at hmem
          rcases hmem with heq | heq | heq | heq | heq <;> rw [heq] at hstring
          · exact intro.kind_ne (by decide) hstring
          · exact ident.kind_ne (by decide) hstring
          · exact colon.kind_ne (by decide) hstring
          · exact type.kind_ne (by decide) hstring
          · exact semicolon.kind_ne (by decide) hstring
    · exact hplain rfl

/-- What is heard speaks of characters and tokens that were pulled. -/
theorem lower_heard {hi : Nat} (ss : List Sentence) : ∀ (scopes : Scopes) {taken : List Pull},
    (∀ p ∈ taken, hi ≤ p.token.location.handle ∧ ∀ d ∈ p.reports, hi ≤ d.handle) →
    taken.map Pull.token = ss.flatMap tokens → ∀ d ∈ heard scopes ss taken, hi ≤ d.handle := by
  intro scopes taken hlower htaken d hd
  obtain ⟨p, hp, hdp | ⟨-, rfl⟩⟩ := mem_heard ss htaken hd
  · exact (hlower p hp).2 d hdp
  · exact (hlower p hp).1

/-- Statements and what follows them are in order exactly if no warning comes late. -/
theorem heard_inOrder_iff (ss : List Sentence) : ∀ (scopes : Scopes) (before : List Token) {lo : Nat}
    {after : List Token} {taken rest : List Pull} {ds : List Diagnostic},
    Ranked lo (taken ++ rest) → taken.map Pull.token = ss.flatMap tokens →
    Increasing (before ++ (ss.flatMap tokens ++ after)) → InOrder (taken.flatMap Pull.reports) →
    (∀ mid, Ranked mid rest → ∀ d ∈ ds, mid ≤ d.handle) →
    (InOrder ds ↔ Punctual (before ++ (ss.flatMap tokens ++ after)) ds) →
    (InOrder (heard scopes ss taken ++ ds) ↔
      Punctual (before ++ (ss.flatMap tokens ++ after)) (heard scopes ss taken ++ ds)) := by
  induction ss with
  | nil => exact fun scopes _ _ _ _ _ _ _ _ _ _ _ h => h
  | cons s ss ih =>
    intro scopes before lo after taken rest ds hranked htaken hsorted hreports hds hiff
    rw [List.flatMap_cons] at htaken
    rw [List.flatMap_cons, List.append_assoc] at hsorted hiff ⊢
    obtain ⟨block, others, rfl, hblock, hothers⟩ := List.map_eq_append_iff.1 htaken
    have hlength : block.length = s.tokens.length := by rw [← hblock, List.length_map]
    rw [List.append_assoc] at hranked
    rw [List.flatMap_append] at hreports
    obtain ⟨hreportsBlock, hreportsOthers, -⟩ := List.pairwise_append.1 hreports
    have hincreasing : Increasing s.tokens :=
      (List.pairwise_append.1 (List.pairwise_append.1 hsorted).2.1).1
    obtain ⟨hi, t, ht, hkind, -, hlt, hrest, hbefore⟩ :=
      parted scopes hranked hblock hincreasing
    have hfirst := inOrder_iff scopes hranked hblock hsorted hreportsBlock
    -- the semicolon of the first statement parts its reports from all that follow
    have hafter : ∀ e ∈ heard (s.effect scopes) ss others ++ ds, t.location.handle < e.handle := by
      intro e he
      refine Nat.lt_of_lt_of_le hlt ?_
      rcases List.mem_append.1 he with he | he
      · exact lower_heard ss _ hrest.left.lower hothers e he
      · obtain ⟨mid, hle, hmid, -⟩ := hrest.append
        exact Nat.le_trans hle (hds mid hmid e he)
    have hothersIff := ih (s.effect scopes) (before ++ s.tokens) hrest hothers
      (by simpa using hsorted) hreportsOthers hds (by simpa using hiff)
    have hmem : t ∈ before ++ (s.tokens ++ (ss.flatMap tokens ++ after)) := by simp [ht]
    rw [List.append_assoc] at hothersIff
    rw [heard, List.take_left' hlength, List.drop_left' hlength, ← List.append_assoc,
      List.append_assoc, inOrder_append fun d hd e he => Nat.le_trans (hbefore d hd).2.1
        (Nat.le_of_lt (hafter e he)), punctual_append hmem hkind hbefore hafter, hfirst, hothersIff]

end Sentence

/-! ### The whole text -/

/-- The reports up to a rejection are in order exactly if the rejected token is not cut off. -/
theorem rejection_inOrder_iff {lo : Nat} {ps rest : List Pull} {q : Pull} {pr : Problem}
    (hranked : Ranked lo (ps ++ q :: rest)) (hreports : InOrder ((ps ++ [q]).flatMap Pull.reports))
    (hcode : pr.entry.code ∈ rejectionCodes) (ts : List Token) :
    InOrder ((ps ++ [q]).flatMap Pull.reports ++ [pr.diagnose q.token.location]) ↔
      Punctual ts ((ps ++ [q]).flatMap Pull.reports ++ [pr.diagnose q.token.location]) := by
  obtain ⟨hi, -, -, hup⟩ := hranked.upTo
  rw [List.append_cons] at hranked
  have hscanned := hranked.left.code_ne
  rw [inOrder_concat hreports]
  constructor
  · intro h
    refine ⟨fun d hd e _ hwarning => ?_, fun d hd e he hrejection hcut => ?_⟩
    · rcases List.mem_append.1 hd with hd | hd
      · exact absurd hwarning (hscanned d hd).1
      · rw [List.mem_singleton.1 hd] at hwarning
        have hcodes : pr.entry.code = "W0021" := hwarning
        rw [hcodes] at hcode
        exact absurd hcode (by decide)
    · rcases List.mem_append.1 hd with hd | hd
      · exact absurd hrejection (hscanned d hd).2
      · rw [List.mem_singleton.1 hd]
        rcases List.mem_append.1 he with he | he
        · exact h e he
        · rw [List.mem_singleton.1 he]
  · intro h e he
    -- only a string that is cut off can be reported beyond the rejected token
    rcases hup e he with hle | ⟨hcut, -⟩
    · exact hle
    · exact h.rejections _ (List.mem_append_right _ List.mem_cons_self) e (List.mem_append_left _ he)
        hcode hcut

/-- As long as no token of a text has the greatest location, its diagnostics come out in the order of
their places exactly if the parser is never late: nothing unexpected stands between a repeated name
and the next semicolon, and no string is cut off after the token that is rejected. -/
theorem diagnostics_inOrder_iff (name text : String) (w : Nat)
    (h : ∀ t ∈ (tokenizeText name text w).tokens, t.location.handle < counterLimit) :
    (parseText name text w).diagnostics.Pairwise (fun d e => d.handle ≤ e.handle) ↔
      (∀ d ∈ (parseText name text w).diagnostics, ∀ e ∈ (parseText name text w).diagnostics,
        d.code = "W0021" → e.code = "E0001" → d.handle < e.handle →
          ∃ t ∈ (tokenizeText name text w).tokens, t.kind = .semicolon ∧
            d.handle < t.location.handle ∧ t.location.handle < e.handle) ∧
      (∀ d ∈ (parseText name text w).diagnostics, ∀ e ∈ (parseText name text w).diagnostics,
        d.code ∈ rejectionCodes → e.code = "E0002" → e.handle ≤ d.handle) := by
  obtain ⟨segments, hseg⟩ := exists_segmentation text.toList
  have htokens := (tokenizeText_eq name w hseg).1
  -- the end comes last, so there is room for all places if there is room for it
  have hroom : HasRoom w ([] ++ segments) := by
    have hlast := h (endLexeme.token (placeAfter w segments)) (by
      rw [htokens, map_token_pulls]
      simp)
    have hcapped : capped (handleAt (trace w segments)) < counterLimit := hlast
    rw [capped] at hcapped
    rw [List.nil_append, HasRoom]
    omega
  have hranked : Ranked (handleAt (trace w [])) (pulls w [] segments) := ranked_pulls hseg hroom
  have hsorted : Increasing ((pulls w [] segments).map Pull.token) := hroom.pairwise_tokens hseg
  have hreports : InOrder ((pulls w [] segments).flatMap Pull.reports) :=
    (hroom.pairwise_reports hseg).imp Nat.le_of_lt
  suffices hiff : InOrder (parseText name text w).diagnostics ↔
      Punctual (tokenizeText name text w).tokens (parseText name text w).diagnostics from
    hiff.trans ⟨fun h => ⟨h.warnings, h.rejections⟩, fun h => ⟨h.1, h.2⟩⟩
  rw [htokens]
  rcases parseText_heard name w hseg with
    ⟨ss, last, p, hpulls, hlast, -, -, hdiagnostics⟩ |
    ⟨ss, last, final, rest, used, bad, pr, moves, hpulls, hlast, hfinal, hst, -, hdiagnostics⟩
  · rw [hpulls] at hranked hsorted hreports ⊢
    rw [List.map_append, hlast] at hsorted ⊢
    rw [List.flatMap_append] at hreports
    obtain ⟨hbefore, hend, -⟩ := List.pairwise_append.1 hreports
    rw [List.flatMap_singleton] at hend
    obtain ⟨mid, -, hp, -⟩ := hranked.append
    have hscanned := hp.punctual (ss.flatMap Sentence.tokens ++ [p].map Pull.token)
    rw [List.flatMap_singleton] at hscanned
    rw [hdiagnostics]
    exact Sentence.heard_inOrder_iff ss (Scopes.push {}) [] hranked hlast hsorted hbefore
      (fun mid hmid d hd => (hmid.lower p List.mem_cons_self).2 d hd) (iff_of_true hend hscanned)
  · obtain ⟨ps, qs, rfl, -, hqs⟩ := List.map_eq_append_iff.1 hfinal
    obtain ⟨q, rfl, rfl⟩ := List.map_eq_singleton_iff.1 hqs
    rw [hpulls] at hranked hsorted hreports ⊢
    rw [List.map_append, hlast] at hsorted ⊢
    rw [List.flatMap_append, List.flatMap_append] at hreports
    obtain ⟨hbefore, hend, -⟩ := List.pairwise_append.1 hreports
    obtain ⟨mid, -, hp, -⟩ := hranked.append
    rw [hdiagnostics]
    refine Sentence.heard_inOrder_iff ss (Scopes.push {}) [] hranked hlast hsorted hbefore
      (fun mid hmid d hd => ?_) ?_
    · have hlower := hmid.left.lower
      rcases List.mem_append.1 hd with hd | hd
      · obtain ⟨p, hp, hd⟩ := List.mem_flatMap.1 hd
        exact (hlower p hp).2 d hd
      · rw [List.mem_singleton.1 hd]
        exact (hlower q (by simp)).1
    · rw [← List.append_cons] at hp
      exact rejection_inOrder_iff hp (List.pairwise_append.1 hend).1 hst.stuck.code_mem _

/-- An unexpected character after a repeated name, but behind a semicolon. -/
theorem diagnostics_inOrder_behind_semicolon :
    (∀ t ∈ (tokenizeText "unit" "let x: Int32; let x: Int32; @ x;" 8).tokens,
      t.location.handle < counterLimit) ∧
    (parseText "unit" "let x: Int32; let x: Int32; @ x;" 8).diagnostics.Pairwise
      (fun d e => d.handle ≤ e.handle) := by
  have hroom : ∀ t ∈ (tokenizeText "unit" "let x: Int32; let x: Int32; @ x;" 8).tokens,
      t.location.handle < counterLimit := by decide +kernel
  refine ⟨hroom, (diagnostics_inOrder_iff _ _ _ hroom).2 ⟨?_, ?_⟩⟩
  · decide +kernel
  · decide +kernel

/-- An unexpected character between a repeated name and the semicolon is reported first. -/
theorem diagnostics_outOfOrder :
    (∀ t ∈ (tokenizeText "unit" "let x: Int32; let x @: Int32;" 8).tokens,
      t.location.handle < counterLimit) ∧
    ¬ (parseText "unit" "let x: Int32; let x @: Int32;" 8).diagnostics.Pairwise
      (fun d e => d.handle ≤ e.handle) := by
  decide +kernel

/-- So is the place where a rejected string is cut off. -/
example : (parseText "unit" "let \"ab" 8).diagnostics.map (fun d => (d.code, d.handle)) =
    [("E0002", 8), ("E0010", 5)] := by decide +kernel

end SwiftDialect
