import SwiftDialect.Proofs.Failure
import SwiftDialect.Proofs.Handles
import SwiftDialect.Proofs.Tracking

/-!
# One stream of tokens

A scanner that reads one token after the other comes to a fixed sequence of *finds*: tokens, each with what
is reported and which lines start on the way to it. From the first end token on, nothing new is found. A
lexer shows this sequence and nothing else, however it is looked at and consumed, and it reads no further
than it has to.

Main statement: what a lexer shows, what it has reported and which lines it has registered depends on how
many tokens were consumed and pulled, and its source is not asked again once it has come to an end
(`lexer_is_one_stream`).
-/

namespace SwiftDialect

universe u

/-- What reading a token brings: the token, what is reported on the way, and the lines that start on the
way, the oldest first. -/
structure Find where
  token : Token
  reports : List Diagnostic
  starts : List LineStart
  deriving DecidableEq, Repr

/-! ### Line tables -/

namespace LineTable

theorem starts_locate (t : LineTable) (column : Nat) : t.starts <:+ (t.locate column).2.starts := by
  cases h : t.starts with
  | nil => exact List.nil_suffix
  | cons current older =>
    rw [locate_of_cons h]
    exact h ▸ List.suffix_refl _

/-- Asking for the same place again changes nothing. -/
theorem locate_locate (t : LineTable) (column : Nat) :
    (t.locate column).2.locate column = t.locate column := by
  have hagain : ∀ {t : LineTable} {current older}, t.starts = current :: older →
      (t.locate column).2.locate column = t.locate column := by
    intro t current older h
    have hkept : { t with highest := max t.highest (stickyAdd current.base (column - 1)) }.starts =
        current :: older := h
    rw [locate_of_cons h, locate_of_cons hkept]
    simp
  cases h : t.starts with
  | nil => rw [locate_of_nil h, hagain rfl]
  | cons current older => exact hagain h

end LineTable

/-! ### What a scanner finds -/

namespace Scanner

variable {σ : Type u} [CharSource σ] {s s' : Scanner σ}

/-- The scanner after `n` tokens were read one after the other. -/
def afterScans (s : Scanner σ) : Nat → Scanner σ
  | 0 => s
  | n + 1 => (afterScans s n).scan.2

/-- What reading the next token brings. -/
def find (s : Scanner σ) : Find where
  token := s.scan.1
  reports := s.scan.2.journal.diagnostics.drop s.journal.diagnostics.length
  starts := s.scan.2.lines.starts.reverse.drop s.lines.starts.length

/-- What reading a token brings after `n` others were read. -/
def found (s : Scanner σ) (n : Nat) : Find :=
  (s.afterScans n).find

/-- Reports and line starts are only ever added. -/
theorem Reaches.grows {E : Event → Prop} (h : s.Reaches E s') :
    s.journal.diagnostics <+: s'.journal.diagnostics ∧ s.lines.starts <:+ s'.lines.starts := by
  induction h with
  | refl => exact ⟨List.prefix_refl _, List.suffix_refl _⟩
  | chars _ _ ih => exact ih
  | here _ ih => exact ⟨ih.1, ih.2.trans (LineTable.starts_locate _ _)⟩
  | advance n _ ih => exact ih
  | newLine _ ih => exact ⟨ih.1, ih.2.trans (List.suffix_cons _ _)⟩
  | record _ _ ih =>
    refine ⟨ih.1.trans ?_, ih.2⟩
    simp only [Scanner.record, Journal.diagnostics_record]
    exact List.prefix_append _ _

theorem diagnostics_scan (s : Scanner σ) :
    s.scan.2.journal.diagnostics = s.journal.diagnostics ++ s.find.reports :=
  (List.prefix_iff_eq_append.1 s.reaches_scan.grows.1).symm

theorem starts_scan (s : Scanner σ) :
    s.scan.2.lines.starts.reverse = s.lines.starts.reverse ++ s.find.starts := by
  have hgrows := List.prefix_iff_eq_append.1 (List.reverse_prefix.2 s.reaches_scan.grows.2)
  rw [List.length_reverse] at hgrows
  exact hgrows.symm

/-- What grows with each token has grown by what was found. -/
theorem afterScans_grown {α : Type} (f : Scanner σ → List α) (part : Find → List α)
    (hscan : ∀ s : Scanner σ, f s.scan.2 = f s ++ part s.find) (s : Scanner σ) (n : Nat) :
    f (s.afterScans n) = f s ++ (List.range n).flatMap fun k => part (s.found k) := by
  induction n with
  | zero => exact (List.append_nil _).symm
  | succ n ih =>
    rw [afterScans, hscan, ih, List.range_succ, List.flatMap_append, List.append_assoc]
    simp [found]

theorem Sound.afterScans {name : String} (h : s.Sound name) (n : Nat) : (s.afterScans n).Sound name := by
  induction n with
  | zero => exact h
  | succ n ih => exact (reaches_scan _).sound ih

/-! ### The end -/

theorem step_of_none (h : s.chars.pop.1 = none) : s.step =
    (some ⟨.endOfFile, s.here.1, ""⟩, { s.here.2 with chars := s.chars.pop.2.unread none }) := by
  rw [step, ← Prod.eta s.chars.pop, h]

/-- A scanner that has come to the end stays there. -/
theorem scan_of_end (h : s.scan.1.kind = .endOfFile) : s.scan.2.scan = s.scan := by
  obtain ⟨s', -, hstep, hlast⟩ := exists_last_step (P := fun _ => True) (fun _ _ _ => trivial) s trivial
  have hend := step_of_none (pop_of_step_end hstep h)
  have hagain : s'.step.2.step = s'.step := by
    have hwaits : s'.step.2.chars.pop.1 = none := by rw [hend]; rfl
    rw [step_of_none hwaits, hend]
    simp only [here, LineTable.locate_locate]
    rfl
  have hfirst : s.scan = (s.scan.1, s'.step.2) := Prod.ext rfl hlast
  rw [hfirst, scan_of_some (by rw [hagain]; exact hstep), hagain]

/-- After an end token the same end token is found again and again, and nothing else. -/
theorem found_of_end {n : Nat} (h : (s.found n).token.kind = .endOfFile) {k : Nat} (hk : n < k) :
    s.found k = ⟨(s.found n).token, [], []⟩ := by
  have hscan : (s.afterScans (n + 1)).scan = (s.afterScans n).scan := scan_of_end h
  -- the scanner that has come to the end is left as it is by every further scan
  have hstays : ∀ m, s.afterScans (n + 1 + m) = s.afterScans (n + 1) := by
    intro m
    induction m with
    | zero => rfl
    | succ m ih =>
      show (s.afterScans (n + 1 + m)).scan.2 = _
      rw [ih, hscan]
      rfl
  obtain ⟨m, rfl⟩ := Nat.exists_eq_add_of_lt hk
  rw [found, show n + m + 1 = n + 1 + m by omega, hstays, find, hscan]
  show (⟨(s.found n).token, (s.afterScans (n + 1)).journal.diagnostics.drop _,
    (s.afterScans (n + 1)).lines.starts.reverse.drop _⟩ : Find) = _
  simp

/-! ### Tokens that are entered into the journal -/

/-- The scanners differ only in events that report nothing. -/
structure Echoes (s s' : Scanner σ) : Prop where
  alike : Alike s.journal s'.journal s s'
  diagnostics : s.journal.diagnostics = s'.journal.diagnostics

theorem Echoes.next (h : s.Echoes s') :
    (Producer.next s).1 = s'.scan.1 ∧ (Producer.next s).2.Echoes s'.scan.2 := by
  obtain ⟨htoken, hscan⟩ := h.alike.scan
  obtain ⟨es, hs, hs'⟩ := hscan.events
  refine ⟨htoken, ⟨hscan.chars, ⟨[], rfl, rfl⟩, hscan.lines, hscan.line, hscan.column, hscan.tabWidth⟩, ?_⟩
  show (s.scan.2.journal.record _).diagnostics = _
  rw [Journal.diagnostics_record, hs, hs', Journal.diagnostics_recordAll, Journal.diagnostics_recordAll,
    h.diagnostics]
  simp [Event.diagnostic?]

theorem echoes_after (s : Scanner σ) (n : Nat) : (Producer.after s n).Echoes (s.afterScans n) := by
  induction n with
  | zero =>
    obtain ⟨cs, hcs⟩ := Lookahead.exists_spells s.chars
    exact ⟨⟨⟨cs, hcs, hcs⟩, ⟨[], rfl, rfl⟩, rfl, rfl, rfl, rfl⟩, rfl⟩
  | succ n ih => exact ih.next.2

theorem item_eq_found (s : Scanner σ) (n : Nat) : Producer.item s n = (s.found n).token :=
  (s.echoes_after n).next.1

/-- There is a first end token, and all tokens from it on are end tokens. -/
theorem exists_first_end (s : Scanner σ) :
    ∃ last, ∀ k, (s.found k).token.kind = .endOfFile ↔ last ≤ k := by
  obtain ⟨body, eof, -, hend⟩ := Lookahead.readAll_spec (Lookahead.ofSource s)
  have hget : ∀ k, k ≤ body.length → (body ++ [eof])[k]? = some (s.found k).token := by
    intro k hk
    rw [(Lookahead.tracks_ofSource s).getElem?_of_yields hend.yields (by simpa using Nat.lt_succ_of_le hk),
      Nat.zero_add, item_eq_found]
  have hlast : (s.found body.length).token.kind = .endOfFile := by
    have := hget body.length (Nat.le_refl _)
    simp only [List.getElem?_concat_length, Option.some.injEq] at this
    rw [← this, hend.eof_kind]
  refine ⟨body.length, fun k => ⟨fun h => Nat.le_of_not_lt fun hlt => ?_, fun h => ?_⟩⟩
  · have hmem := hget k (Nat.le_of_lt hlt)
    rw [List.getElem?_append_left hlt] at hmem
    exact hend.body_kind _ (List.mem_of_getElem? hmem) h
  · rcases Nat.eq_or_lt_of_le h with rfl | hlt
    · exact hlast
    · rw [found_of_end hlast hlt]
      exact hlast

end Scanner

/-! ### How often the source is asked -/

/-- The source has been asked for the characters that were consumed and for those that wait, and the end
was not consumed: it comes at the place `ends`. -/
def Lookahead.Asked {σ : Type u} [CharSource σ] (source : σ) (ends : Nat)
    (q : Lookahead σ (Option Char)) : Prop :=
  ∃ consumed waiting, q.Tracks source consumed waiting ∧ consumed ≤ ends ∧ consumed + waiting ≤ ends + 1

section Asked

variable {σ : Type u} [CharSource σ] {source : σ} {ends : Nat}

/-- Every source comes to an end. -/
theorem exists_end (source : σ) : ∃ ends, ∀ k, k ≤ ends → (Producer.item source k = none ↔ k = ends) := by
  obtain ⟨cs, hcs⟩ := Lookahead.exists_spells (Lookahead.ofSource source)
  refine ⟨cs.length, fun k hk => ?_⟩
  have hget := (Lookahead.tracks_ofSource source).getElem?_of_yields hcs
    (k := k) (by simpa using Nat.lt_succ_of_le hk)
  rw [Nat.zero_add] at hget
  rcases Nat.eq_or_lt_of_le hk with rfl | hlt
  · have hnone : none = Producer.item source cs.length := by simpa using hget
    simp [← hnone]
  · have hsome : some cs[k] = Producer.item source k := by
      simpa [List.getElem?_append_left, hlt] using hget
    simp [← hsome, Nat.ne_of_lt hlt]

/-- A character is taken only before the end, and the end is only looked at. -/
theorem Lookahead.stable_asked (hends : Producer.item source ends = none) :
    Lookahead.Stable (Lookahead.Asked source ends) where
  pop := by
    rintro q c hsome ⟨consumed, waiting, htracks, hconsumed, hwaiting⟩
    obtain ⟨hitem, hpop⟩ := htracks.pop
    have hne : consumed ≠ ends := by
      rintro rfl
      rw [hitem, hends] at hsome
      cases hsome
    exact ⟨_, _, hpop, by omega, by omega⟩
  look := by
    rintro q ⟨consumed, waiting, htracks, hconsumed, hwaiting⟩
    exact ⟨_, _, (htracks.peekNth 0).2, hconsumed, by omega⟩

theorem Scanner.asked_after (hends : Producer.item source ends = none) (name : String) (tabWidth : Nat)
    (journal : Journal) (n : Nat) :
    (Producer.after (Scanner.start name source tabWidth journal) n).chars.Asked source ends := by
  induction n with
  | zero => exact ⟨0, 0, Lookahead.tracks_ofSource source, Nat.zero_le _, Nat.zero_le _⟩
  | succ n ih => exact (Lookahead.stable_asked hends).scan ih

end Asked

/-! ### Access patterns -/

namespace Lexer

/-- One use of a lexer. -/
inductive Access where
  /-- Look at the token `n` places ahead of the next one. -/
  | peek (n : Nat)
  /-- Consume the next `n + 1` tokens. -/
  | skip (n : Nat)
  /-- Consume all tokens up to the first end token, which is included. -/
  | readAll
  deriving DecidableEq, Repr

/-- How many tokens have been consumed, and how many more have been pulled. -/
structure Progress where
  consumed : Nat
  waiting : Nat
  deriving DecidableEq, Repr

namespace Progress

/-- How many tokens have been pulled. -/
def pulled (p : Progress) : Nat :=
  p.consumed + p.waiting

/-- The progress after one more use, if the first end token is the one at the place `last`. -/
def access (last : Nat) (p : Progress) : Access → Progress
  | .peek n => { p with waiting := max p.waiting (n + 1) }
  | .skip n => ⟨p.consumed + (n + 1), p.waiting - (n + 1)⟩
  | .readAll => ⟨p.consumed + (last - p.consumed + 1), p.waiting - (last - p.consumed + 1)⟩

/-- What one more use shows, if the first end token is the one at the place `last`. -/
def shown (tokens : Nat → Token) (last : Nat) (p : Progress) : Access → List Token
  | .peek n => [tokens (p.consumed + n)]
  | .skip _ => []
  | .readAll => (List.range' p.consumed (last - p.consumed + 1)).map tokens

/-- The progress after some uses of a fresh lexer. -/
def after (last : Nat) (accesses : List Access) : Progress :=
  accesses.foldl (access last) ⟨0, 0⟩

end Progress

variable {σ : Type u} [CharSource σ]

/-- The lexer after one use. -/
def access (q : Lexer σ) : Access → Lexer σ
  | .peek n => (Lookahead.peekNth n q).2
  | .skip n => Lookahead.skipNth n q
  | .readAll => (Lookahead.readAll q).2

/-- The tokens that one use shows. -/
def shown (q : Lexer σ) : Access → List Token
  | .peek n => [(Lookahead.peekNth n q).1]
  | .skip _ => []
  | .readAll => (Lookahead.readAll q).1

/-- The lexer after some uses. -/
def after (q : Lexer σ) (accesses : List Access) : Lexer σ :=
  accesses.foldl access q

theorem play_skips_eq_skipNth (n : Nat) : ∀ q : Lexer σ,
    Lookahead.play q (List.replicate (n + 1) .skip) = Lookahead.skipNth n q := by
  induction n with
  | zero => exact fun _ => rfl
  | succ n ih => exact fun q => ih (Lookahead.pop q).2

/-- Reading all tokens consumes what is left before the first end token, and one end token. -/
theorem readAll_eq {s : Scanner σ} {last consumed waiting : Nat}
    (hlast : ∀ k, (s.found k).token.kind = .endOfFile ↔ last ≤ k) {q : Lexer σ}
    (h : Lookahead.Tracks s consumed waiting q) :
    Lookahead.readAll q = ((List.range' consumed (last - consumed + 1)).map fun k => (s.found k).token,
      Lookahead.skipNth (last - consumed) q) := by
  obtain ⟨body, eof, hread, hend⟩ := Lookahead.readAll_spec q
  have hitems := h.eq_of_yields hend.yields
  simp only [funext s.item_eq_found] at hitems
  have hget : ∀ k, k ≤ body.length → (body ++ [eof])[k]? = some (s.found (consumed + k)).token := by
    intro k hk
    rw [h.getElem?_of_yields hend.yields (by simpa using Nat.lt_succ_of_le hk), s.item_eq_found]
  have hlength : body.length = last - consumed := by
    have heof : last ≤ consumed + body.length := by
      have := hget body.length (Nat.le_refl _)
      simp only [List.getElem?_concat_length, Option.some.injEq] at this
      exact (hlast _).1 (this ▸ hend.eof_kind)
    rcases Nat.eq_zero_or_pos body.length with hzero | hpos
    · omega
    · -- the token before the end is not an end token
      have hmem := hget (body.length - 1) (by omega)
      rw [List.getElem?_append_left (by omega)] at hmem
      have := mt (hlast _).2 (hend.body_kind _ (List.mem_of_getElem? hmem))
      omega
  have hsnd := Lookahead.readToEnd_snd q.tokensLeft q
  rw [← Lookahead.readAll, hread, List.length_append, List.length_singleton, hlength,
    play_skips_eq_skipNth] at hsnd
  refine Prod.ext ?_ hsnd
  rw [hread, hitems, List.length_append, List.length_singleton, hlength]

/-- One use shows what the sequence has at that place, and moves on in it. -/
theorem tracks_access {s : Scanner σ} {last : Nat}
    (hlast : ∀ k, (s.found k).token.kind = .endOfFile ↔ last ≤ k) {p : Progress} {q : Lexer σ}
    (h : Lookahead.Tracks s p.consumed p.waiting q) (a : Access) :
    q.shown a = p.shown (fun k => (s.found k).token) last a ∧
      Lookahead.Tracks s (p.access last a).consumed (p.access last a).waiting (q.access a) := by
  cases a with
  | peek n =>
    obtain ⟨hitem, hpeek⟩ := h.peekNth n
    rw [Scanner.item_eq_found] at hitem
    exact ⟨congrArg (fun t => [t]) hitem, hpeek⟩
  | skip n => exact ⟨rfl, h.skipNth n⟩
  | readAll =>
    rw [shown, access, readAll_eq hlast h]
    exact ⟨rfl, h.skipNth _⟩

theorem tracks_after {s : Scanner σ} {last : Nat}
    (hlast : ∀ k, (s.found k).token.kind = .endOfFile ↔ last ≤ k) (accesses : List Access) :
    ∀ {p : Progress} {q : Lexer σ}, Lookahead.Tracks s p.consumed p.waiting q →
      Lookahead.Tracks s (accesses.foldl (Progress.access last) p).consumed
        (accesses.foldl (Progress.access last) p).waiting (q.after accesses) := by
  induction accesses with
  | nil => exact fun h => h
  | cons a accesses ih => exact fun h => ih (tracks_access hlast h a).2

/-- The lexer has made this progress in what the scanner finds, whose first end token comes at the place
`last`, and its source comes to its end at the place `ends`. -/
structure Follows (s : Scanner σ) (source : σ) (last ends : Nat) (p : Progress) (q : Lexer σ) : Prop where
  /-- What is shown is what is found at that place. -/
  shown : ∀ a, q.shown a = p.shown (fun k => (s.found k).token) last a
  /-- Nothing was reported but on the way to the tokens pulled. -/
  diagnostics : q.source.journal.diagnostics =
    s.journal.diagnostics ++ (List.range p.pulled).flatMap fun k => (s.found k).reports
  /-- No line has started but on the way to the tokens pulled. -/
  starts : q.source.lines.starts.reverse =
    s.lines.starts.reverse ++ (List.range p.pulled).flatMap fun k => (s.found k).starts
  /-- No file was entered. -/
  files : q.source.lines.files = s.lines.files
  /-- The source was not asked again after its end. -/
  asked : ∃ calls, calls ≤ ends + 1 ∧ q.source.chars.source = Producer.after source calls

/-- A lexer is one fixed stream, however it is used. There is a first end token; after it, nothing is found
but that end token, without a report or a new line. At every moment the lexer shows what a scanner finds
that reads one token after the other, it has reported what is found on the way to the tokens pulled so far,
and its source was not asked again after it first came to an end. -/
theorem lexer_is_one_stream (name : String) (source : σ) (tabWidth : Nat) (journal : Journal) :
    ∃ last ends,
      (∀ k, ((Scanner.start name source tabWidth journal).found k).token.kind = .endOfFile ↔ last ≤ k) ∧
      (∀ k, last < k → (Scanner.start name source tabWidth journal).found k =
        ⟨((Scanner.start name source tabWidth journal).found last).token, [], []⟩) ∧
      (∀ k, k ≤ ends → (Producer.item source k = none ↔ k = ends)) ∧
      ∀ accesses, ((Lexer.start name source tabWidth journal).after accesses).Follows
        (Scanner.start name source tabWidth journal) source last ends (Progress.after last accesses) := by
  obtain ⟨last, hlast⟩ := (Scanner.start name source tabWidth journal).exists_first_end
  obtain ⟨ends, hends⟩ := exists_end source
  refine ⟨last, ends, hlast, fun k hk => Scanner.found_of_end ((hlast last).2 (Nat.le_refl _)) hk, hends,
    fun accesses => ?_⟩
  have htracks := tracks_after hlast accesses (p := ⟨0, 0⟩)
    (Lookahead.tracks_ofSource (Scanner.start name source tabWidth journal))
  -- a lexer differs from a scanner in the journal only, which also holds what was scanned
  have hechoes := (Scanner.start name source tabWidth journal).echoes_after
    (Progress.after last accesses).pulled
  obtain ⟨consumed, waiting, hasked, -, hcalls⟩ := Scanner.asked_after
    ((hends ends (Nat.le_refl _)).2 rfl) name tabWidth journal (Progress.after last accesses).pulled
  have hsource : ((Lexer.start name source tabWidth journal).after accesses).source =
      Producer.after (Scanner.start name source tabWidth journal) (Progress.after last accesses).pulled :=
    htracks.source
  have hsound := Scanner.sound_start name source tabWidth journal
  refine ⟨fun a => (tracks_access hlast htracks a).1, ?_, ?_, ?_, consumed + waiting, hcalls, ?_⟩
  · rw [hsource, hechoes.diagnostics]
    exact Scanner.afterScans_grown (·.journal.diagnostics) Find.reports Scanner.diagnostics_scan _ _
  · rw [hsource, hechoes.alike.lines]
    exact Scanner.afterScans_grown (·.lines.starts.reverse) Find.starts Scanner.starts_scan _ _
  · rw [hsource, hechoes.alike.lines, hsound.files, (hsound.afterScans _).files]
  · rw [hsource, hasked.source]

end Lexer

/-! ### Sources that go on after their end -/

/-- A producer of characters that can be asked `left` more times, whether or not it would ever come to an
end by itself. -/
structure Rationed (σ : Type u) where
  source : σ
  left : Nat
  deriving DecidableEq, Repr

instance {σ : Type u} [Producer σ (Option Char)] : CharSource (Rationed σ) where
  next
    | ⟨s, 0⟩ => (none, ⟨s, 0⟩)
    | ⟨s, n + 1⟩ => ((Producer.next s).1, ⟨(Producer.next s).2, n⟩)
  remaining := Rationed.left
  remaining_lt := by
    rintro ⟨s, _ | n⟩ c h
    · cases h
    · exact Nat.lt_succ_self n
  takeFailure r := (none, r)

/-- Gives out a text and an end, and after that the same letter for ever. -/
structure Resuming where
  text : List Char
  ended : Bool := false
  deriving DecidableEq, Repr

instance : Producer Resuming (Option Char) where
  next
    | ⟨c :: text, ended⟩ => (some c, ⟨text, ended⟩)
    | ⟨[], false⟩ => (none, ⟨[], true⟩)
    | ⟨[], true⟩ => (some 'b', ⟨[], true⟩)

/-- A source that would go on after its end. -/
def resumingSource : Rationed Resuming :=
  ⟨{ text := ['a', '@'] }, 100⟩

theorem lexer_is_one_stream_of_resuming :
    ∃ last ends, ends = 2 ∧
      (Scanner.start "unit" resumingSource 8 .empty).found (last + 1) =
        ⟨((Scanner.start "unit" resumingSource 8 .empty).found last).token, [], []⟩ ∧
      ((Lexer.start "unit" resumingSource 8 .empty).after [.peek 5, .skip 0, .readAll, .skip 3]).Follows
        (Scanner.start "unit" resumingSource 8 .empty) resumingSource last ends
        (Lexer.Progress.after last [.peek 5, .skip 0, .readAll, .skip 3]) ∧
      97 ≤ ((Lexer.start "unit" resumingSource 8 .empty).after
        [.peek 5, .skip 0, .readAll, .skip 3]).source.chars.source.left := by
  obtain ⟨last, ends, -, hstays, hends, hfollows⟩ :=
    Lexer.lexer_is_one_stream "unit" resumingSource 8 .empty
  have htwo : ends = 2 := by
    rcases Nat.lt_or_ge ends 2 with hlt | hge
    · have hnone : Producer.item resumingSource ends = none := (hends ends (Nat.le_refl _)).2 rfl
      have hsome : ∀ k < 2, Producer.item resumingSource k ≠ none := by decide
      exact absurd hnone (hsome ends hlt)
    · exact ((hends 2 hge).1 (by decide)).symm
  obtain ⟨calls, hcalls, hsource⟩ := (hfollows [.peek 5, .skip 0, .readAll, .skip 3]).asked
  have hleft : ∀ k < 4, 97 ≤ (Producer.after resumingSource k).left := by decide
  refine ⟨last, ends, htwo, hstays _ (Nat.lt_succ_self _), hfollows _, ?_⟩
  rw [hsource]
  exact hleft calls (by omega)

end SwiftDialect
