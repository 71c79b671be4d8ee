import SwiftDialect.Proofs.Lexemes

/-!
# Writing lexemes down

Lexemes of the right shape can be written down: each has a spelling, and single spaces stand between
them. Main statement: a scanner that stands before such a text produces exactly these lexemes and then
the end (`Ahead.yields`), and reports nothing on the way (`Ahead.scan_cons`, `Ahead.scan_nil`).
-/

namespace SwiftDialect

universe u

namespace Lexeme

/-- How the lexeme is written. -/
def spelling (x : Lexeme) : List Char :=
  match x.kind with
  | .identifier | .integerLiteral | .floatLiteral => x.text.toList
  | .stringLiteral => '"' :: (x.text.toList ++ ['"'])
  | kind => kind.description.toList

/-- The lexeme that a word stands for. -/
def ofWord (text : String) : Lexeme :=
  match TokenKind.ofKeyword? text with
  | some kind => ⟨kind, ""⟩
  | none => ⟨.identifier, text⟩

/-- Can the lexeme be written? It has the right shape, and is no end. -/
def Writable (x : Lexeme) : Prop :=
  x.Valid ∧ x.kind ≠ .endOfFile

/-- Lexemes written one after the other, with single spaces between them. -/
def written (xs : List Lexeme) : List Char :=
  [' '].intercalate (xs.map spelling)

/-- What is written after a lexeme if these are to follow it. -/
def trail : List Lexeme → List Char
  | [] => []
  | x :: xs => ' ' :: written (x :: xs)

theorem written_cons (x : Lexeme) (xs : List Lexeme) : written (x :: xs) = x.spelling ++ trail xs := by
  cases xs with
  | nil => simp [written, trail]
  | cons y ys => simp [written, trail, List.intercalate]

end Lexeme

/-! ### What a character can start -/

namespace CharClass

theorem ofChar_start {c : Char} (h : isIdentifierStart c) : ofChar c = .letter := by
  unfold ofChar
  split <;> first | (exfalso; revert h; decide) | rw [if_pos h]

theorem not_start_of_digit {c : Char} (h : c.isDigit) : isIdentifierStart c = false := by
  have hne : c ≠ '_' := by
    rintro rfl
    exact absurd h (by decide)
  have hnine : c.val ≤ '9'.val := of_decide_eq_true (Bool.and_eq_true_iff.1 h).2
  have hupper : c.isUpper = false :=
    decide_eq_false fun hrange => absurd (UInt32.le_trans hrange.1 hnine) (by decide)
  have hlower : c.isLower = false := by
    refine Bool.and_eq_false_iff.2 (.inl (decide_eq_false fun hle => ?_))
    exact absurd (UInt32.le_trans hle hnine) (by decide)
  have halpha : c.isAlpha = false := Bool.or_eq_false_iff.2 ⟨hupper, hlower⟩
  simp [isIdentifierStart, halpha, hne]

theorem ofChar_digit {c : Char} (h : c.isDigit) : ofChar c = .digit := by
  unfold ofChar
  split <;> first | (exfalso; revert h; decide) | simp [not_start_of_digit h, h]

/-- How the sign of a kind is scanned: alone, or together with an equals sign. -/
theorem description_sign {k : TokenKind} (h : k ∈ signKinds) :
    (∃ c, k.description.toList = [c] ∧
      (ofChar c = .single k ∨ ∃ withEqual, ofChar c = .paired (some k) withEqual)) ∨
    (∃ c alone, k.description.toList = [c, '='] ∧ ofChar c = .paired alone k) := by
  cases k <;> first
    | exact absurd h (by decide)
    | exact .inl ⟨_, rfl, .inl rfl⟩
    | exact .inl ⟨_, rfl, .inr ⟨_, rfl⟩⟩
    | exact .inr ⟨_, _, rfl, rfl⟩

/-- A reserved word looks like an identifier. -/
theorem description_keyword {k : TokenKind} (h : k.isKeyword) :
    (∃ c cs, k.description.toList = c :: cs ∧ isIdentifierStart c ∧ ∀ d ∈ cs, isIdentifierRest d) ∧
      TokenKind.ofKeyword? k.description = some k := by
  cases k <;> first
    | exact absurd h (by decide)
    | exact ⟨⟨_, _, rfl, by decide, List.all_eq_true.1 (by decide)⟩, by decide⟩

/-- A kind whose description is its spelling is that of a reserved word or of a sign. -/
theorem keyword_or_sign {k : TokenKind} (h : ¬ k.isPhrase) : k.isKeyword ∨ k ∈ signKinds := by
  revert h
  cases k <;> decide

end CharClass

/-- A lexeme whose kind has one spelling only. -/
theorem Lexeme.Valid.of_not_phrase {x : Lexeme} (hvalid : x.Valid) (h : ¬ x.kind.isPhrase) :
    x = ⟨x.kind, ""⟩ ∧ x.spelling = x.kind.description.toList := by
  obtain ⟨k, text⟩ := x
  obtain rfl : text = "" := by
    revert h
    cases k <;> first | exact fun _ => hvalid | exact fun h => absurd rfl h
  refine ⟨rfl, ?_⟩
  revert h
  cases k <;> first | exact fun _ => rfl | exact fun h => absurd rfl h

theorem Lexeme.Writable.exists_cons {x : Lexeme} (hx : x.Writable) :
    ∃ c cs, x.spelling = c :: cs := by
  obtain ⟨hvalid, hend⟩ := hx
  by_cases hphrase : ¬ x.kind.isPhrase
  · rw [(hvalid.of_not_phrase hphrase).2]
    rcases CharClass.keyword_or_sign hphrase with hword | hsign
    · obtain ⟨⟨c, cs, hspell, -⟩, -⟩ := CharClass.description_keyword hword
      exact ⟨c, cs, hspell⟩
    · rcases CharClass.description_sign hsign with ⟨c, hspell, -⟩ | ⟨c, -, hspell, -⟩
      · exact ⟨c, _, hspell⟩
      · exact ⟨c, _, hspell⟩
  replace hphrase := Decidable.not_not.1 hphrase
  obtain ⟨k, text⟩ := x
  cases k with
  | identifier =>
    obtain ⟨⟨c, cs, htext, -⟩, -⟩ := hvalid
    exact ⟨c, cs, htext⟩
  | integerLiteral => exact List.exists_cons_of_ne_nil hvalid.1
  | floatLiteral =>
    obtain ⟨whole, fraction, htext, -⟩ := hvalid
    refine List.exists_cons_of_ne_nil ?_
    rw [Lexeme.spelling, htext]
    exact List.append_ne_nil_of_right_ne_nil _ (List.cons_ne_nil _ _)
  | firstMarker => exact hvalid.elim
  | lastMarker => exact hvalid.elim
  | endOfFile => exact absurd rfl hend
  | stringLiteral => exact ⟨_, _, rfl⟩
  | _ => exact absurd hphrase Bool.false_ne_true

/-! ### Runs of characters -/

/-- A run of characters that pass the test ends where the rest fails it. -/
theorem run_append {test : Char → Bool} {cs rest : List Char} (hcs : ∀ c ∈ cs, test c)
    (hrest : ∀ c ∈ rest.head?, test c = false) :
    (cs ++ rest).takeWhile test = cs ∧ (cs ++ rest).dropWhile test = rest := by
  rw [List.takeWhile_append_of_pos hcs, List.dropWhile_append_of_pos hcs]
  cases rest with
  | nil => simp
  | cons c rest => simp [hrest c rfl]

/-- Does nothing follow, or a space? -/
def Parted (rest : List Char) : Prop :=
  ∀ c ∈ rest.head?, c = ' '

theorem parted_trail (xs : List Lexeme) : Parted (Lexeme.trail xs) := by
  cases xs with
  | nil => exact fun _ h => absurd h (by simp [Lexeme.trail])
  | cons x xs => simp [Parted, Lexeme.trail]

namespace Lookahead

variable {σ : Type u} [CharSource σ] {q : Lookahead σ (Option Char)}

/-- A run of characters is taken whole if what follows does not go on with it. -/
theorem Spells.takeRun {test : Char → Bool} {cs rest : List Char} (h : q.Spells (cs ++ rest))
    (hcs : ∀ c ∈ cs, test c) (hrest : ∀ c ∈ rest.head?, test c = false) :
    (q.takeWhile test).1 = cs ∧ (q.takeWhile test).2.Spells rest := by
  obtain ⟨hrun, hleft⟩ := run_append hcs hrest
  obtain ⟨htake, hdrop⟩ := h.takeWhile test
  rw [hrun] at htake
  rw [hleft] at hdrop
  exact ⟨htake, hdrop⟩

theorem Spells.eat_of_ne {c : Char} {cs : List Char} (h : q.Spells cs) (hc : cs.head? ≠ some c) :
    (q.eat c).1 = false ∧ (q.eat c).2.Spells cs := by
  obtain ⟨heat, hrest⟩ := h.eat c
  rw [if_neg hc] at hrest
  exact ⟨heat.trans (by simpa using hc), hrest⟩

theorem Spells.eat_cons {c : Char} {cs : List Char} (h : q.Spells (c :: cs)) :
    (q.eat c).1 = true ∧ (q.eat c).2.Spells cs := by
  simpa using h.eat c

end Lookahead

/-! ### Scanning one lexeme -/

namespace Scanner

variable {σ : Type u} [CharSource σ] {s : Scanner σ}

/-- From `s` a scanner comes to the lexeme `x` without an entry in the journal, and `rest` is left. -/
structure Takes (s : Scanner σ) (x : Lexeme) (rest : List Char) (r : Option Token × Scanner σ) :
    Prop where
  token : ∃ t, r.1 = some t ∧ t.lexeme = x
  chars : r.2.chars.Spells rest
  journal : r.2.journal = s.journal

theorem stepFrom_word {c : Char} {cs rest : List Char} {text : String}
    (htext : text.toList = c :: cs) (hc : isIdentifierStart c) (hcs : ∀ d ∈ cs, isIdentifierRest d)
    (h : s.chars.Spells (cs ++ rest)) (hrest : Parted rest) (l : Location) :
    Takes s (.ofWord text) rest (s.stepFrom c l) := by
  have hword : String.ofList (c :: cs) = text := by rw [← htext, String.ofList_toList]
  obtain ⟨htake, hdrop⟩ := h.takeRun hcs fun d hd => by rw [hrest d hd]; decide
  rw [stepFrom, CharClass.ofChar_start hc]
  simp only [identifier, htake, hword]
  refine ⟨⟨_, rfl, ?_⟩, hdrop, rfl⟩
  cases hk : TokenKind.ofKeyword? text <;> simp [Lexeme.ofWord, Token.lexeme, hk]

theorem stepFrom_integer {c : Char} {cs rest : List Char} {text : String}
    (htext : text.toList = c :: cs) (hdigits : ∀ d ∈ c :: cs, d.isDigit)
    (h : s.chars.Spells (cs ++ rest)) (hrest : Parted rest) (l : Location) :
    Takes s ⟨.integerLiteral, text⟩ rest (s.stepFrom c l) := by
  obtain ⟨hc, hcs⟩ := List.forall_mem_cons.1 hdigits
  have hpoint : c ≠ '.' := by
    rintro rfl
    exact absurd hc (by decide)
  obtain ⟨htake, hdrop⟩ := h.takeRun hcs fun d hd => by rw [hrest d hd]; decide
  obtain ⟨heat, hleft⟩ := hdrop.eat_of_ne (c := '.') fun hd => absurd (hrest _ hd) (by decide)
  rw [stepFrom, CharClass.ofChar_digit hc]
  simp only [number, hpoint, if_false, htake, heat, Bool.false_eq_true]
  exact ⟨⟨_, rfl, by rw [Token.lexeme, ← htext, String.ofList_toList]⟩, hleft, rfl⟩

theorem stepFrom_float {c : Char} {cs rest whole fraction : List Char} {text : String}
    (htext : text.toList = c :: cs) (hsplit : c :: cs = whole ++ '.' :: fraction)
    (hwhole : ∀ d ∈ whole, d.isDigit) (hfraction : ∀ d ∈ fraction, d.isDigit)
    (h : s.chars.Spells (cs ++ rest)) (hrest : Parted rest) (l : Location) :
    Takes s ⟨.floatLiteral, text⟩ rest (s.stepFrom c l) := by
  have hend : ∀ d ∈ rest.head?, d.isDigit = false := fun d hd => by rw [hrest d hd]; decide
  cases whole with
  | nil =>
    obtain ⟨rfl, rfl⟩ := List.cons.inj hsplit
    obtain ⟨htake, hdrop⟩ := h.takeRun hfraction hend
    rw [stepFrom, show CharClass.ofChar '.' = .digit from rfl]
    simp only [number, htake, if_true, Bool.false_eq_true, if_false]
    exact ⟨⟨_, rfl, by rw [Token.lexeme, ← htext, String.ofList_toList]⟩, hdrop, rfl⟩
  | cons d whole =>
    rw [List.cons_append] at hsplit
    obtain ⟨rfl, rfl⟩ := List.cons.inj hsplit
    obtain ⟨hc, hcs⟩ := List.forall_mem_cons.1 hwhole
    -- the whole part starts with a digit, so the point is looked for after it
    have hpoint : c ≠ '.' := by
      rintro rfl
      exact absurd hc (by decide)
    rw [List.append_assoc, List.cons_append] at h
    obtain ⟨htake, hdrop⟩ := h.takeRun hcs (by simp)
    obtain ⟨heat, hpast⟩ := hdrop.eat_cons
    obtain ⟨htake', hdrop'⟩ := hpast.takeRun hfraction hend
    rw [stepFrom, CharClass.ofChar_digit hc]
    simp only [number, hpoint, if_false, htake, heat, htake', if_true]
    exact ⟨⟨_, rfl, by rw [Token.lexeme, List.cons_append, ← htext, String.ofList_toList]⟩, hdrop',
      rfl⟩

theorem stepFrom_string {text : String} {rest : List Char}
    (htext : ∀ c ∈ text.toList, c ≠ '"' ∧ c ≠ '\n') (h : s.chars.Spells (text.toList ++ '"' :: rest))
    (l : Location) : Takes s ⟨.stringLiteral, text⟩ rest (s.stepFrom '"' l) := by
  have hinside : ∀ c ∈ text.toList, (c != '"' && c != '\n') = true := fun c hc => by
    simpa using htext c hc
  obtain ⟨htake, hdrop⟩ := h.takeRun hinside (by simp)
  obtain ⟨heat, hleft⟩ := hdrop.eat_cons
  rw [stepFrom, show CharClass.ofChar '"' = .quote from rfl]
  simp only [string, htake, heat, if_true]
  exact ⟨⟨_, rfl, by rw [Token.lexeme, String.ofList_toList]⟩, hleft, rfl⟩

theorem stepFrom_sign {k : TokenKind} (hk : k ∈ CharClass.signKinds) {c : Char} {cs rest : List Char}
    (hspell : k.description.toList = c :: cs) (h : s.chars.Spells (cs ++ rest)) (hrest : Parted rest)
    (l : Location) : Takes s ⟨k, ""⟩ rest (s.stepFrom c l) := by
  have hpart : rest.head? ≠ some '=' := fun he => absurd (hrest _ he) (by decide)
  rcases CharClass.description_sign hk with ⟨d, hd, hclass⟩ | ⟨d, alone, hd, hclass⟩
  · obtain ⟨rfl, rfl⟩ := List.cons.inj (hspell.symm.trans hd)
    rcases hclass with hclass | ⟨withEqual, hclass⟩
    · rw [stepFrom, hclass]
      exact ⟨⟨_, rfl, rfl⟩, h, rfl⟩
    · -- the shorter of two signs: what parts it from the rest is no equal sign
      obtain ⟨heat, hleft⟩ := Lookahead.Spells.eat_of_ne h hpart
      rw [stepFrom, hclass]
      simp only
      rw [← Prod.eta (s.chars.eat '='), heat]
      exact ⟨⟨_, rfl, rfl⟩, hleft, rfl⟩
  · obtain ⟨rfl, rfl⟩ := List.cons.inj (hspell.symm.trans hd)
    obtain ⟨heat, hleft⟩ := Lookahead.Spells.eat_cons h
    rw [stepFrom, hclass]
    simp only
    rw [← Prod.eta (s.chars.eat '='), heat]
    exact ⟨⟨_, rfl, rfl⟩, hleft, rfl⟩

/-- A lexeme of the right shape that is written next is what the step comes to. -/
theorem stepFrom_takes {x : Lexeme} (hx : x.Writable) {c : Char} {cs rest : List Char}
    (hspell : x.spelling = c :: cs) (h : s.chars.Spells (cs ++ rest)) (hrest : Parted rest)
    (l : Location) : Takes s x rest (s.stepFrom c l) := by
  obtain ⟨hvalid, hend⟩ := hx
  by_cases hphrase : ¬ x.kind.isPhrase
  · obtain ⟨hx, hfixed⟩ := hvalid.of_not_phrase hphrase
    rw [hx]
    rw [hfixed] at hspell
    rcases CharClass.keyword_or_sign hphrase with hword | hsign
    · obtain ⟨⟨d, ds, hd, hstart, hmore⟩, hkey⟩ := CharClass.description_keyword hword
      obtain ⟨rfl, rfl⟩ := List.cons.inj (hspell.symm.trans hd)
      have htakes := stepFrom_word hd hstart hmore h hrest l
      rwa [Lexeme.ofWord, hkey] at htakes
    · exact stepFrom_sign hsign hspell h hrest l
  replace hphrase := Decidable.not_not.1 hphrase
  obtain ⟨k, text⟩ := x
  cases k with
  | identifier =>
    obtain ⟨⟨d, ds, hd, hstart, hmore⟩, hkey⟩ := hvalid
    obtain ⟨rfl, rfl⟩ := List.cons.inj (hspell.symm.trans hd)
    have htakes := stepFrom_word hd hstart hmore h hrest l
    rwa [Lexeme.ofWord, hkey] at htakes
  | integerLiteral =>
    have hdigits := hvalid.2
    exact stepFrom_integer hspell (hspell ▸ hdigits) h hrest l
  | floatLiteral =>
    obtain ⟨whole, fraction, hsplit, hwhole, hfraction⟩ := hvalid
    exact stepFrom_float hspell (hspell.symm.trans hsplit) hwhole hfraction h hrest l
  | stringLiteral =>
    obtain ⟨rfl, rfl⟩ := List.cons.inj hspell
    rw [List.append_assoc, List.singleton_append] at h
    exact stepFrom_string hvalid h l
  | firstMarker => exact hvalid.elim
  | lastMarker => exact hvalid.elim
  | endOfFile => exact absurd rfl hend
  | _ => exact absurd hphrase Bool.false_ne_true

/-! ### Scanning lexemes one after the other -/

theorem step_nil (h : s.chars.Spells []) :
    Takes s ⟨.endOfFile, ""⟩ [] s.step := by
  unfold step
  rw [← Prod.eta s.chars.pop, Lookahead.spells_nil.1 h]
  exact ⟨⟨_, rfl, rfl⟩, Lookahead.spells_unread_none _, rfl⟩

theorem step_cons {c : Char} {cs : List Char} (h : s.chars.Spells (c :: cs)) :
    s.step = { s.here.2 with chars := s.chars.pop.2 }.stepFrom c s.here.1 := by
  unfold step
  rw [← Prod.eta s.chars.pop, (Lookahead.spells_cons.1 h).1]

/-- A lexeme that is written next is what the step comes to. -/
theorem step_takes {x : Lexeme} (hx : x.Writable) {rest : List Char}
    (h : s.chars.Spells (x.spelling ++ rest)) (hrest : Parted rest) : Takes s x rest s.step := by
  obtain ⟨c, cs, hspell⟩ := hx.exists_cons
  rw [hspell, List.cons_append] at h
  rw [step_cons h]
  have htakes := stepFrom_takes (s := { s.here.2 with chars := s.chars.pop.2 }) hx hspell
    (Lookahead.spells_cons.1 h).2 hrest s.here.1
  exact ⟨htakes.token, htakes.chars, htakes.journal⟩

/-- A space is passed over. -/
theorem step_space {cs : List Char} (h : s.chars.Spells (' ' :: cs)) :
    s.step.1 = none ∧ s.step.2.chars.Spells cs ∧ s.step.2.journal = s.journal := by
  rw [step_cons h, stepFrom, show CharClass.ofChar ' ' = .space from rfl]
  exact ⟨rfl, (Lookahead.spells_cons.1 h).2, rfl⟩

/-- These lexemes are written ahead, perhaps after a space. -/
def Ahead (s : Scanner σ) (xs : List Lexeme) : Prop :=
  s.chars.Spells (Lexeme.written xs) ∨ s.chars.Spells (' ' :: Lexeme.written xs)

theorem ahead_of_trail {xs : List Lexeme} (h : s.chars.Spells (Lexeme.trail xs)) : s.Ahead xs := by
  cases xs with
  | nil => exact .inl h
  | cons x xs => exact .inr h

theorem scan_of_takes {x : Lexeme} {rest : List Char} (h : Takes s x rest s.step) :
    s.scan.1.lexeme = x ∧ s.scan.2.chars.Spells rest ∧ s.scan.2.journal = s.journal := by
  obtain ⟨t, ht, hx⟩ := h.token
  rw [scan_of_some ht]
  exact ⟨hx, h.chars, h.journal⟩

/-- Scanning what is written, perhaps after a space. -/
theorem scan_of_ahead {x : Lexeme} {cs rest : List Char}
    (htakes : ∀ s : Scanner σ, s.chars.Spells cs → Takes s x rest s.step)
    (h : s.chars.Spells cs ∨ s.chars.Spells (' ' :: cs)) :
    s.scan.1.lexeme = x ∧ s.scan.2.chars.Spells rest ∧ s.scan.2.journal = s.journal := by
  rcases h with h | h
  · exact scan_of_takes (htakes s h)
  · obtain ⟨hnone, hchars, hjournal⟩ := step_space h
    rw [scan_of_none hnone, ← hjournal]
    exact scan_of_takes (htakes _ hchars)

/-- The lexeme that is written first is scanned, and the others stay ahead. -/
theorem Ahead.scan_cons {x : Lexeme} {xs : List Lexeme} (h : s.Ahead (x :: xs)) (hx : x.Writable) :
    s.scan.1.lexeme = x ∧ s.scan.2.Ahead xs ∧ s.scan.2.journal = s.journal := by
  rw [Ahead, Lexeme.written_cons] at h
  obtain ⟨hlex, hchars, hjournal⟩ := scan_of_ahead
    (fun s hs => step_takes hx hs (parted_trail xs)) h
  exact ⟨hlex, ahead_of_trail hchars, hjournal⟩

theorem Ahead.scan_nil (h : s.Ahead []) :
    s.scan.1.lexeme = ⟨.endOfFile, ""⟩ ∧ s.scan.2.Ahead [] ∧ s.scan.2.journal = s.journal := by
  obtain ⟨hx, hchars, hjournal⟩ := scan_of_ahead (fun s hs => step_nil hs) h
  exact ⟨hx, .inl hchars, hjournal⟩

/-- Nothing but lexemes that are written down lies ahead. -/
def Clean (s : Scanner σ) : Prop :=
  ∃ xs : List Lexeme, s.Ahead xs ∧ ∀ x ∈ xs, x.Writable

/-- Nothing is reported where only lexemes lie ahead. -/
theorem Clean.next (h : s.Clean) :
    (Producer.next s).2.Clean ∧ (Producer.next s).2.journal.diagnostics = s.journal.diagnostics := by
  have hscan : s.scan.2.Clean ∧ s.scan.2.journal = s.journal := by
    obtain ⟨xs, hahead, hxs⟩ := h
    cases xs with
    | nil =>
      obtain ⟨-, hnil, hjournal⟩ := hahead.scan_nil
      exact ⟨⟨[], hnil, hxs⟩, hjournal⟩
    | cons x xs =>
      obtain ⟨hx, hxs⟩ := List.forall_mem_cons.1 hxs
      obtain ⟨-, hrest, hjournal⟩ := hahead.scan_cons hx
      exact ⟨⟨xs, hrest, hxs⟩, hjournal⟩
  refine ⟨hscan.1, ?_⟩
  simp only [Producer.next, Scanner.record, Journal.diagnostics_record, hscan.2, Event.diagnostic?]
  simp

/-- A scanner before lexemes that are written down produces them, and then the end. -/
theorem Ahead.yields {xs : List Lexeme} (hvalid : ∀ x ∈ xs, x.Writable) :
    ∀ {s : Scanner σ}, s.Ahead xs →
      ∃ ts eof, (Lookahead.ofSource s).Yields (ts ++ [eof]) ∧ ts.map Token.lexeme = xs ∧
        eof.lexeme = ⟨.endOfFile, ""⟩ := by
  induction xs with
  | nil =>
    intro s h
    exact ⟨[], s.scan.1, ⟨rfl, trivial⟩, rfl, h.scan_nil.1⟩
  | cons x xs ih =>
    intro s h
    obtain ⟨hx, hxs⟩ := List.forall_mem_cons.1 hvalid
    obtain ⟨hscan, hahead, -⟩ := h.scan_cons hx
    obtain ⟨ts, eof, hy, hts, heof⟩ :=
      ih hxs (s := s.scan.2.record (.scanned s.scan.1.kind s.scan.1.text)) hahead
    exact ⟨s.scan.1 :: ts, eof, ⟨rfl, hy⟩, by rw [List.map_cons, hscan, hts], heof⟩

end Scanner

end SwiftDialect
