import Mathlib.Data.Nat.Digits.Lemmas
import SwiftDialect.Analysis
import SwiftDialect.Proofs.Lexemes
import SwiftDialect.Proofs.Program

/-!
# What the parser accepts

The parser accepts exactly the sequences of tokens that derive from the grammar and are admissible:
names are declared before they are used, literals have values, and nothing is nested too deeply.

What fits is said by the parser's own tests of literals and names, what is admissible is said without
them. The main part of this module is that the two agree on the tokens of a scanner.
-/

namespace SwiftDialect

/-! ### Which names are declared -/

theorem Mapping.get?_insert (m : Mapping) (symbol : Symbol) (name : String) :
    (m.insert symbol).2.get? name = if symbol.name = name then some symbol else m.get? name := by
  obtain ⟨symbols⟩ := m
  simp only [insert, get?]
  induction symbols with
  | nil => by_cases h : symbol.name = name <;> simp [insertInto, h]
  | cons other rest ih =>
    -- an older symbol of the name is replaced where it stands, so the search finds the new one there
    by_cases hother : other.name = symbol.name
    · by_cases h : symbol.name = name <;> simp [insertInto, hother, h]
    · by_cases h : other.name = name
      · have hne : symbol.name ≠ name := fun hs => hother (h.trans hs.symm)
        have hne' : name ≠ symbol.name := fun hs => hne hs.symm
        simp [insertInto, h, hne, hne']
      · simpa [insertInto, hother, h] using ih

namespace Scopes

/-- The latest declaration of a name counts. -/
theorem resolve_define {scopes : Scopes} (h : scopes.mappings ≠ []) (name : String)
    (d : Declaration) (other : String) :
    (scopes.define name d).resolve other =
      if name = other then some ⟨name, .var, some d⟩ else scopes.resolve other := by
  obtain ⟨m, rest, hm⟩ := List.exists_cons_of_ne_nil h
  simp only [resolve, mappings_define hm, hm, List.findSome?_cons, Mapping.get?_insert]
  by_cases hn : name = other <;> simp [hn]

end Scopes

namespace Sentence

theorem resolve_effect {scopes : Scopes} (h : scopes.mappings ≠ []) (s : Sentence) (name : String) :
    ((s.effect scopes).resolve name).isSome ↔
      s.declared? = some name ∨ (scopes.resolve name).isSome := by
  cases s with
  | declaration intro ident colon type semicolon =>
    rw [effect, Scopes.resolve_define h]
    by_cases hn : ident.1.text = name <;> simp [declared?, hn]
  | evaluation e semicolon => simp [effect, declared?]

/-- The names that are known after some statements are those known before and those declared. -/
theorem resolve_effects (ss : List Sentence) (name : String) :
    ∀ {scopes : Scopes}, scopes.mappings ≠ [] →
      (((effects scopes ss).resolve name).isSome ↔
        (∃ d ∈ ss, d.declared? = some name) ∨ (scopes.resolve name).isSome) := by
  induction ss with
  | nil => simp [effects]
  | cons s ss ih =>
    intro scopes h
    have hrest := ih (effect_open h s)
    rw [resolve_effect h] at hrest
    rw [effects, List.foldl_cons, ← effects, hrest]
    rw [List.exists_mem_cons_iff, or_assoc, or_left_comm]

/-- In a fresh scope, the names that are known are the declared ones. -/
theorem resolve_fresh (ss : List Sentence) (name : String) :
    ((effects (Scopes.push {}) ss).resolve name).isSome ↔ ∃ d ∈ ss, d.declared? = some name := by
  have hopen : (Scopes.push {}).mappings ≠ [] := List.cons_ne_nil _ _
  rw [resolve_effects ss name hopen]
  exact or_iff_left (by simp [Scopes.resolve, Scopes.push, Mapping.get?])

end Sentence

/-! ### Which literals have values -/

theorem digitsValue_eq_decimalValue (cs : List Char) :
    Binary64.digitsValue 0 cs = Nat.ofDigits 10 (cs.reverse.map fun c => c.toNat - '0'.toNat) := by
  induction cs using List.reverseRecOn with
  | nil => rfl
  | append_singleton cs c ih =>
    rw [List.reverse_append, List.reverse_singleton, List.singleton_append, List.map_cons,
      Nat.ofDigits_cons, ← ih]
    simp [Binary64.digitsValue, Nat.add_comm]

theorem integerValue_isSome {text : String} (hne : text.toList ≠ [])
    (hdigits : ∀ c ∈ text.toList, c.isDigit) :
    (integerValue text).toOption.isSome ↔ decimalValue text ≤ 2 ^ 63 - 1 := by
  have hall : text.toList.all Char.isDigit := List.all_eq_true.2 hdigits
  have hempty : text.toList.isEmpty = false := by simpa using hne
  rw [decimalValue, ← digitsValue_eq_decimalValue, show 2 ^ 63 - 1 = maxInteger from rfl]
  by_cases h : Binary64.digitsValue 0 text.toList ≤ maxInteger
  · simp [integerValue, hempty, hall, h, Except.toOption]
  · simp [integerValue, hempty, hall, h, Except.toOption]

theorem floatValue_isSome {text : String} {whole fraction : List Char}
    (htext : text.toList = whole ++ '.' :: fraction) (hwhole : ∀ c ∈ whole, c.isDigit)
    (hfraction : ∀ c ∈ fraction, c.isDigit) :
    (floatValue text).toOption.isSome ↔ ∃ c ∈ text.toList, c.isDigit := by
  have hpoint : ∀ c ∈ whole, (c != '.') = true := by
    intro c hc
    refine bne_iff_ne.2 fun h => ?_
    have := hwhole c hc
    rw [h] at this
    exact absurd this (by decide)
  have htake : text.toList.takeWhile (· != '.') = whole := by
    rw [htext, List.takeWhile_append_of_pos hpoint]
    simp
  have hdrop : (text.toList.dropWhile (· != '.')).drop 1 = fraction := by
    rw [htext, List.dropWhile_append_of_pos hpoint]
    simp
  have hall : (whole ++ fraction).all Char.isDigit := by
    rw [List.all_append, List.all_eq_true.2 hwhole, List.all_eq_true.2 hfraction]
    rfl
  -- there is a value as soon as there is a digit on either side of the point
  have hvalue : (floatValue text).toOption.isSome ↔ whole ++ fraction ≠ [] := by
    simp only [floatValue, Binary64.ofDecimal?, htake, hdrop, hall]
    cases hd : whole ++ fraction <;> simp [Except.toOption]
  rw [hvalue, htext]
  constructor
  · intro hne
    obtain ⟨c, hc⟩ := List.exists_mem_of_ne_nil _ hne
    refine ⟨c, ?_, List.all_eq_true.1 hall c hc⟩
    rcases List.mem_append.1 hc with hc | hc
    · exact List.mem_append_left _ hc
    · exact List.mem_append_right _ (List.mem_cons_of_mem _ hc)
  · rintro ⟨c, hc, hd⟩ hnil
    obtain ⟨rfl, rfl⟩ := List.append_eq_nil_iff.1 hnil
    rw [List.nil_append, List.mem_singleton] at hc
    rw [hc] at hd
    exact absurd hd (by decide)

/-! ### What fits -/

namespace Tree

/-- The leaves of a tree are among its tokens. -/
theorem mem_of_leaves {f : Phrase} (t : Tree f) {depth : Nat} {l : Nat × Token}
    (h : l ∈ t.leaves depth) : l.2 ∈ t.tokens ∧
      l.2.kind ∈ [TokenKind.integerLiteral, .floatLiteral, .stringLiteral, .identifier] := by
  induction t generalizing depth with
  | leaf t =>
    rw [List.mem_singleton.1 h]
    exact ⟨List.mem_singleton_self _, t.2⟩
  | sign t e ih => exact ⟨List.mem_cons_of_mem _ (ih h).1, (ih h).2⟩
  | group l e r ih =>
    exact ⟨List.mem_cons_of_mem _ (List.mem_append_left _ (ih h).1), (ih h).2⟩
  | single e ih => exact ih h
  | chain l op r ihl ihr =>
    rcases List.mem_append.1 h with h | h
    · exact ⟨List.mem_append_left _ (ihl h).1, (ihl h).2⟩
    · exact ⟨List.mem_append_right _ (List.mem_cons_of_mem _ (ihr h).1), (ihr h).2⟩

/-- A tree fits if there is room around each of its leaves, and each of them has a value. -/
theorem fits_iff {f : Phrase} (scopes : Scopes) (t : Tree f) (room depth : Nat) :
    t.Fits scopes room ↔
      ∀ l ∈ t.leaves depth, l.1 < depth + room ∧ (leafValue? scopes l.2).isSome := by
  -- the room needed inside of a sign or group is one less, and its leaves lie one deeper
  have hinner : ∀ {f : Phrase} (e : Tree f) {room depth : Nat},
      (∀ room depth, e.Fits scopes room ↔
        ∀ l ∈ e.leaves depth, l.1 < depth + room ∧ (leafValue? scopes l.2).isSome) →
      ((0 < room ∧ e.Fits scopes (room - 1)) ↔
        ∀ l ∈ e.leaves (depth + 1), l.1 < depth + room ∧ (leafValue? scopes l.2).isSome) := by
    intro f e room depth ih
    constructor
    · rintro ⟨hroom, he⟩ l hl
      have := (ih (room - 1) (depth + 1)).1 he l hl
      exact ⟨by omega, this.2⟩
    · intro h
      obtain ⟨l, hl, hle⟩ := e.exists_leaf (depth + 1)
      have hroom := (h l hl).1
      refine ⟨by omega, (ih (room - 1) (depth + 1)).2 fun l hl => ?_⟩
      have := h l hl
      exact ⟨by omega, this.2⟩
  induction t generalizing room depth with
  | leaf t => simp [Fits, leaves]
  | sign t e ih => exact hinner e ih
  | group l e r ih => exact hinner e ih
  | single e ih => exact ih room depth
  | chain l op r ihl ihr =>
    constructor
    · rintro ⟨hl, hr⟩ x hx
      rcases List.mem_append.1 hx with hx | hx
      · exact (ihl room depth).1 hl x hx
      · exact (ihr room depth).1 hr x hx
    · intro h
      exact ⟨(ihl room depth).2 fun x hx => h x (List.mem_append_left _ hx),
        (ihr room depth).2 fun x hx => h x (List.mem_append_right _ hx)⟩

end Tree

/-- When a literal or name of the right shape has a value. -/
theorem leafValue_isSome {scopes : Scopes} {t : Token} (hvalid : t.lexeme.Valid)
    (hk : t.kind ∈ [TokenKind.integerLiteral, .floatLiteral, .stringLiteral, .identifier]) :
    (leafValue? scopes t).isSome ↔
      (t.kind = .identifier → (scopes.resolve t.text).isSome) ∧
      (t.kind = .integerLiteral → decimalValue t.text ≤ 2 ^ 63 - 1) ∧
      (t.kind = .floatLiteral → ∃ c ∈ t.text.toList, c.isDigit) := by
  obtain ⟨kind, location, text⟩ := t
  simp only [List.mem_cons, List.not_mem_nil, or_false] at hk
  rcases hk with rfl | rfl | rfl | rfl
  · simpa [leafValue?, Token.lexeme] using integerValue_isSome hvalid.1 hvalid.2
  · obtain ⟨whole, fraction, htext, hwhole, hfraction⟩ := hvalid
    simpa [leafValue?, Token.lexeme] using floatValue_isSome htext hwhole hfraction
  · simp [leafValue?]
  · simp [leafValue?]

namespace Sentence

theorem allFit_iff (ss : List Sentence) : ∀ {scopes : Scopes}, AllFit scopes ss ↔
    ∀ before s after, ss = before ++ s :: after → s.Fits (effects scopes before) := by
  induction ss with
  | nil => simp [AllFit]
  | cons s ss ih =>
    intro scopes
    rw [AllFit, ih]
    constructor
    · rintro ⟨hs, hss⟩ before x after heq
      cases before with
      | nil =>
        obtain ⟨rfl, -⟩ := List.cons.inj heq
        exact hs
      | cons b before =>
        obtain ⟨rfl, htail⟩ := List.cons.inj heq
        exact hss before x after htail
    · intro h
      refine ⟨h [] s ss rfl, fun before x after heq => ?_⟩
      exact h (s :: before) x after (by rw [heq]; rfl)

/-- A statement of tokens of the right shape fits if its leaves have values and lie shallow enough. -/
theorem fits_iff {scopes : Scopes} (s : Sentence) (hvalid : ∀ t ∈ s.tokens, t.lexeme.Valid) :
    s.Fits scopes ↔ ∀ l ∈ s.leaves, l.1 ≤ 127 ∧
      (l.2.kind = .identifier → (scopes.resolve l.2.text).isSome) ∧
      (l.2.kind = .integerLiteral → decimalValue l.2.text ≤ 2 ^ 63 - 1) ∧
      (l.2.kind = .floatLiteral → ∃ c ∈ l.2.text.toList, c.isDigit) := by
  cases s with
  | declaration intro ident colon type semicolon =>
    have hident := hvalid ident.1 (by simp [tokens])
    rw [Token.lexeme, List.mem_singleton.1 ident.2] at hident
    obtain ⟨⟨c, cs, htext, -⟩, -⟩ := hident
    have hne : ident.1.text ≠ "" := by
      rintro h
      rw [h] at htext
      cases htext
    simp [Fits, leaves, hne]
  | evaluation e semicolon =>
    rw [Fits, leaves, Tree.fits_iff scopes e maxNesting 0]
    refine forall₂_congr fun l hl => ?_
    obtain ⟨hmem, hk⟩ := e.mem_of_leaves hl
    rw [leafValue_isSome (hvalid l.2 (List.mem_append_left _ hmem)) hk, maxNesting]
    exact and_congr_left' (by omega)

/-- In a fresh scope, the statements that fit are the admissible ones. -/
theorem allFit_iff_admissible {ss : List Sentence}
    (hvalid : ∀ t ∈ ss.flatMap tokens, t.lexeme.Valid) :
    AllFit (Scopes.push {}) ss ↔ Admissible ss := by
  have hvalid' : ∀ s ∈ ss, ∀ t ∈ s.tokens, t.lexeme.Valid :=
    fun s hs t ht => hvalid t (List.mem_flatMap.2 ⟨s, hs, ht⟩)
  rw [allFit_iff]
  constructor
  · intro h
    have hfits : ∀ before s after, ss = before ++ s :: after → ∀ l ∈ s.leaves, l.1 ≤ 127 ∧
        (l.2.kind = .identifier → ((effects (Scopes.push {}) before).resolve l.2.text).isSome) ∧
        (l.2.kind = .integerLiteral → decimalValue l.2.text ≤ 2 ^ 63 - 1) ∧
        (l.2.kind = .floatLiteral → ∃ c ∈ l.2.text.toList, c.isDigit) := by
      intro before s after heq
      exact (s.fits_iff (hvalid' s (by simp [heq]))).1 (h before s after heq)
    -- names, integers, floats and nesting: each is read off the statement that the leaf stands in
    refine ⟨?_, ?_, ?_, ?_⟩
    · intro before s after heq l hl hk
      exact (resolve_fresh before l.2.text).1 ((hfits before s after heq l hl).2.1 hk)
    · intro s hs l hl
      obtain ⟨before, after, heq⟩ := List.append_of_mem hs
      exact (hfits before s after heq l hl).2.2.1
    · intro s hs l hl
      obtain ⟨before, after, heq⟩ := List.append_of_mem hs
      exact (hfits before s after heq l hl).2.2.2
    · intro s hs l hl
      obtain ⟨before, after, heq⟩ := List.append_of_mem hs
      exact (hfits before s after heq l hl).1
  · intro h before s after heq
    have hs : s ∈ ss := by simp [heq]
    refine (s.fits_iff (hvalid' s hs)).2 fun l hl => ⟨h.nesting s hs l hl, fun hk => ?_,
      h.integers s hs l hl, h.floats s hs l hl⟩
    exact (resolve_fresh before l.2.text).2 (h.declared before s after heq l hl hk)

end Sentence

theorem named_of_valid {ts : List Token} (h : ∀ t ∈ ts, t.lexeme.Valid) : Named ts := by
  intro t ht hk
  have hvalid := h t ht
  rw [Token.lexeme, hk] at hvalid
  obtain ⟨⟨c, cs, htext, -⟩, -⟩ := hvalid
  rintro hempty
  rw [hempty] at htext
  cases htext

/-! ### The language of the parser -/

/-- A fresh parser on tokens of the right shape comes to a program exactly if they form one. -/
theorem Parse.program_ok_iff {τ : Type} [TokenSource τ] [LawfulTokenSource τ] {q : Lookahead τ Token}
    {body : List Token} {eof : Token} (h : q.ToEnd body eof) (hvalid : ∀ t ∈ body, t.lexeme.Valid) :
    (∃ program, (Parse.program { tokens := q }).1 = .ok program) ↔ IsProgram (body ++ [eof]) := by
  constructor
  · rintro ⟨program, hok⟩
    rcases program_cases (p := { tokens := q }) rfl h (named_of_valid hvalid) with
      ⟨ss, rfl, hfit, -⟩ | ⟨ss, used, bad, rest, pr, moves, -, -, hrun⟩
    · exact ⟨ss, eof, h.eof_kind, rfl, (Sentence.allFit_iff_admissible hvalid).1 hfit⟩
    · rw [hrun] at hok
      cases hok
  · rintro ⟨ss, eof', heof', heq, hadm⟩
    -- there is one end token, so the tokens are split in the same way
    obtain ⟨rfl, rfl⟩ := eq_of_append_end h.body_kind heof' heq
    have hfit := (Sentence.allFit_iff_admissible hvalid).2 hadm
    exact ⟨_, congrArg Prod.fst (program_ok (p := { tokens := q }) rfl h hfit)⟩

variable {σ : Type} [CharSource σ]

/-- The tokens of a unit: they come to an end, and have the right shape. -/
theorem Lexer.readAll_start (name : String) (source : σ) (tabWidth : Nat) (journal : Journal) :
    ∃ body eof, (Lexer.start name source tabWidth journal).readAll.1 = body ++ [eof] ∧
      (Lexer.start name source tabWidth journal).ToEnd body eof ∧
      ∀ t ∈ body ++ [eof], t.lexeme.Valid := by
  obtain ⟨body, eof, hread, hend⟩ :=
    Lookahead.readAll_spec (Lexer.start name source tabWidth journal)
  exact ⟨body, eof, hread, hend, Scanner.valid_of_yields hend.yields⟩

/-- The identifiers among the tokens of a scanner have names. -/
theorem Scanner.named_of_toEnd {s : Scanner σ} {body : List Token} {eof : Token}
    (h : (Lookahead.ofSource s).ToEnd body eof) : Named body :=
  named_of_valid fun t ht => valid_of_yields h.yields t (List.mem_append_left _ ht)

/-- A fresh parser comes to a program or to a rejection. -/
theorem Parse.program_not_violated (name : String) (source : σ) (tabWidth : Nat) (journal : Journal)
    (v : Violation) :
    (program { tokens := Lexer.start name source tabWidth journal }).1 ≠ .error (.violated v) := by
  obtain ⟨body, eof, -, hend⟩ := Lookahead.readAll_spec (Lexer.start name source tabWidth journal)
  rcases program_cases (p := { tokens := Lexer.start name source tabWidth journal }) rfl hend
    (Scanner.named_of_toEnd hend) with ⟨ss, -, -, hrun⟩ | ⟨ss, used, bad, rest, pr, moves, -, -, hrun⟩
  · rw [hrun]
    exact nofun
  · rw [hrun]
    exact nofun

/-- A fresh parser comes to a program exactly on the sequences of tokens that derive from the grammar
and are admissible. -/
theorem program_ok_iff_isProgram (name : String) (source : σ) (tabWidth : Nat) (journal : Journal) :
    (∃ program, (Parse.program { tokens := Lexer.start name source tabWidth journal }).1 =
      .ok program) ↔ IsProgram (Lexer.start name source tabWidth journal).readAll.1 := by
  obtain ⟨body, eof, hread, hend, hvalid⟩ := Lexer.readAll_start name source tabWidth journal
  rw [hread]
  exact Parse.program_ok_iff hend fun t ht => hvalid t (List.mem_append_left _ ht)

end SwiftDialect
