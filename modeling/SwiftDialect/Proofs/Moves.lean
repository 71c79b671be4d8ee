import SwiftDialect.Parser
import SwiftDialect.Proofs.Stream

/-!
# The moves of a parser on its tokens

Whatever a parser does to its tokens is a sequence of *moves*: it looks at the next token, consumes
it, or enters an event into the journal. A procedure is described by the moves it makes, so that the
same description fits every source of tokens.

A source is *lawful* if entries in its journal have no bearing on the tokens it produces, and if it
reaches an end token within the bound that it gives.
-/

namespace SwiftDialect

universe u

/-- One thing that a parser does to its tokens. -/
inductive Move where
  | peek
  | skip
  | record (event : Event)
  deriving DecidableEq

/-- A token source whose tokens do not depend on its journal, and whose bound is right. -/
class LawfulTokenSource (τ : Type u) [TokenSource τ] : Prop where
  yields_record : ∀ (e : Event) (s : τ) (ts : List Token),
    (Lookahead.ofSource s).Yields ts → (Lookahead.ofSource (TokenSource.record e s)).Yields ts
  remaining_record : ∀ (e : Event) (s : τ),
    TokenSource.remaining (TokenSource.record e s) = TokenSource.remaining s
  remaining_next : ∀ s : τ, (Producer.next s).1.kind ≠ .endOfFile →
    TokenSource.remaining (Producer.next s).2 < TokenSource.remaining s

/-- How many tokens the moves consume. -/
def skipCount (moves : List Move) : Nat :=
  moves.countP (· = .skip)

@[simp] theorem skipCount_append (ms ns : List Move) :
    skipCount (ms ++ ns) = skipCount ms + skipCount ns :=
  List.countP_append

/-- If an end token ends a sequence that has no other, then nothing follows an end token in it. -/
theorem eq_of_append_end {body xs rest : List Token} {eof x : Token}
    (hbody : ∀ t ∈ body, t.kind ≠ .endOfFile) (hx : x.kind = .endOfFile)
    (h : body ++ [eof] = xs ++ x :: rest) : body = xs ∧ eof = x := by
  rcases List.eq_nil_or_concat rest with rfl | ⟨rest, last, rfl⟩
  · obtain ⟨h₁, h₂⟩ := List.append_inj' h rfl
    exact ⟨h₁, (List.cons.inj h₂).1⟩
  · have h' : body ++ [eof] = (xs ++ x :: rest) ++ [last] := by simpa using h
    obtain ⟨h₁, -⟩ := List.append_inj' h' rfl
    have hmem : x ∈ body := by rw [h₁]; exact List.mem_append_right _ List.mem_cons_self
    exact absurd hx (hbody x hmem)

namespace Lookahead

variable {τ : Type u} [TokenSource τ]

/-- The tokens after one move. -/
def move (q : Lookahead τ Token) : Move → Lookahead τ Token
  | .peek => q.peek.2
  | .skip => q.skip
  | .record e => q.mapSource (TokenSource.record e)

/-- The tokens after some moves. -/
def play (q : Lookahead τ Token) (moves : List Move) : Lookahead τ Token :=
  moves.foldl move q

theorem Yields.record [LawfulTokenSource τ] (e : Event) {ts : List Token} :
    ∀ {q : Lookahead τ Token}, q.Yields ts → (q.mapSource (TokenSource.record e)).Yields ts := by
  induction ts with
  | nil => exact fun _ => trivial
  | cons t ts ih =>
    rintro ⟨buffer, source⟩ h
    cases buffer with
    | nil => exact LawfulTokenSource.yields_record e source (t :: ts) h
    | cons a rest => exact ⟨h.1, ih h.2⟩

/-- Moves that consume the first tokens leave the others. -/
theorem Yields.play [LawfulTokenSource τ] {ts : List Token} (moves : List Move) :
    ∀ {used : List Token} {q : Lookahead τ Token}, q.Yields (used ++ ts) →
      skipCount moves = used.length → (q.play moves).Yields ts := by
  induction moves with
  | nil =>
    intro used q h hcount
    obtain rfl : used = [] := List.eq_nil_of_length_eq_zero hcount.symm
    exact h
  | cons m moves ih =>
    intro used q h hcount
    cases m with
    | peek => exact ih (yields_peek.2 h) (by simpa [skipCount] using hcount)
    | record e => exact ih (h.record e) (by simpa [skipCount] using hcount)
    | skip =>
      cases used with
      | nil => simp [skipCount] at hcount
      | cons t used => exact ih h.2 (by simpa [skipCount] using hcount)

/-! ### Reading to the end -/

/-- A token that is no end token uses up some of the bound. -/
theorem tokensLeft_pop_lt [LawfulTokenSource τ] {q : Lookahead τ Token}
    (h : q.pop.1.kind ≠ .endOfFile) : q.pop.2.tokensLeft < q.tokensLeft := by
  obtain ⟨buffer, source⟩ := q
  cases buffer with
  | nil =>
    have := LawfulTokenSource.remaining_next source h
    simpa [pop, tokensLeft] using this
  | cons t rest =>
    have ht : t.kind ≠ .endOfFile := h
    simp [pop, tokensLeft, ht]

/-- The tokens up to the first end token: they come next, and there are no more of them than the
bound says. -/
structure ToEnd (q : Lookahead τ Token) (body : List Token) (eof : Token) : Prop where
  yields : q.Yields (body ++ [eof])
  eof_kind : eof.kind = .endOfFile
  body_kind : ∀ t ∈ body, t.kind ≠ .endOfFile
  length_le : body.length ≤ q.tokensLeft

/-- There is one way only to come to the end. -/
theorem ToEnd.eq_of_yields {q : Lookahead τ Token} {body body' : List Token} {eof eof' : Token}
    (h : ToEnd q body eof) (hy : q.Yields (body' ++ [eof']))
    (hbody' : ∀ t ∈ body', t.kind ≠ .endOfFile) (heof' : eof'.kind = .endOfFile) :
    body = body' ∧ eof = eof' := by
  -- two readings of one lookahead: the shorter one ends where its end token comes
  rcases Nat.le_total (body ++ [eof]).length (body' ++ [eof']).length with hle | hle
  · obtain ⟨rest, hrest⟩ := List.prefix_iff_eq_take.2 (h.yields.eq_take hy hle)
    obtain ⟨h₁, h₂⟩ := eq_of_append_end hbody' h.eof_kind (by simpa using hrest.symm)
    exact ⟨h₁.symm, h₂.symm⟩
  · obtain ⟨rest, hrest⟩ := List.prefix_iff_eq_take.2 (hy.eq_take h.yields hle)
    exact eq_of_append_end h.body_kind heof' (by simpa using hrest.symm)

theorem readToEnd_spec [LawfulTokenSource τ] (bound : Nat) :
    ∀ q : Lookahead τ Token, q.tokensLeft ≤ bound →
      ∃ body eof, (q.readToEnd bound).1 = body ++ [eof] ∧ ToEnd q body eof := by
  induction bound with
  | zero =>
    intro q hle
    -- no token is left but the end
    have heof : q.pop.1.kind = .endOfFile := by
      refine Decidable.byContradiction fun hne => ?_
      have := tokensLeft_pop_lt hne
      omega
    exact ⟨[], q.pop.1, rfl, ⟨rfl, trivial⟩, heof, fun _ h => absurd h List.not_mem_nil,
      Nat.zero_le _⟩
  | succ bound ih =>
    intro q hle
    by_cases heof : q.pop.1.kind = .endOfFile
    · exact ⟨[], q.pop.1, by simp [readToEnd, heof], ⟨rfl, trivial⟩, heof,
        fun _ h => absurd h List.not_mem_nil, Nat.zero_le _⟩
    · have hlt := tokensLeft_pop_lt heof
      obtain ⟨body, eof, heq, h⟩ := ih q.pop.2 (by omega)
      refine ⟨q.pop.1 :: body, eof, by simp [readToEnd, heof, heq], ⟨rfl, h.yields⟩, h.eof_kind,
        ?_, ?_⟩
      · intro t ht
        rcases List.mem_cons.1 ht with rfl | ht
        · exact heof
        · exact h.body_kind t ht
      · have := h.length_le
        simp only [List.length_cons]
        omega

/-- Reading to the end consumes the tokens that it gives. -/
theorem readToEnd_snd (bound : Nat) : ∀ q : Lookahead τ Token,
    (q.readToEnd bound).2 = q.play (List.replicate (q.readToEnd bound).1.length .skip) := by
  induction bound with
  | zero => exact fun _ => rfl
  | succ bound ih =>
    intro q
    by_cases heof : q.pop.1.kind = .endOfFile
    · simp only [readToEnd, heof, if_true]
      rfl
    · simp only [readToEnd, heof, if_false, List.length_cons, List.replicate_succ]
      exact ih q.pop.2

/-- Reading all tokens gives those up to the first end token. -/
theorem readAll_spec [LawfulTokenSource τ] (q : Lookahead τ Token) :
    ∃ body eof, q.readAll.1 = body ++ [eof] ∧ ToEnd q body eof :=
  readToEnd_spec q.tokensLeft q (Nat.le_refl _)

/-- Tokens that come next and stop at an end token are those up to the end. -/
theorem Yields.toEnd [LawfulTokenSource τ] {q : Lookahead τ Token} {body : List Token} {eof : Token}
    (hy : q.Yields (body ++ [eof])) (hbody : ∀ t ∈ body, t.kind ≠ .endOfFile)
    (heof : eof.kind = .endOfFile) : ToEnd q body eof := by
  obtain ⟨body', eof', -, hend⟩ := readAll_spec q
  obtain ⟨rfl, rfl⟩ := hend.eq_of_yields hy hbody heof
  exact hend

/-- Consuming a token that is no end token leaves the others. -/
theorem ToEnd.skip [LawfulTokenSource τ] {q : Lookahead τ Token} {body : List Token} {eof : Token}
    (h : ToEnd q body eof) (hne : q.peek.1.kind ≠ .endOfFile) :
    ∃ rest, body = q.peek.1 :: rest ∧ ToEnd q.skip rest eof := by
  cases body with
  | nil =>
    have hnext : q.peek.1 = eof := h.yields.1
    exact absurd (hnext ▸ h.eof_kind) hne
  | cons t rest =>
    obtain ⟨ht, hrest⟩ := List.forall_mem_cons.1 h.body_kind
    exact ⟨rest, congrArg (· :: rest) h.yields.1.symm, Yields.toEnd h.yields.2 hrest h.eof_kind⟩

end Lookahead

namespace Parser

variable {τ : Type} [TokenSource τ]

/-- The tokens to come begin with these. -/
def Yields (p : Parser τ) (ts : List Token) : Prop :=
  p.tokens.Yields ts

/-- The next token. -/
def next (p : Parser τ) : Token :=
  p.tokens.peek.1

/-- The parser after some moves; its scopes and its depth stay as they are. -/
def play (p : Parser τ) (moves : List Move) : Parser τ :=
  { p with tokens := p.tokens.play moves }

/-- The parser after looking at the next token. -/
def peeked (p : Parser τ) : Parser τ :=
  p.play [.peek]

/-- The parser after consuming the next token. -/
def skipped (p : Parser τ) : Parser τ :=
  p.play [.skip]

/-- The parser after entering an event into the journal. -/
def recorded (p : Parser τ) (e : Event) : Parser τ :=
  p.play [.record e]

@[simp] theorem scopes_play (p : Parser τ) (ms : List Move) : (p.play ms).scopes = p.scopes := rfl

@[simp] theorem depth_play (p : Parser τ) (ms : List Move) : (p.play ms).depth = p.depth := rfl

@[simp] theorem scopes_peeked (p : Parser τ) : p.peeked.scopes = p.scopes := rfl

@[simp] theorem scopes_skipped (p : Parser τ) : p.skipped.scopes = p.scopes := rfl

@[simp] theorem scopes_recorded (p : Parser τ) (e : Event) : (p.recorded e).scopes = p.scopes := rfl

/-! ### Moves one after the other -/

@[simp] theorem play_nil (p : Parser τ) : p.play [] = p := rfl

@[simp] theorem play_peek (p : Parser τ) (ms : List Move) : p.play (.peek :: ms) = p.peeked.play ms :=
  rfl

@[simp] theorem play_skip (p : Parser τ) (ms : List Move) : p.play (.skip :: ms) = p.skipped.play ms :=
  rfl

@[simp] theorem play_record (p : Parser τ) (e : Event) (ms : List Move) :
    p.play (.record e :: ms) = (p.recorded e).play ms := rfl

@[simp] theorem play_append (p : Parser τ) (ms ns : List Move) :
    p.play (ms ++ ns) = (p.play ms).play ns := by
  simp [play, Lookahead.play]

/-- A look that is followed by another one leaves no trace. -/
@[simp] theorem peeked_peeked (p : Parser τ) : p.peeked.peeked = p.peeked := rfl

/-- A look that is followed by consuming the token leaves no trace. -/
@[simp] theorem skipped_peeked (p : Parser τ) : p.peeked.skipped = p.skipped := rfl

@[simp] theorem next_peeked (p : Parser τ) : p.peeked.next = p.next := rfl

/-! ### The tokens to come -/

theorem yields_cons {p : Parser τ} {t : Token} {ts : List Token} :
    p.Yields (t :: ts) ↔ p.next = t ∧ p.skipped.Yields ts :=
  Iff.rfl

theorem Yields.next_eq {p : Parser τ} {t : Token} {ts : List Token} (h : p.Yields (t :: ts)) :
    p.next = t :=
  h.1

theorem Yields.skipped {p : Parser τ} {t : Token} {ts : List Token} (h : p.Yields (t :: ts)) :
    p.skipped.Yields ts :=
  h.2

theorem Yields.peeked {p : Parser τ} {ts : List Token} (h : p.Yields ts) : p.peeked.Yields ts :=
  Lookahead.yields_peek.2 h

variable [LawfulTokenSource τ]

theorem Yields.recorded {p : Parser τ} {ts : List Token} (h : p.Yields ts) (e : Event) :
    (p.recorded e).Yields ts :=
  Lookahead.Yields.record e h

@[simp] theorem next_recorded (p : Parser τ) (e : Event) : (p.recorded e).next = p.next := by
  have h : p.Yields [p.next] := ⟨rfl, trivial⟩
  exact (h.recorded e).1

theorem Yields.play {p : Parser τ} {used ts : List Token} (h : p.Yields (used ++ ts))
    {moves : List Move} (hcount : skipCount moves = used.length) : (p.play moves).Yields ts :=
  Lookahead.Yields.play moves h hcount

end Parser

end SwiftDialect
