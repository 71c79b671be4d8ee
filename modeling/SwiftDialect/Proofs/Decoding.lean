import SwiftDialect.Source
import SwiftDialect.Proofs.Characters
import SwiftDialect.Proofs.Utf8

/-!
# Decoding bytes that arrive in pieces

A reader is seen through the bytes that are still to be decoded and the failure that comes after
them. In this view it does not matter how the bytes are cut into pieces or how often a read is
interrupted: each call gives out the next character of the lossy decoding.
-/

namespace SwiftDialect

/-- The reads bring these bytes in non-empty pieces, with interruptions anywhere, and then fail for
the given reason, or else say over and over that the input has ended. -/
inductive Delivers : List Read → List UInt8 → Option String → Prop where
  | nil : Delivers [] [] none
  | ended {reads : List Read} (h : Delivers reads [] none) : Delivers (.bytes [] :: reads) [] none
  | failed (reason : String) (reads : List Read) :
      Delivers (.failed reason :: reads) [] (some reason)
  | interrupted {reads : List Read} {bytes : List UInt8} {failure : Option String}
      (h : Delivers reads bytes failure) : Delivers (.interrupted :: reads) bytes failure
  | piece {chunk : List UInt8} {reads : List Read} {bytes : List UInt8} {failure : Option String}
      (hne : chunk ≠ []) (h : Delivers reads bytes failure) :
      Delivers (.bytes chunk :: reads) (chunk ++ bytes) failure

namespace Reader

/-- The reader is still at work: these bytes are pending or will arrive, and then the failure. -/
structure Live (r : Reader) (bytes : List UInt8) (failure : Option String) : Prop where
  unfinished : r.finished = false
  noFailure : r.failure = none
  delivers : ∃ later, bytes = r.pending ++ later ∧ Delivers r.reads later failure

/-- The reader has come to the end: it has nothing left but the failure. -/
structure Done (r : Reader) (failure : Option String) : Prop where
  finished : r.finished = true
  kept : r.failure = failure

/-- The bytes and the failure that are still to come. -/
def Holds (r : Reader) (bytes : List UInt8) (failure : Option String) : Prop :=
  r.Live bytes failure ∨ bytes = [] ∧ r.pending = [] ∧ r.Done failure

/-! ### Filling -/

theorem settle_nil {reads : List Read} {failure : Option String} (h : Delivers reads [] failure) :
    (∃ rest, settle reads = (.bytes [], rest) ∧ failure = none ∧ Delivers rest [] none) ∨
    (∃ reason rest, settle reads = (.failed reason, rest) ∧ failure = some reason) := by
  generalize hb : ([] : List UInt8) = bytes at h
  induction h with
  | nil => exact .inl ⟨[], rfl, rfl, .nil⟩
  | ended h _ => exact .inl ⟨_, rfl, rfl, h⟩
  | failed reason reads => exact .inr ⟨reason, reads, rfl, rfl⟩
  | interrupted _ ih => exact ih hb
  | piece hne _ _ => exact absurd (List.append_eq_nil_iff.1 hb.symm).1 hne

theorem settle_cons {reads : List Read} {b : UInt8} {bytes : List UInt8} {failure : Option String}
    (h : Delivers reads (b :: bytes) failure) :
    ∃ chunk rest later, settle reads = (.bytes (b :: chunk), rest) ∧ bytes = chunk ++ later ∧
      Delivers rest later failure := by
  generalize hb : b :: bytes = all at h
  induction h with
  | nil => cases hb
  | ended _ _ => cases hb
  | failed _ _ => cases hb
  | interrupted _ ih => exact ih hb
  | @piece chunk reads later failure hne h _ =>
    obtain ⟨x, chunk, rfl⟩ := List.exists_cons_of_ne_nil hne
    obtain ⟨rfl, rfl⟩ := List.cons.inj hb
    exact ⟨chunk, reads, later, rfl, rfl, h⟩

/-- Where a byte is still to come, filling makes it pending. -/
theorem Live.fill_cons {r : Reader} {b : UInt8} {bytes : List UInt8} {failure : Option String}
    (h : r.Live (b :: bytes) failure) :
    ∃ rest, r.fill.pending = b :: rest ∧ ({ r.fill with pending := rest } : Reader).Live bytes failure ∧
      r.fill.Live (b :: bytes) failure := by
  obtain ⟨hfin, hfail, later, heq, hdel⟩ := h
  cases hp : r.pending with
  | cons x rest =>
    -- a byte is pending already, so no read is made
    have hfill : r.fill = r := by simp [fill, hp]
    rw [hp] at heq
    obtain ⟨rfl, rfl⟩ := List.cons.inj heq
    rw [hfill]
    exact ⟨rest, hp, ⟨hfin, hfail, later, rfl, hdel⟩, ⟨hfin, hfail, later, by rw [hp]; rfl, hdel⟩⟩
  | nil =>
    rw [hp, List.nil_append] at heq
    subst heq
    -- reads are made until one brings bytes; there is one, since a byte is to come
    obtain ⟨chunk, rest, later, hset, rfl, hdel'⟩ := settle_cons hdel
    have hfill : r.fill = { r with pending := b :: chunk, reads := rest } := by
      simp [fill, hp, hset]
    rw [hfill]
    exact ⟨chunk, rfl, ⟨hfin, hfail, later, rfl, hdel'⟩, ⟨hfin, hfail, later, rfl, hdel'⟩⟩

/-- Where no byte is to come, filling finds the end or the failure. -/
theorem Live.fill_nil {r : Reader} {failure : Option String} (h : r.Live [] failure) :
    r.fill.pending = [] ∧ r.fill.failure = failure ∧ r.fill.Holds [] failure := by
  obtain ⟨hfin, hfail, later, heq, hdel⟩ := h
  obtain ⟨hp, rfl⟩ := List.append_eq_nil_iff.1 heq.symm
  rcases settle_nil hdel with ⟨rest, hset, rfl, hdel'⟩ | ⟨reason, rest, hset, rfl⟩
  · have hfill : r.fill = { r with pending := [], reads := rest } := by simp [fill, hp, hset]
    rw [hfill]
    exact ⟨rfl, hfail, .inl ⟨hfin, hfail, [], rfl, hdel'⟩⟩
  · have hfill : r.fill = { r with reads := rest, failure := some reason, finished := true } := by
      simp [fill, hp, hset]
    rw [hfill]
    exact ⟨hp, rfl, .inr ⟨rfl, hp, rfl, rfl⟩⟩

/-! ### One character -/

/-- Collecting continuation bytes does to the bytes to come what it does to a list. -/
theorem Live.decode (n : Nat) : ∀ {lead : Utf8.Lead} {r : Reader} {bytes : List UInt8}
    {failure : Option String}, r.Live bytes failure →
    (Reader.decode n lead r).1 = (Utf8.finish n lead bytes).1.getD Utf8.replacement ∧
      (Reader.decode n lead r).2.Holds (Utf8.finish n lead bytes).2 failure := by
  induction n with
  | zero => exact fun h => ⟨rfl, .inl h⟩
  | succ n ih =>
    intro lead r bytes failure h
    rw [Reader.decode]
    cases bytes with
    | nil =>
      obtain ⟨hp, -, hholds⟩ := h.fill_nil
      rw [hp]
      exact ⟨rfl, hholds⟩
    | cons b bytes =>
      obtain ⟨rest, hp, hrest, hfill⟩ := h.fill_cons
      rw [hp, Utf8.finish]
      by_cases hb : lead.continues b
      · simp only [hb, if_true]
        exact ih hrest
      · -- a byte that does not continue the character stays pending
        simp only [hb]
        exact ⟨rfl, .inl hfill⟩

/-- A reader that holds bytes gives out the first character of their decoding. -/
theorem Holds.next_cons {r : Reader} {b : UInt8} {bytes : List UInt8} {failure : Option String}
    (h : r.Holds (b :: bytes) failure) :
    r.next.1 = some ((Utf8.decodeOne b bytes).1.getD Utf8.replacement) ∧
      r.next.2.Holds (Utf8.decodeOne b bytes).2 failure := by
  have hlive : r.Live (b :: bytes) failure := h.resolve_right fun hd => absurd hd.1 (List.cons_ne_nil _ _)
  obtain ⟨rest, hp, hrest, -⟩ := hlive.fill_cons
  simp only [Reader.next, hlive.unfinished, Bool.false_eq_true, if_false, Utf8.decodeOne, hp]
  cases hlead : Utf8.lead? b with
  | none => exact ⟨rfl, .inl hrest⟩
  | some lead =>
    obtain ⟨hc, hholds⟩ := Live.decode lead.follow hrest
    exact ⟨congrArg some hc, hholds⟩

/-- A reader that holds nothing more gives out the end, and then it is done. -/
theorem Holds.next_nil {r : Reader} {failure : Option String} (h : r.Holds [] failure) :
    r.next.1 = none ∧ r.next.2.pending = [] ∧ r.next.2.Done failure := by
  rcases h with hlive | ⟨-, hp, hdone⟩
  · obtain ⟨hp, hfail, -⟩ := hlive.fill_nil
    rw [Reader.next, hlive.unfinished, hp]
    exact ⟨rfl, hp, rfl, hfail⟩
  · rw [Reader.next, hdone.finished]
    exact ⟨rfl, hp, hdone⟩

theorem Done.next {r : Reader} {failure : Option String} (h : r.Done failure) : r.next = (none, r) := by
  rw [Reader.next, h.finished]
  rfl

theorem Done.takeFailure {r : Reader} {failure : Option String} (h : r.Done failure) :
    r.takeFailure.1 = failure ∧ r.takeFailure.2.Done none :=
  ⟨h.kept, h.finished, rfl⟩

/-! ### One call after the other -/

/-- The reader after some calls. -/
def after (r : Reader) : Nat → Reader
  | 0 => r
  | k + 1 => r.next.2.after k

theorem Done.after {r : Reader} {failure : Option String} (h : r.Done failure) (k : Nat) :
    r.after k = r := by
  induction k with
  | zero => rfl
  | succ k ih => rw [Reader.after, h.next, ih]

/-- The characters that come before the first end are the lossy decoding. -/
theorem Holds.next_after (k : Nat) : ∀ {r : Reader} {bytes : List UInt8} {failure : Option String},
    r.Holds bytes failure → ((r.after k).next).1 = (Utf8.decodeLossy bytes)[k]? := by
  induction k with
  | zero =>
    intro r bytes failure h
    cases bytes with
    | nil => rw [Utf8.decodeLossy_nil]; exact h.next_nil.1
    | cons b bytes => rw [Utf8.decodeLossy_cons]; exact h.next_cons.1
  | succ k ih =>
    intro r bytes failure h
    cases bytes with
    | nil =>
      -- after the end nothing more is given out
      obtain ⟨-, -, hdone⟩ := h.next_nil
      rw [Reader.after, hdone.after, hdone.next, Utf8.decodeLossy_nil]
      rfl
    | cons b bytes =>
      rw [Reader.after, ih h.next_cons.2, Utf8.decodeLossy_cons, List.getElem?_cons_succ]

/-- After the first end the reader is done. -/
theorem Holds.done_after (k : Nat) : ∀ {r : Reader} {bytes : List UInt8} {failure : Option String},
    r.Holds bytes failure → (Utf8.decodeLossy bytes).length < k → (r.after k).Done failure := by
  induction k with
  | zero => exact fun _ hlt => absurd hlt (Nat.not_lt_zero _)
  | succ k ih =>
    intro r bytes failure h hlt
    cases bytes with
    | nil =>
      obtain ⟨-, -, hdone⟩ := h.next_nil
      rw [Reader.after, hdone.after]
      exact hdone
    | cons b bytes =>
      rw [Utf8.decodeLossy_cons, List.length_cons] at hlt
      exact ih h.next_cons.2 (Nat.lt_of_succ_lt_succ hlt)

/-- A fresh reader holds what its reads bring. -/
theorem holds_start {reads : List Read} {bytes : List UInt8} {failure : Option String}
    (h : Delivers reads bytes failure) : ({ reads } : Reader).Holds bytes failure :=
  .inl ⟨rfl, rfl, bytes, rfl, h⟩

/-- The text before a reader is the lossy decoding of what it holds. -/
theorem Holds.spells {r : Reader} {bytes : List UInt8} {failure : Option String}
    (h : r.Holds bytes failure) :
    (Lookahead.ofSource r : Lookahead Reader (Option Char)).Spells (Utf8.decodeLossy bytes) := by
  match bytes, h with
  | [], h =>
    rw [Utf8.decodeLossy_nil]
    exact Lookahead.spells_nil.2 h.next_nil.1
  | b :: bytes, h =>
    rw [Utf8.decodeLossy_cons]
    exact Lookahead.spells_cons.2 ⟨h.next_cons.1, h.next_cons.2.spells⟩
termination_by bytes.length
decreasing_by exact Nat.lt_succ_of_le (Utf8.decodeOne_length_le b bytes)

end Reader

end SwiftDialect
