import SwiftDialect.Stream
import SwiftDialect.Text.Utf8

/-!
# Character sources

A source gives out the characters of a unit one at a time and `none` where the input ends. There are
two: a text in memory, and a *reader*, which decodes bytes that arrive in pieces. A piece may end in
the middle of a character, a read may be interrupted and tried again, and it may fail for good; the
failure can be collected once after the characters before it have been given out.

Each source bounds the characters it gives out before the next `none`, which is why scanning ends.
-/

namespace SwiftDialect

universe u

/-- A producer of characters that reaches `none` after finitely many of them. -/
class CharSource (σ : Type u) extends Producer σ (Option Char) where
  /-- A bound on how many characters come before the next `none`. -/
  remaining : σ → Nat
  /-- Each character given out uses up some of the bound. -/
  remaining_lt : ∀ (s : σ) (c : Char), (next s).1 = some c → remaining (next s).2 < remaining s
  /-- Collects the failure that cut the input short; it is handed over only once. -/
  takeFailure : σ → Option String × σ

/-- A text in memory gives out its characters in order. -/
instance : CharSource (List Char) where
  next
    | [] => (none, [])
    | c :: rest => (some c, rest)
  remaining := List.length
  remaining_lt s c := by cases s <;> simp
  takeFailure s := (none, s)

/-- The outcome of one attempt to read. -/
inductive Read where
  /-- These bytes arrived; none at all says that the input has ended. -/
  | bytes (chunk : List UInt8)
  /-- The attempt was interrupted and is to be repeated. -/
  | interrupted
  /-- The attempt failed for good. -/
  | failed (reason : String)
  deriving DecidableEq, Repr, Inhabited

/-- How many bytes a read brings. -/
def Read.size : Read → Nat
  | .bytes chunk => chunk.length
  | .interrupted | .failed _ => 0

/-- Decodes bytes that arrive in pieces. -/
structure Reader where
  /-- Bytes that have arrived and are not decoded yet. -/
  pending : List UInt8 := []
  /-- The outcomes of the reads to come; after them the input has ended. -/
  reads : List Read
  /-- A failure that nobody has collected. -/
  failure : Option String := none
  /-- Has the end of the input been given out? -/
  finished : Bool := false
  deriving DecidableEq, Repr, Inhabited

namespace Reader

/-- A reader of a complete byte sequence. -/
def ofBytes (bytes : List UInt8) : Reader :=
  { reads := [.bytes bytes] }

/-- Repeats the attempt to read until it is not interrupted. -/
def settle : List Read → Read × List Read
  | [] => (.bytes [], [])
  | .interrupted :: rest => settle rest
  | outcome :: rest => (outcome, rest)

/-- Makes sure that the next byte is pending, unless there is none. A failure is kept for later and
finishes the input. -/
def fill (r : Reader) : Reader :=
  match r.pending with
  | _ :: _ => r
  | [] =>
    match settle r.reads with
    | (.bytes chunk, reads) => { r with pending := chunk, reads }
    | (.failed reason, reads) => { r with reads, failure := some reason, finished := true }
    | (.interrupted, reads) => { r with reads }

/-- Collects the continuation bytes that `lead` still asks for; the character is the replacement
character if one of them is missing. -/
def decode : Nat → Utf8.Lead → Reader → Char × Reader
  | 0, lead, r => (Char.ofNat lead.bits, r)
  | n + 1, lead, r =>
    match r.fill.pending with
    | [] => (Utf8.replacement, r.fill)
    | byte :: rest =>
      if lead.continues byte then decode n (lead.push byte) { r.fill with pending := rest }
      -- the byte that broke the sequence stays pending and is looked at afresh
      else (Utf8.replacement, r.fill)

/-- The next character, or `none` at the end of the input and ever after. -/
def next (r : Reader) : Option Char × Reader :=
  if r.finished then (none, r)
  else
    match r.fill.pending with
    -- a failure while filling ends the input in the same way
    | [] => (none, { r.fill with finished := true })
    | byte :: rest =>
      match Utf8.lead? byte with
      | none => (some Utf8.replacement, { r.fill with pending := rest })
      | some lead =>
        let (c, r) := decode lead.follow lead { r.fill with pending := rest }
        (some c, r)

/-- Hands over the failure, if there is one. -/
def takeFailure (r : Reader) : Option String × Reader :=
  (r.failure, { r with failure := none })

/-- The bytes that some reads bring. -/
def arriving : List Read → Nat
  | [] => 0
  | outcome :: rest => outcome.size + arriving rest

/-- The bytes that are pending or still to arrive. -/
def byteCount (r : Reader) : Nat :=
  r.pending.length + arriving r.reads

theorem settle_size (reads : List Read) :
    Read.size (settle reads).1 + arriving (settle reads).2 = arriving reads := by
  fun_induction settle reads with
  | case1 => rfl
  | case2 rest ih => simpa [arriving, Read.size] using ih
  | case3 outcome rest _ => simp [arriving]

/-- Filling moves bytes and loses none. -/
theorem byteCount_fill (r : Reader) : r.fill.byteCount = r.byteCount := by
  have size := settle_size r.reads
  unfold fill
  split
  · rfl
  · next empty =>
    split <;> next outcome reads settled =>
      rw [settled] at size
      simp_all [byteCount, Read.size]

/-- Decoding only uses bytes up. -/
theorem byteCount_decode (n : Nat) (lead : Utf8.Lead) (r : Reader) :
    (decode n lead r).2.byteCount ≤ r.byteCount := by
  induction n generalizing lead r with
  | zero => simp [decode]
  | succ n ih =>
    have filled := byteCount_fill r
    unfold decode
    split
    · simp only
      omega
    · next byte rest pending =>
      split
      · have := ih (lead.push byte) { r.fill with pending := rest }
        simp [byteCount, pending] at this filled ⊢
        omega
      · simp only
        omega

/-- A character uses up at least one byte. -/
theorem byteCount_next (r : Reader) (c : Char) (h : r.next.1 = some c) :
    r.next.2.byteCount < r.byteCount := by
  have filled := byteCount_fill r
  unfold next at h ⊢
  split
  · simp_all
  · split
    · simp_all
    · next byte rest pending =>
      simp only [byteCount, pending, List.length_cons] at filled
      split
      · simp only [byteCount]
        omega
      · next lead _ =>
        have := byteCount_decode lead.follow lead { r.fill with pending := rest }
        simp only [byteCount] at this ⊢
        omega

instance : CharSource Reader where
  next := next
  remaining := byteCount
  remaining_lt := byteCount_next
  takeFailure := takeFailure

end Reader

/-! ### Looking ahead in the characters -/

namespace Lookahead

variable {σ : Type u}

/-- Characters before the first `none`, if `after` of them follow the buffered ones. -/
def charsBefore (after : Nat) : List (Option Char) → Nat
  | [] => after
  | none :: _ => 0
  | some _ :: rest => charsBefore after rest + 1

variable [CharSource σ]

/-- A bound on how many characters come before the next `none`. -/
def charsLeft (q : Lookahead σ (Option Char)) : Nat :=
  charsBefore (CharSource.remaining q.source) q.buffer

/-- Consuming a character uses up some of the bound. -/
theorem charsLeft_pop_lt {q : Lookahead σ (Option Char)} {c : Char} (h : q.pop.1 = some c) :
    q.pop.2.charsLeft < q.charsLeft := by
  obtain ⟨buffer, source⟩ := q
  cases buffer with
  | nil =>
    simp only [pop] at h ⊢
    exact CharSource.remaining_lt source c h
  | cons a rest =>
    simp only [pop] at h ⊢
    subst h
    simp [charsLeft, charsBefore]

/-- Putting back what was just taken does not raise the bound. -/
theorem charsLeft_unread_pop_le (q : Lookahead σ (Option Char)) :
    (q.pop.2.unread q.pop.1).charsLeft ≤ q.charsLeft := by
  cases h : q.pop.1 with
  | none => simp [charsLeft, unread, charsBefore]
  | some c =>
    have := charsLeft_pop_lt h
    simp only [charsLeft, unread, charsBefore] at this ⊢
    omega

/-- Consumes the characters up to the first one that fails the test, or to the end. -/
def takeWhile (test : Char → Bool) (q : Lookahead σ (Option Char)) :
    List Char × Lookahead σ (Option Char) :=
  match h : q.pop.1 with
  | none => ([], q.pop.2.unread none)
  | some c =>
    have := charsLeft_pop_lt h
    if test c then
      let (taken, rest) := takeWhile test q.pop.2
      (c :: taken, rest)
    else ([], q.pop.2.unread (some c))
termination_by q.charsLeft

/-- Consumes the next character if it is `expected`, and says whether it was. -/
def eat (expected : Char) (q : Lookahead σ (Option Char)) : Bool × Lookahead σ (Option Char) :=
  if q.pop.1 = some expected then (true, q.pop.2) else (false, q.pop.2.unread q.pop.1)

/-- Consuming a run of characters does not raise the bound. -/
theorem charsLeft_takeWhile_le (test : Char → Bool) (q : Lookahead σ (Option Char)) :
    (q.takeWhile test).2.charsLeft ≤ q.charsLeft := by
  fun_induction takeWhile test q with
  | case1 q h => simpa [h] using charsLeft_unread_pop_le q
  | case2 q c h _ _ taken rest eq ih =>
    have := charsLeft_pop_lt h
    rw [eq] at ih
    simp only at ih ⊢
    omega
  | case3 q c h _ _ => simpa [h] using charsLeft_unread_pop_le q

/-- Trying for a character does not raise the bound. -/
theorem charsLeft_eat_le (expected : Char) (q : Lookahead σ (Option Char)) :
    (q.eat expected).2.charsLeft ≤ q.charsLeft := by
  unfold eat
  split
  · next h => exact Nat.le_of_lt (charsLeft_pop_lt h)
  · exact charsLeft_unread_pop_le q

end Lookahead

end SwiftDialect
