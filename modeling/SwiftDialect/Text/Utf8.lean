/-!
# UTF-8 with replacement

Bytes are decoded one character at a time. A leading byte says how many continuation bytes follow
and which values the first of them may take; every later one is in `80`–`BF`. A byte that cannot
start a character, or a sequence that is cut short, is *ill formed*: the bytes that could still have
become a character count as one unit, and the byte that broke the sequence is looked at afresh.

`decodeLossy` writes the replacement character for each ill-formed unit; `decode?` refuses the text.
-/

namespace SwiftDialect.Utf8

/-- The character written for an ill-formed unit. -/
def replacement : Char := '\uFFFD'

/-- What a leading byte promises about the bytes after it. -/
structure Lead where
  /-- How many continuation bytes follow. -/
  follow : Nat
  /-- The least value of the first continuation byte. -/
  low : Nat := 0x80
  /-- The greatest value of the first continuation byte. -/
  high : Nat := 0xBF
  /-- The bits of the code point that the leading byte carries. -/
  bits : Nat
  deriving DecidableEq, Repr

/-- Reads a leading byte; `none` for a byte that starts no character. -/
def lead? (byte : UInt8) : Option Lead :=
  let b := byte.toNat
  if b ≤ 0x7F then some { follow := 0, bits := b }
  -- continuation bytes, and leads of overlong forms only
  else if b < 0xC2 then none
  else if b ≤ 0xDF then some { follow := 1, bits := b - 0xC0 }
  -- below this bound the form would be overlong, and above the next one a surrogate
  else if b = 0xE0 then some { follow := 2, low := 0xA0, bits := 0 }
  else if b = 0xED then some { follow := 2, high := 0x9F, bits := 0xD }
  else if b ≤ 0xEF then some { follow := 2, bits := b - 0xE0 }
  else if b = 0xF0 then some { follow := 3, low := 0x90, bits := 0 }
  else if b < 0xF4 then some { follow := 3, bits := b - 0xF0 }
  else if b = 0xF4 then some { follow := 3, high := 0x8F, bits := 4 }
  else none

/-- After one continuation byte the next may be any of `80`–`BF`. -/
def Lead.push (lead : Lead) (byte : UInt8) : Lead :=
  { follow := lead.follow - 1, bits := lead.bits * 64 + (byte.toNat - 0x80) }

/-- Can this byte continue the sequence? -/
def Lead.continues (lead : Lead) (byte : UInt8) : Bool :=
  lead.low ≤ byte.toNat && byte.toNat ≤ lead.high

/-- Collects the continuation bytes that `lead` still asks for. The character is `none` if one of
them is missing; the byte that should have been it stays in the rest. -/
def finish : Nat → Lead → List UInt8 → Option Char × List UInt8
  | 0, lead, rest => (some (Char.ofNat lead.bits), rest)
  | _ + 1, _, [] => (none, [])
  | n + 1, lead, byte :: rest =>
    if lead.continues byte then finish n (lead.push byte) rest else (none, byte :: rest)

/-- Decodes the character that starts with `byte`; `none` for an ill-formed unit. -/
def decodeOne (byte : UInt8) (rest : List UInt8) : Option Char × List UInt8 :=
  match lead? byte with
  | some lead => finish lead.follow lead rest
  | none => (none, rest)

/-- No step gives back more bytes than it was given. -/
theorem finish_length_le (n : Nat) (lead : Lead) (bytes : List UInt8) :
    (finish n lead bytes).2.length ≤ bytes.length := by
  induction n generalizing lead bytes with
  | zero => simp [finish]
  | succ n ih =>
    cases bytes with
    | nil => simp [finish]
    | cons byte rest =>
      by_cases h : lead.continues byte
      · have := ih (lead.push byte) rest
        simp [finish, h]
        omega
      · simp [finish, h]

/-- Decoding one unit leaves at most the bytes after its first one. -/
theorem decodeOne_length_le (byte : UInt8) (rest : List UInt8) :
    (decodeOne byte rest).2.length ≤ rest.length := by
  unfold decodeOne
  split
  · exact finish_length_le _ _ _
  · exact Nat.le_refl _

/-- The units of a byte sequence in order: a character, or `none` where the bytes are ill formed. -/
def units : List UInt8 → List (Option Char)
  | [] => []
  | byte :: rest =>
    have := decodeOne_length_le byte rest
    (decodeOne byte rest).1 :: units (decodeOne byte rest).2
termination_by bytes => bytes.length
decreasing_by simp; omega

/-- Decodes with one replacement character for each ill-formed unit. -/
def decodeLossy (bytes : List UInt8) : List Char :=
  (units bytes).map (·.getD replacement)

/-- Decodes a well-formed byte sequence. -/
def decode? (bytes : List UInt8) : Option (List Char) :=
  (units bytes).mapM id

/-- The bytes of a text. -/
def encode (text : String) : List UInt8 :=
  text.toUTF8.toList

end SwiftDialect.Utf8
