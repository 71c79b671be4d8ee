/-!
# Binary floating point numbers of 64 bits

A number is its bit pattern: a sign, eleven bits of exponent and fifty-two bits of fraction. All
arithmetic is exact arithmetic on natural numbers; a ratio becomes a number by rounding once, to the
nearest one and, halfway between two, to the even one.
-/

namespace SwiftDialect

/-- A floating point number, given by its bits. -/
structure Binary64 where
  bits : UInt64
  deriving DecidableEq, Repr, Inhabited

namespace Binary64

/-- The bits of infinity without its sign. -/
def infinityBits : Nat := 0x7FF * Nat.pow 2 52

/-- The bits without the sign. -/
def magnitude (x : Binary64) : Nat :=
  x.bits.toNat % Nat.pow 2 63

/-- Is the sign bit set? -/
def isNegative (x : Binary64) : Bool :=
  Nat.pow 2 63 ≤ x.bits.toNat

/-- Is this a pattern that stands for no number? -/
def isNaN (x : Binary64) : Bool :=
  infinityBits < x.magnitude

/-- Is this one of the two infinities? -/
def isInfinite (x : Binary64) : Bool :=
  x.magnitude == infinityBits

/-- Equality of values: the two zeros are equal, and what is no number equals nothing. -/
def same (x y : Binary64) : Bool :=
  !x.isNaN && !y.isNaN && (x.bits == y.bits || (x.magnitude == 0 && y.magnitude == 0))

/-- The integer part of the significand of a finite number. -/
def significand (x : Binary64) : Nat :=
  let fraction := x.magnitude % Nat.pow 2 52
  if x.magnitude < Nat.pow 2 52 then fraction else fraction + Nat.pow 2 52

/-- The exponent of a finite number: its magnitude is `significand * 2 ^ (scale - 1074)`. -/
def scale (x : Binary64) : Nat :=
  x.magnitude / Nat.pow 2 52 - 1

/-- The quotient rounded to the nearest integer, a half to the even one. -/
def roundQuotient (num den : Nat) : Nat :=
  let quotient := num / den
  let twice := 2 * (num % den)
  if den < twice ∨ (den = twice ∧ quotient % 2 = 1) then quotient + 1 else quotient

/-- How far a positive ratio must be scaled up from the least step `2 ^ (-1074)` so that its
quotient has fifty-three bits; zero for the ratios that are too small to have that many. -/
def scaleOfRatio (num den : Nat) : Nat :=
  let guess := num.log2 + 1074 - den.log2 - 53
  if num * Nat.pow 2 1074 / (den * Nat.pow 2 guess) < Nat.pow 2 53 then guess else guess + 1

/-- The number nearest to a ratio, infinity if the ratio is too large. -/
def ofRatio (num den : Nat) : Binary64 :=
  if num = 0 then ⟨0⟩
  else
    let scale := scaleOfRatio num den
    let bits := scale * Nat.pow 2 52 + roundQuotient (num * Nat.pow 2 1074) (den * Nat.pow 2 scale)
    ⟨UInt64.ofNat (min bits infinityBits)⟩

/-- The value of a run of decimal digits, read after the digits that make up `value`. -/
def digitsValue (value : Nat) (digits : List Char) : Nat :=
  digits.foldl (fun n c => 10 * n + (c.toNat - '0'.toNat)) value

/-- Reads a decimal with a point: digits on both sides of it, at least one digit in all. -/
def ofDecimal? (text : List Char) : Option Binary64 :=
  let whole := text.takeWhile (· != '.')
  let fraction := (text.dropWhile (· != '.')).drop 1
  let digits := whole ++ fraction
  if digits.isEmpty || !digits.all Char.isDigit then none
  else some (ofRatio (digitsValue 0 digits) (Nat.pow 10 fraction.length))

end Binary64

end SwiftDialect
