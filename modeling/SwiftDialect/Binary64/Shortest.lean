import SwiftDialect.Binary64

/-!
# Shortest decimals

A number is written with the fewest digits that read back as the same number and, among those, with
the digits nearest to it. The reals that round to a number form an interval around it; for one,
two, … seventeen digits the two decimals on either side of the number are tested, and the first one
that falls into the interval wins.

A `Layout` gathers what is a matter of format: where positional notation ends, how exponents and
values that are no numbers are written, and which way a number halfway between two decimals goes.
-/

namespace SwiftDialect.Binary64

/-- A positive decimal `digits * 10 ^ exponent`. -/
structure Decimal where
  digits : Nat
  exponent : Int
  deriving DecidableEq, Repr, Inhabited

/-- Which of two equally near decimals is taken. -/
inductive Tie where
  /-- The greater one. -/
  | up
  /-- The one with the even last digit. -/
  | even
  deriving DecidableEq, Repr

/-- A finite positive number and the ends of the interval of reals that round to it, all three as
numerators over one denominator. -/
structure Window where
  low : Nat
  value : Nat
  high : Nat
  den : Nat
  /-- Do the ends themselves round to the number? -/
  closed : Bool
  deriving Repr

/-- The interval of a finite positive number. Its lower end is nearer where the numbers below are
twice as dense. -/
def window (x : Binary64) : Window :=
  let m := x.significand
  let up := Nat.pow 2 (x.scale - 1074)
  let below := if m = Nat.pow 2 52 ∧ 0 < x.scale then 1 else 2
  { low := (4 * m - below) * up
    value := 4 * m * up
    high := (4 * m + 2) * up
    den := 4 * Nat.pow 2 (1074 - x.scale)
    closed := m % 2 == 0 }

/-- The number of decimal digits of a natural number. -/
def digitCount (n : Nat) : Nat :=
  (Nat.toDigits 10 n).length

/-- The least `j`, counted from `start`, with `10 ^ j * num ≥ den`. -/
def shiftToOne (num den : Nat) : Nat → Nat → Nat
  | 0, start => start
  | fuel + 1, start =>
    if den ≤ num * Nat.pow 10 start then start else shiftToOne num den fuel (start + 1)

/-- The exponent of the power of ten just above the value. -/
def Window.magnitude (w : Window) : Int :=
  if w.den ≤ w.value then digitCount (w.value / w.den)
  else 1 - (shiftToOne w.value w.den 400 1 : Int)

/-- A numerator over `den`, measured in units of `10 ^ exponent`, as a ratio of two naturals. -/
def inUnits (num den : Nat) (exponent : Int) : Nat × Nat :=
  match exponent with
  | .ofNat e => (num, den * Nat.pow 10 e)
  | .negSucc e => (num * Nat.pow 10 (e + 1), den)

/-- Does `digits * 10 ^ exponent` round to the number? -/
def Window.holds (w : Window) (d : Decimal) : Bool :=
  let (low, den) := inUnits w.low w.den d.exponent
  let (high, _) := inUnits w.high w.den d.exponent
  if w.closed then low ≤ d.digits * den && d.digits * den ≤ high
  else low < d.digits * den && d.digits * den < high

/-- The decimal with this exponent that is nearest to the number among those that round to it. -/
def Window.nearest? (w : Window) (tie : Tie) (exponent : Int) : Option Decimal :=
  let (num, den) := inUnits w.value w.den exponent
  let floor : Decimal := ⟨num / den, exponent⟩
  let ceiling : Decimal := ⟨num / den + 1, exponent⟩
  -- doubled, since half of the denominator need not be a whole number
  let twice := 2 * (num % den)
  let preferUp := den < twice || (den == twice && (tie == .up || num / den % 2 == 1))
  match w.holds floor, w.holds ceiling with
  | true, true => some (if preferUp then ceiling else floor)
  | true, false => some floor
  | false, true => some ceiling
  | false, false => none

/-- Removes zeros at the end. -/
def Decimal.trim : Nat → Decimal → Decimal
  | 0, d => d
  | fuel + 1, d =>
    if d.digits ≠ 0 ∧ d.digits % 10 = 0 then trim fuel ⟨d.digits / 10, d.exponent + 1⟩ else d

/-- The shortest decimal of a finite positive number. Seventeen digits always suffice. -/
def shortest (x : Binary64) (tie : Tie) : Decimal :=
  let w := x.window
  let hit := (List.range' 1 17).findSome? fun (n : Nat) => w.nearest? tie (w.magnitude - n)
  (hit.getD ⟨x.significand, 0⟩).trim 20

/-- How numbers are laid out. -/
structure Layout where
  /-- The least power of ten whose numbers are written positionally. -/
  positionalFrom : Int
  /-- The first power of ten whose numbers no longer are. -/
  positionalTo : Int
  /-- The mark before an exponent that is not negative. -/
  plus : String
  /-- Which of two equally near decimals is taken. -/
  tie : Tie
  /-- The text of an infinity without its sign; `none` if it is written like no number. -/
  infinity : Option String
  /-- The text of what is no number. -/
  noNumber : String
  deriving Repr

/-- Digits with a point among them or beside them. -/
def positional (digits : List Char) (exponent : Int) : String :=
  let point : Int := digits.length + exponent
  if point ≤ 0 then
    String.ofList ('0' :: '.' :: List.replicate (-point).toNat '0' ++ digits)
  else if 0 ≤ exponent then
    String.ofList (digits ++ List.replicate exponent.toNat '0' ++ ['.', '0'])
  else
    String.ofList (digits.take point.toNat ++ '.' :: digits.drop point.toNat)

/-- Digits with a point after the first one, and an exponent. -/
def scientific (plus : String) (digits : List Char) (exponent : Int) : String :=
  let lead : Int := digits.length - 1 + exponent
  let fraction := digits.drop 1
  let mantissa := digits.take 1 ++ if fraction.isEmpty then [] else '.' :: fraction
  String.ofList mantissa ++ "e" ++ (if lead < 0 then "-" else plus) ++ toString lead.natAbs

/-- A number in a given layout. -/
def render (layout : Layout) (x : Binary64) : String :=
  let sign := if x.isNegative then "-" else ""
  if x.isNaN then layout.noNumber
  else if x.isInfinite then (layout.infinity.map (sign ++ ·)).getD layout.noNumber
  else if x.magnitude = 0 then sign ++ "0.0"
  else
    let d := x.shortest layout.tie
    let digits := Nat.toDigits 10 d.digits
    let lead : Int := digits.length - 1 + d.exponent
    if layout.positionalFrom ≤ lead ∧ lead < layout.positionalTo then
      sign ++ positional digits d.exponent
    else sign ++ scientific layout.plus digits d.exponent

end SwiftDialect.Binary64
