/-
# The fewest digits that read back

The reals that round to a double form an interval around it; its ends belong to it exactly when
the mantissa is even. Of all decimals in the interval, `Magnitude.digits` picks one with the fewest
digits, and of these the nearest to the double, on a tie the one with the even last digit. A
`Layout` says where a decimal is written with a point alone and where with an exponent.

Key definitions: `Digits`, `Magnitude.digits`, `Layout`, `Layout.write`.
-/
import RunDispatch.Decimal.Binary64

namespace RunDispatch.Decimal

/-- A decimal: its digits as one number, and the power of ten of the first of them. -/
structure Digits where
  coefficient : Nat
  leading : Int
  deriving DecidableEq, Repr

/-- How many decimal digits a number has; zero has none. -/
def digitCount (n : Nat) : Nat :=
  if n = 0 then 0 else (Nat.toDigits 10 n).length

/-- The power of ten of the first digit of `num / den`. -/
def leadingPower (num den : Nat) : Int :=
  if den ≤ num then (digitCount (num / den) : Int) - 1
  else - (digitCount ((den - 1) / num) : Int)

namespace Magnitude

/-- The interval that rounds to a magnitude, in quarters of its last place: lower end, value and
upper end over one denominator, and whether the ends belong to it. -/
structure Interval where
  low : Nat
  mid : Nat
  high : Nat
  den : Nat
  closed : Bool
  deriving Repr

/-- The interval of the reals that round to `x`. The step below a power of two is half the step
above it. -/
def interval (x : Magnitude) : Interval :=
  let below := if x.mantissa = fullMantissa ∧ leastExponent < x.exponent then 1 else 2
  let e := x.exponent - 2
  let unit := Nat.pow 2 e.toNat
  { low := (4 * x.mantissa - below) * unit
    mid := 4 * x.mantissa * unit
    high := (4 * x.mantissa + 2) * unit
    den := Nat.pow 2 (-e).toNat
    closed := x.mantissa % 2 == 0 }

/-- Whether `p / q` lies in the interval. -/
def Interval.holds (i : Interval) (p q : Nat) : Bool :=
  if i.closed then i.low * q ≤ p * i.den && p * i.den ≤ i.high * q
  else i.low * q < p * i.den && p * i.den < i.high * q

/-- The decimal of `count` digits in the interval that is nearest to its middle, if one of the
two neighbours of the middle on that grid lies in it. -/
def Interval.digitsOf? (i : Interval) (leading : Int) (count : Nat) : Option Digits :=
  let grid := leading - count + 1
  let up := Nat.pow 10 grid.toNat
  let down := Nat.pow 10 (-grid).toNat
  let low := i.mid * down / (i.den * up)
  let twice := i.mid * down % (i.den * up) * 2
  match i.holds (low * up) down, i.holds ((low + 1) * up) down with
  | false, false => none
  | true, false => some ⟨low, leading⟩
  | false, true => some ⟨low + 1, leading⟩
  | true, true =>
    if twice < i.den * up ∨ (twice = i.den * up ∧ low % 2 = 0) then some ⟨low, leading⟩
    else some ⟨low + 1, leading⟩

/-- The first hit among decimals of `count`, `count + 1`, … digits. -/
def Interval.search (i : Interval) (leading : Int) : Nat → Nat → Digits
  | 0, _ => ⟨0, leading⟩
  | more + 1, count => (i.digitsOf? leading count).getD (i.search leading more (count + 1))

/-- The fewest digits that read back as `x`, which is not zero. Seventeen always suffice. A single
digit that rounds up to ten is a one in the place above. -/
def digits (x : Magnitude) : Digits :=
  let i := x.interval
  let d := i.search (leadingPower i.mid i.den) 17 1
  if d.coefficient = 10 then ⟨1, d.leading + 1⟩ else d

end Magnitude

/-- How a decimal is laid out: positionally while the power of its first digit lies between two
bounds, otherwise with an exponent. -/
structure Layout where
  positionalFrom : Int
  positionalTo : Int
  /-- What a whole number written positionally ends in. -/
  wholeEnd : List Char
  /-- What stands before an exponent that is not negative. -/
  plus : List Char

namespace Layout

/-- A decimal written positionally. -/
def positional (l : Layout) (digits : List Char) (leading : Int) : List Char :=
  if leading < 0 then '0' :: '.' :: (List.replicate (-leading - 1).toNat '0' ++ digits)
  else
    let whole := leading.toNat + 1
    if digits.length ≤ whole then
      digits ++ List.replicate (whole - digits.length) '0' ++ l.wholeEnd
    else digits.take whole ++ '.' :: digits.drop whole

/-- A decimal written with an exponent. -/
def exponential (l : Layout) (digits : List Char) (leading : Int) : List Char :=
  let mark := if leading < 0 then '-' :: Nat.toDigits 10 leading.natAbs
    else l.plus ++ Nat.toDigits 10 leading.natAbs
  match digits with
  | [] => []
  | [d] => d :: 'e' :: mark
  | d :: rest => d :: '.' :: (rest ++ 'e' :: mark)

/-- A decimal as the layout has it. -/
def writeDigits (l : Layout) (d : Digits) : List Char :=
  let digits := Nat.toDigits 10 d.coefficient
  if l.positionalFrom ≤ d.leading ∧ d.leading ≤ l.positionalTo
  then l.positional digits d.leading
  else l.exponential digits d.leading

/-- A double as the layout has it. -/
def write (l : Layout) (x : Binary64) : List Char :=
  let body := if x.isZero then '0' :: l.wholeEnd else l.writeDigits x.magnitude.digits
  if x.negative then '-' :: body else body

end Layout

end RunDispatch.Decimal
