/-
# Finite numbers of double precision, in exact arithmetic

A finite double is a sign and `mantissa · 2 ^ exponent` with a mantissa below 2^53. Arithmetic is
done on exact quotients of natural numbers and rounded once, to the nearest double and on a tie to
the even mantissa; what rounds beyond the largest double has no result.

Key definitions: `Binary64`, `Magnitude.nearest?`, `Binary64.ofNat?`, `Binary64.mul?`,
`Binary64.div?`, `Binary64.powerOfTen?`.
-/
namespace RunDispatch.Decimal

/-- The size of a finite double: `mantissa · 2 ^ exponent`. -/
structure Magnitude where
  mantissa : Nat
  exponent : Int
  deriving DecidableEq, Repr

namespace Magnitude

/-- The exponent of the smallest doubles. -/
def leastExponent : Int := -1074

/-- The exponent of the largest doubles. -/
def greatestExponent : Int := 971

/-- The first mantissa of a full number of digits. -/
def fullMantissa : Nat := Nat.pow 2 52

def zero : Magnitude := ⟨0, leastExponent⟩

/-- The quotient of two natural numbers, rounded to the nearest whole number and on a tie to the
even one. -/
def roundQuotient (num den : Nat) : Nat :=
  let q := num / den
  let r := 2 * (num % den)
  if r < den then q else if den < r then q + 1 else q + q % 2

/-- `num / den / 2 ^ e` as a quotient of natural numbers. -/
def scaled (num den : Nat) (e : Int) : Nat × Nat :=
  if 0 ≤ e then (num, den * Nat.pow 2 e.toNat) else (num * Nat.pow 2 (-e).toNat, den)

/-- The exponent at which `num / den` has a full mantissa, or the least one there is. -/
def exponentFor (num den : Nat) : Int :=
  let e := (Nat.log2 num : Int) - Nat.log2 den - 52
  let (n, d) := scaled num den e
  max leastExponent (if d * fullMantissa ≤ n then e else e - 1)

/-- The double nearest to `num / den`, if that is not beyond the largest. -/
def nearest? (num den : Nat) : Option Magnitude :=
  if num = 0 then some zero
  else
    let e := exponentFor num den
    let (n, d) := scaled num den e
    let m := roundQuotient n d
    let r : Magnitude := if m = 2 * fullMantissa then ⟨fullMantissa, e + 1⟩ else ⟨m, e⟩
    if greatestExponent < r.exponent then none else some r

/-- The numerator of a magnitude, as a quotient of natural numbers. -/
def num (x : Magnitude) : Nat :=
  x.mantissa * Nat.pow 2 x.exponent.toNat

/-- The denominator of a magnitude, as a quotient of natural numbers. -/
def den (x : Magnitude) : Nat :=
  Nat.pow 2 (-x.exponent).toNat

end Magnitude

/-- A finite double. Zero has both signs. -/
structure Binary64 where
  negative : Bool
  magnitude : Magnitude
  deriving DecidableEq, Repr

namespace Binary64

def zero (negative : Bool) : Binary64 := ⟨negative, .zero⟩

def isZero (x : Binary64) : Bool := x.magnitude.mantissa == 0

/-- The double nearest to a natural number. -/
def ofNat? (n : Nat) : Option Binary64 :=
  (Magnitude.nearest? n 1).map fun m => ⟨false, m⟩

/-- The double nearest to `10 ^ e`. -/
def powerOfTen? (e : Nat) : Option Binary64 :=
  ofNat? (Nat.pow 10 e)

/-- The double nearest to a product. -/
def mul? (x y : Binary64) : Option Binary64 :=
  (Magnitude.nearest? (x.magnitude.num * y.magnitude.num) (x.magnitude.den * y.magnitude.den)).map
    fun m => ⟨x.negative != y.negative, m⟩

/-- The double nearest to a quotient; there is none by zero. -/
def div? (x y : Binary64) : Option Binary64 :=
  if y.isZero then none
  else
    (Magnitude.nearest? (x.magnitude.num * y.magnitude.den)
        (x.magnitude.den * y.magnitude.num)).map
      fun m => ⟨x.negative != y.negative, m⟩

def neg (x : Binary64) : Binary64 := { x with negative := !x.negative }

end Binary64

end RunDispatch.Decimal
