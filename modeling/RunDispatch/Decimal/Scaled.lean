/-
# Reading a decimal from its digits and its power of ten

A decimal literal is a whole significand and a power of ten. Its double is taken in two roundings:
the significand is rounded to a double, and that is multiplied by, or divided by, the double of the
power of ten. Powers below 10^-308 are divided off 308 at a time. So a literal of many digits may
miss the nearest double by one place, and one that overflows has no value.

Key definitions: `ofScaled?`.
-/
import RunDispatch.Decimal.Binary64

namespace RunDispatch.Decimal

/-- The greatest power of ten that a double holds. -/
def greatestPower : Nat := 308

/-- The quotient by `10 ^ d`, for a power that a double holds. -/
def overPowerOfTen (x : Binary64) (d : Nat) : Binary64 :=
  ((Binary64.powerOfTen? d).bind x.div?).getD x

/-- The quotient by `10 ^ d`, taken in steps of `10 ^ 308`, while something is left. -/
def dividedDown (x : Binary64) (d : Nat) : Binary64 :=
  if d ≤ greatestPower then overPowerOfTen x d
  else if x.isZero then x
  else dividedDown (overPowerOfTen x greatestPower) (d - greatestPower)
termination_by d
decreasing_by simp only [greatestPower] at *; omega

/-- The double read for `significand · 10 ^ exponent`; `none` if it is too large. -/
def ofScaled? (significand : Nat) (exponent : Int) : Option Binary64 := do
  let x ← Binary64.ofNat? significand
  if exponent < 0 then return dividedDown x exponent.natAbs
  if exponent ≤ greatestPower then x.mul? (← Binary64.powerOfTen? exponent.toNat)
  else if x.isZero then return x
  else none

end RunDispatch.Decimal
