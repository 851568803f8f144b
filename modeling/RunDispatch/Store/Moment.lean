/-
# Moments

A moment is counted in microseconds from the beginning of the year 2000, in universal time. It is
written as a date and a time of day in the Gregorian calendar, with as many decimals of the second
as are needed: none, three or six. A year has four digits, or a sign and at least four.

Key definitions: `Moment`, `civil`, `Moment.display`.
-/
namespace RunDispatch.Store

/-- A moment, in microseconds from the beginning of the year 2000. -/
structure Moment where
  micros : Int
  deriving DecidableEq, Repr

/-- A day of the calendar. -/
structure Date where
  year : Int
  month : Nat
  day : Nat
  deriving DecidableEq, Repr

/-- The days in 400 years, after which the calendar repeats. -/
def daysPerCycle : Int := 146097

/-- The days from the first of March of the year 0 to the beginning of the year 2000. -/
def daysBefore2000 : Int := 730425

/-- The day of a number of days from the beginning of the year 2000. Years are counted from March
on, so that the day that is put in stands at their end. -/
def civil (days : Int) : Date :=
  let z := days + daysBefore2000
  let dayOfCycle := (z.fmod daysPerCycle).toNat
  let yearOfCycle :=
    (dayOfCycle - dayOfCycle / 1460 + dayOfCycle / 36524 - dayOfCycle / 146096) / 365
  let dayOfYear := dayOfCycle - (365 * yearOfCycle + yearOfCycle / 4 - yearOfCycle / 100)
  let monthFromMarch := (5 * dayOfYear + 2) / 153
  let month := if monthFromMarch < 10 then monthFromMarch + 3 else monthFromMarch - 9
  let year := z.fdiv daysPerCycle * 400 + yearOfCycle
  { year := if month ≤ 2 then year + 1 else year
    month
    day := dayOfYear - (153 * monthFromMarch + 2) / 5 + 1 }

/-- A number with at least `width` digits. -/
def padded (width n : Nat) : String :=
  let digits := Nat.toDigits 10 n
  String.ofList (List.replicate (width - digits.length) '0' ++ digits)

/-- A year. -/
def yearText (year : Int) : String :=
  if 0 ≤ year ∧ year ≤ 9999 then padded 4 year.toNat
  else (if year < 0 then "-" else "+") ++ padded 4 year.natAbs

/-- A part of a second, in microseconds. -/
def fractionText (micros : Nat) : String :=
  if micros = 0 then ""
  else if micros % 1000 = 0 then "." ++ padded 3 (micros / 1000)
  else "." ++ padded 6 micros

/-- The microseconds of a day. -/
def microsPerDay : Int := 86400000000

/-- A moment as a date and a time of day. -/
def Moment.display (m : Moment) : String :=
  let date := civil (m.micros.fdiv microsPerDay)
  let time := (m.micros.fmod microsPerDay).toNat
  let seconds := time / 1000000
  yearText date.year ++ "-" ++ padded 2 date.month ++ "-" ++ padded 2 date.day ++ "T" ++
    padded 2 (seconds / 3600) ++ ":" ++ padded 2 (seconds / 60 % 60) ++ ":" ++
    padded 2 (seconds % 60) ++ fractionText (time % 1000000) ++ "Z"

end RunDispatch.Store
