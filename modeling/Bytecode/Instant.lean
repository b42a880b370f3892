import Bytecode.Text.Digits

/-!
# Points in time

A point in time is a number of nanoseconds since the beginning of 1970.  It is
shown as date and time of day in universal time, to the second.
-/

namespace Bytecode

/-- Nanoseconds since the beginning of 1970. -/
abbrev Instant := Int

namespace Instant

/-- A day of the calendar. -/
structure Day where
  year : Int
  month : Nat
  day : Nat
  deriving DecidableEq, Repr

/-- The day with a given distance from the first of January 1970.  Years are
counted from the first of March, so that a leap day is the last of its year, and
in cycles of 400, which are all equally long. -/
def dayOfNumber (n : Int) : Day :=
  let shifted := n + 719468
  let cycle := shifted.fdiv 146097
  let dayOfCycle := (shifted - cycle * 146097).toNat
  let yearOfCycle :=
    (dayOfCycle - dayOfCycle / 1460 +
      dayOfCycle / 36524 - dayOfCycle / 146096) / 365
  let dayOfYear :=
    dayOfCycle - (365 * yearOfCycle + yearOfCycle / 4 - yearOfCycle / 100)
  let monthFromMarch := (5 * dayOfYear + 2) / 153
  let month :=
    if monthFromMarch < 10 then monthFromMarch + 3 else monthFromMarch - 9
  { year := cycle * 400 + yearOfCycle + (if month ≤ 2 then 1 else 0)
    month
    day := dayOfYear - (153 * monthFromMarch + 2) / 5 + 1 }

/-- Date and time of day, to the second. -/
def text (t : Instant) : String :=
  let seconds := Int.fdiv t 1000000000
  let number := seconds.fdiv 86400
  let rest := (seconds - number * 86400).toNat
  let day := dayOfNumber number
  Text.decimal 4 day.year.toNat ++ "-" ++ Text.decimal 2 day.month ++ "-" ++
    Text.decimal 2 day.day ++ " " ++ Text.decimal 2 (rest / 3600) ++ ":" ++
    Text.decimal 2 (rest / 60 % 60) ++ ":" ++ Text.decimal 2 (rest % 60)

end Instant

end Bytecode
