import Bytecode.Database.Function.Text

/-!
# Moments

A moment is a number of milliseconds since noon of a day long ago, or a date and
a time of the day.  What it is not known as is computed when somebody asks for
it, and a date that was written with a day too many stays as it is until then.
A moment that lies outside of the calendar is wrong, and stays so.

As a text a moment is a date, a time of the day or both, or what a format makes
of it, with letters for its parts.
-/

namespace Bytecode.Database

/-- A day of the calendar.  The day of the month may lie behind its end. -/
structure Date where
  year : Int
  month : Int
  dayOfMonth : Int
  deriving DecidableEq, Repr, Inhabited

namespace Date

/-- The first day of the year 2000, which a time of the day without a date
belongs to. -/
def usual : Date := ⟨2000, 1, 1⟩

/-- The days from the first of January 1970 to a date. -/
def days (d : Date) : Int :=
  let y := if d.month ≤ 2 then d.year - 1 else d.year
  let era := y.fdiv 400
  let yoe := y - era * 400
  let doy := (153 * (if 2 < d.month then d.month - 3 else d.month + 9) + 2) /
    5 + d.dayOfMonth - 1
  era * 146097 + (yoe * 365 + yoe / 4 - yoe / 100 + doy) - 719468

/-- The date so many days from the first of January 1970. -/
def ofDays (n : Int) : Date :=
  let z := n + 719468
  let era := z.fdiv 146097
  let doe := z - era * 146097
  let yoe := (doe - doe / 1460 + doe / 36524 - doe / 146096) / 365
  let doy := doe - (365 * yoe + yoe / 4 - yoe / 100)
  let mp := (5 * doy + 2) / 153
  let month := if mp < 10 then mp + 3 else mp - 9
  ⟨yoe + era * 400 + if month ≤ 2 then 1 else 0, month,
    doy - (153 * mp + 2) / 5 + 1⟩

/-- How many days a month has. -/
def monthLength (d : Date) : Int :=
  let next :=
    if d.month = 12 then Date.mk (d.year + 1) 1 1 else ⟨d.year, d.month + 1, 1⟩
  next.days - (Date.mk d.year d.month 1).days

/-- How many days a date lies behind the end of its month. -/
def surplus (d : Date) : Int := max 0 (d.dayOfMonth - d.monthLength)

/-- A date with years and months added. -/
def addMonths (d : Date) (years months : Int) : Date :=
  let m := d.month + months
  let carry := if 0 < m then Int.tdiv (m - 1) 12 else Int.tdiv (m - 12) 12
  { d with year := d.year + years + carry, month := m - carry * 12 }

end Date

/-- A time of the day.  The hour may be the 24th. -/
structure Clock where
  hour : Int := 0
  minute : Int := 0
  second : Float := 0
  deriving Inhabited

namespace Clock

/-- A number that is not negative without its fraction. -/
def floor (x : Float) : Int := x.toInt64.toInt

/-- The milliseconds since the day began. -/
def milliseconds (c : Clock) : Int :=
  c.hour * 3600000 + c.minute * 60000 + floor (c.second * 1000.0 + 0.5)

/-- The time so many milliseconds after the day began. -/
def ofMilliseconds (ms : Int) : Clock where
  hour := ms / 3600000
  minute := ms / 60000 % 60
  second := Float.ofInt (ms % 60000) / 1000.0

end Clock

/-- A moment, in all the ways it is known. -/
structure Moment where
  /-- Milliseconds since the beginning. -/
  time : Option Int := none
  date : Option Date := none
  clock : Option Clock := none
  /-- How many minutes the time of the day is ahead. -/
  zone : Int := 0
  /-- The number that was written, if nothing says yet what it counts. -/
  raw : Option Float := none
  /-- Whether there is no such moment. -/
  isWrong : Bool := false
  /-- Whether parts of seconds are shown. -/
  isFine : Bool := false
  /-- How many days a date lies behind the end of its month. -/
  surplus : Int := 0
  /-- Whether the time is known to be that of the first meridian. -/
  isUniversal : Bool := false
  /-- Whether the time is known to be that of a clock on the wall. -/
  isLocal : Bool := false
  deriving Inhabited

namespace Moment

/-- Milliseconds of a day. -/
def day : Int := 86400000

/-- The moment from which others count seconds. -/
def epoch : Int := 210866760000000

/-- The last moment. -/
def last : Int := 464269060799999

/-- Whether a time lies within the calendar. -/
def isTime (t : Int) : Bool := 0 ≤ t && t ≤ last

/-- No moment at all. -/
def wrong : Moment := { isWrong := true }

/-- The time when a date begins. -/
def dayStart (d : Date) : Int := d.days * day + epoch

/-- A moment with its time known. -/
def timed (m : Moment) : Moment :=
  if m.time.isSome then m
  else
    let d := m.date.getD .usual
    if d.year < -4713 || 9999 < d.year || m.raw.isSome then wrong
    else
      let begin := dayStart d
      match m.clock with
      | none => { m with time := some begin }
      | some c =>
        let t := begin + c.milliseconds
        if m.zone = 0 then { m with time := some t }
        else
          { m with time := some (t - m.zone * 60000), date := none, clock :=
                     none, zone := 0, isUniversal := true, isLocal := false }

/-- A moment with its date known. -/
def dated (m : Moment) : Moment :=
  if m.date.isSome then m
  else match m.time with
    | none => { m with date := some .usual }
    | some t => if isTime t then { m with
        date := some (.ofDays ((t - epoch).fdiv day)) } else wrong

/-- A moment with its time of the day known. -/
def clocked (m : Moment) : Moment :=
  if m.clock.isSome then m
  else
    let m := m.timed
    { m with clock := some (.ofMilliseconds ((m.time.getD 0 - epoch).fmod day)),
             raw := none }

/-- A moment of which only the time counts. -/
def bare (m : Moment) : Moment :=
  { m with date := none, clock := none, zone := 0 }

/-- A moment whose time is known, so many milliseconds later. -/
def shifted (m : Moment) (ms : Int) : Moment :=
  { m.bare with time := m.time.map (· + ms) }

/-- A moment so many milliseconds later, of which only the time is known. -/
def later (m : Moment) (ms : Int) : Moment := m.timed.shifted ms

/-- The moment that a number is: days, unless something says what it counts. -/
def ofNumber (x : Float) : Moment :=
  { raw := some x, time := if 0 ≤ x && x <
          5373484.5 then some (Clock.floor (x * 86400000.0 + 0.5)) else none }

/-- The date of a moment. -/
def dateOf (m : Moment) : Date := m.dated.date.getD .usual

/-- The time of the day of a moment. -/
def clockOf (m : Moment) : Clock := m.clocked.clock.getD {}

/-- The milliseconds since the beginning. -/
def timeOf (m : Moment) : Int := m.timed.time.getD 0

/-- The same moment, as a clock on the wall shows it; clocks show universal
time. -/
def onWall (m : Moment) : Moment :=
  if m.isLocal then { m with isUniversal := false }
  else
    let m := m.timed
    let x := (if m.time.any isTime then m.bare else m).dated.clocked
    { m with date := some (x.date.getD ⟨0, 1, 1⟩), clock := x.clock,
             time := none, raw := none, zone := 0,
             isWrong := false, isUniversal := false, isLocal := true }

/-- The moment when a clock on the wall shows this one. -/
def offWall (m : Moment) : Moment :=
  if m.isUniversal then m else { time := some m.timeOf, isUniversal := true }

end Moment

/-! ### Moments as texts -/

namespace Moment

/-- A number with so many places, one of which a sign takes. -/
def padded (width : Nat) (n : Int) :
    String := ({ hasZeros := true, width } : Place).whole
  (if n < 0 then "-" else "") n.natAbs {}

/-- The date of a moment as text. -/
def dateText (m : Moment) : String :=
  let d := m.dateOf
  (if d.year < 0 then "-" else "") ++ Text.decimal 4 d.year.natAbs ++ "-" ++
    padded 2 d.month ++ "-" ++ padded 2 d.dayOfMonth

/-- The whole seconds of the minute. -/
def wholeSecond (c : Clock) : Int := Clock.floor c.second

/-- The seconds of the minute with three places behind the point. -/
def secondText (c : Clock) : String :=
  ({ hasZeros := true, width := 6, precision := some 3 } :
    Place).double 'f' c.second.toBits

/-- The time of the day as text. -/
def timeText (m : Moment) : String :=
  let c := m.clockOf
  let ms := Clock.floor (1000.0 * c.second + 0.5)
  padded 2 c.hour ++ ":" ++ padded 2 c.minute ++ ":" ++
    if m.isFine then padded 2 (ms / 1000) ++ "." ++ padded 3 (ms % 1000)
    else padded 2 (wholeSecond c)

/-- The days since the beginning. -/
def julianDay (m : Moment) : Float := Float.ofInt m.timeOf / 86400000.0

/-- The seconds since the epoch. -/
def seconds (m : Moment) : Int := m.timeOf.tdiv 1000 - epoch / 1000

/-- The seconds since the epoch, with parts of them. -/
def fineSeconds (m : Moment) : Float := Float.ofInt (m.timeOf - epoch) / 1000.0

/-- A moment with another date at the same time of the day. -/
def withDate (m : Moment) (d : Date) : Moment :=
  { m.clocked with date := some d, time := none }

/-- The days since the year began. -/
def dayOfYear (m : Moment) : Int :=
  (m.timeOf - (m.withDate ⟨m.dateOf.year, 1, 1⟩).timeOf + 43200000).tdiv day

/-- The days since Monday. -/
def sinceMonday (m : Moment) : Int := ((m.timeOf + 43200000).tdiv day).tmod 7

/-- The days since Sunday. -/
def sinceSunday (m : Moment) : Int := ((m.timeOf + 129600000).tdiv day).tmod 7

/-- The Thursday of the same week, whose year the week belongs to. -/
def thursday (m : Moment) : Moment :=
  { m.clocked with
    time := some (m.timeOf + (3 - m.sinceMonday) * day), date := none }

/-- What a letter of a format stands for. -/
def field? (m : Moment) (letter : Char) : Option String :=
  let d := m.dateOf
  let c := m.clockOf
  let half :=
    if 12 < c.hour then c.hour - 12 else if c.hour = 0 then 12 else c.hour
  let blank (n : Int) : String := Text.padLeft 2 ' ' (Text.integer n)
  match letter with
  | 'd' => padded 2 d.dayOfMonth
  | 'e' => blank d.dayOfMonth
  | 'f' => secondText c
  | 'F' =>
      padded 4 d.year ++ "-" ++ padded 2 d.month ++ "-" ++ padded 2 d.dayOfMonth
  | 'g' => padded 2 (m.thursday.dateOf.year.tmod 100)
  | 'G' => padded 4 m.thursday.dateOf.year
  | 'H' => padded 2 c.hour
  | 'I' => padded 2 half
  | 'j' => padded 3 (m.dayOfYear + 1)
  | 'J' => ({ precision := some 16 } : Place).double 'g' m.julianDay.toBits
  | 'k' => blank c.hour
  | 'l' => blank half
  | 'm' => padded 2 d.month
  | 'M' => padded 2 c.minute
  | 'p' => if c.hour < 12 then "AM" else "PM"
  | 'P' => if c.hour < 12 then "am" else "pm"
  | 'R' => padded 2 c.hour ++ ":" ++ padded 2 c.minute
  | 's' =>
    if m.isFine then
      ({ precision := some 3 } : Place).double 'f' m.fineSeconds.toBits
    else Text.integer m.seconds
  | 'S' => padded 2 (wholeSecond c)
  | 'T' => padded 2 c.hour ++ ":" ++ padded 2 c.minute ++ ":" ++
             padded 2 (wholeSecond c)
  | 'u' => Text.integer (if m.sinceSunday = 0 then 7 else m.sinceSunday)
  | 'U' => padded 2 ((m.dayOfYear - m.sinceSunday + 7) / 7)
  | 'V' => padded 2 (m.thursday.dayOfYear / 7 + 1)
  | 'w' => Text.integer m.sinceSunday
  | 'W' => padded 2 ((m.dayOfYear - m.sinceMonday + 7) / 7)
  | 'Y' => padded 4 d.year
  | '%' => "%"
  | _ => none

/-- A moment in a format; there is none if a letter is not known. -/
def format? (m : Moment) : List Char → Option String
  | [] => some ""
  | ['%'] => none
  | '%' :: c :: rest => do return (← m.field? c) ++ (← m.format? rest)
  | c :: rest => do return String.ofList [c] ++ (← m.format? rest)

/-- Takes months off a number of years and months until a moment no longer lies
beyond a bound; each month taken off moves the moment by one, and no more than
so many are. -/
def settle (isBeyond : Moment → Bool) (step : Int) :
    Nat → Moment → Int → Moment × Int
  | 0, m, months => (m, months)
  | fuel + 1, m, months =>
    if isBeyond m then
      settle isBeyond step fuel (m.withDate (m.dateOf.addMonths 0 step))
        (months - 1)
    else (m, months)

/-- The time between two moments as text. -/
def difference (a b : Moment) : String :=
  let isAfter : Bool := b.timeOf ≤ a.timeOf
  let from' := a.dateOf
  let to' := b.dateOf
  let sign : Int := if isAfter then 1 else -1
  let months :=
    sign * (12 * (from'.year - to'.year) + (from'.month - to'.month))
  let moved := if months = 0 then b else
      b.withDate { to' with year := from'.year, month := from'.month }
  let isBeyond (m : Moment) : Bool :=
    if isAfter then a.timeOf < m.timeOf else m.timeOf < a.timeOf
  let (moved, months) := settle isBeyond (-sign) 12 moved months
  let rest : Moment :=
    { time := some (sign * (a.timeOf - moved.timeOf) + 148699540800000) }
  let c := rest.clockOf
  (if isAfter then "+" else "-") ++ padded 4 (months.fdiv 12) ++ "-" ++
    padded 2 (months.fmod 12) ++ "-" ++ padded 2 (rest.dateOf.dayOfMonth - 1) ++
    " " ++ padded 2 c.hour ++ ":" ++ padded 2 c.minute ++ ":" ++ secondText c

end Moment

end Bytecode.Database
