import Bytecode.Database.Function.Moment

/-!
# Moments in words

Texts and numbers stand for moments, and words about them move them.
-/

namespace Bytecode.Database

namespace Moment

/-- The number of digits at the head, which there must be just so many of,
within bounds. -/
def digits? (count : Nat) (least most : Int) (s : List Char) :
    Option (Int × List Char) :=
  let front := s.take count
  let n : Int :=
    (front.foldl (fun n c => 10 * n + (c.toNat - '0'.toNat)) 0 : Nat)
  if front.length = count && front.all Token.isDigit && least ≤ n &&
      n ≤ most then some (n, s.drop count)
  else none

/-- The rest behind a character. -/
def behind? (c : Char) : List Char → Option (List Char)
  | d :: rest => if d = c then some rest else none
  | [] => none

/-- Drops blanks. -/
def skip (s : List Char) : List Char := s.dropWhile Value.isSpace

/-- The year, the month and the day at the head of a text, with what follows. -/
def date? (digits : Nat) (least : Int) (s : List Char) :
    Option (Date × List Char) := do
  let (year, rest) ← digits? digits 0 14712 s
  let (month, rest) ← digits? 2 least 12 (← behind? '-' rest)
  let (dayOfMonth, rest) ← digits? 2 least 31 (← behind? '-' rest)
  return (⟨year, month, dayOfMonth⟩, rest)

/-- The part of a second that digits behind a point are, which never rounds up
to a whole one. -/
def fraction (digits : List Char) : Float :=
  let (n, scale) := digits.foldl (fun (n, scale) c =>
    (n * 10.0 + Float.ofNat c.toNat - 48.0, scale * 10.0)) ((0.0 : Float),
      (1.0 : Float))
  if 0.999 < n / scale then 0.999 else n / scale

/-- A moment with the zone at the end of a text. -/
def zoned? (m : Moment) (s : List Char) : Option Moment :=
  match skip s with
  | [] => some m
  | c :: rest =>
    if c = 'Z' || c = 'z' then
      if (skip rest).isEmpty then
        some { m with isUniversal := true, isLocal := false }
      else none
    else if c = '+' || c = '-' then do
      let (hour, rest) ← digits? 2 0 14 rest
      let (minute, rest) ← digits? 2 0 59 (← behind? ':' rest)
      if (skip rest).isEmpty then
        return { m with
          zone := (if c = '-' then -1 else 1) * (60 * hour + minute) }
      else none
    else none

/-- The time of a day that a text is. -/
def time? (s : List Char) : Option Moment := do
  let (hour, rest) ← digits? 2 0 24 s
  let (minute, rest) ← digits? 2 0 59 (← behind? ':' rest)
  match rest with
  | ':' :: rest =>
    let (second, rest) ← digits? 2 0 59 rest
    let (part, rest) := match rest with
      | '.' :: c :: more =>
        if Token.isDigit c then
          let (digits, rest) := (c :: more).span Token.isDigit
          (fraction digits, rest)
        else (0.0, rest)
      | rest => (0.0, rest)
    zoned? { clock :=
               some { hour, minute, second := Float.ofInt second + part } } rest
  | rest => zoned? { clock := some { hour, minute } } rest

/-- The moment that a date and a time of the day are. -/
def calendar? (s : List Char) : Option Moment := do
  let (isBefore, s) := match s with
    | '-' :: rest => (true, rest)
    | s => (false, s)
  let (d, rest) ← date? 4 1 s
  let d := if isBefore then { d with year := -d.year } else d
  let rest := rest.dropWhile fun c => Value.isSpace c || c = 'T'
  let m ← if rest.isEmpty then some ({} : Moment) else time? rest
  let m := { m with date := some d, surplus := d.surplus }
  return if m.zone = 0 then m else m.timed

/-- Why values stand for no moment. -/
inductive Lack where
  /-- Nobody knows what they mean. -/
  | unknown
  /-- They speak of the present where nothing may change. -/
  | changing

/-- The present, if it may be spoken of. -/
def present (now : Option Int) : Except Lack Moment :=
  match now with
  | some t => .ok { time := some t, isUniversal := true }
  | none => .error .changing

/-- A moment, unless there is none. -/
def known (m : Option Moment) : Except Lack Moment :=
  (m.map .ok).getD (.error .unknown)

/-- The moment that a text stands for. -/
def ofText (now : Option Int) (s : String) : Except Lack Moment :=
  let cs := s.toList
  match (calendar? cs).or (time? cs) with
  | some m => .ok m
  | none =>
    let word := Token.lowered s
    if word = "now" then present now
    else if word = "subsec" || word = "subsecond" then
      (present now).map fun m => { m with isFine := true }
    else known ((Value.ofText? s).map fun v => ofNumber v.toFloat)

/-- A number of seconds since the epoch as a time. -/
def ofSeconds (x : Float) : Float := x * 1000.0 + 210866760000000.0

/-- A moment whose number counts seconds. -/
def counting (m : Moment) (time : Float) : Moment :=
  { m.bare with time := some (Clock.floor (time + 0.5)), raw := none }

/-- A moment with its date changed; one that has turned out to be wrong has
none. -/
def onDate (m : Moment) (change : Date → Date) : Moment :=
  let m := m.dated.clocked
  let date := m.date.map change
  { m with date, surplus := (date.map Date.surplus).getD 0, time := none }.timed

/-- The units by which moments move, with the greatest amount of each and its
seconds. -/
def units : List (String × Float × Float) :=
  [("second", 464269992787968.0, 1.0), ("minute", 7737900007424.0, 60.0),
    ("hour", 128969998336.0, 3600.0), ("day", 5373485.0, 86400.0),
    ("month", 176546.0, 2592000.0), ("year", 14713.0, 31536000.0)]

/-- A moment moved by a number of units. -/
def move? (m : Moment) (amount : Float) (unit : String) : Option Moment := do
  let (_, bound, seconds) ← units.find? fun (name, _, _) => name = unit
  if -bound < amount && amount < bound then
    let m := { m.timed with surplus := 0 }
    let whole := amount.toInt64.toInt
    let rounder := if amount < 0 then -0.5 else 0.5
    let rest := amount - Float.ofInt whole
    let (m, rest) :=
      if unit = "month" then (m.onDate (·.addMonths 0 whole), rest)
      else if unit = "year" then (m.onDate (·.addMonths whole 0), rest)
      else (m.timed, amount)
    return m.shifted (rest * 1000.0 * seconds + rounder).toInt64.toInt
  else none

/-- A moment moved by a time of the day. -/
def moveByTime? (m : Moment) (isBack : Bool) (s : List Char) :
    Option Moment := do
  let t := ((← time? s).timeOf - epoch).fmod day
  return m.later (if isBack then -t else t)

/-- A moment moved by a period that is written like a date, and perhaps a time
of the day. -/
def moveByDate? (m : Moment) (isBack : Bool) (digits : Nat) (s : List Char) :
    Option Moment := do
  let (d, rest) ← date? digits 0 s
  if 12 ≤ d.month || 31 ≤ d.dayOfMonth then none
  else
    let sign : Int := if isBack then -1 else 1
    let moved := (m.onDate (·.addMonths (sign * d.year)
      (sign * d.month))).shifted (sign * d.dayOfMonth * day)
    match rest with
    | [] => return moved
    | c :: rest =>
        if Value.isSpace c then moved.moveByTime? isBack rest else none

/-- A moment moved by a period: a time of the day, something like a date, or a
number of units. -/
def moved? (m : Moment) (s : List Char) : Option Moment := do
  let first ← s.head?
  let isBack : Bool := first = '-'
  let isSigned := isBack || first = '+'
  let body := s.drop 1
  let year (count : Nat) : Bool :=
    ((digits? count 0 14712 body).bind fun (_, rest) => behind? '-' rest).isSome
  let years? : Option Nat :=
    if year 4 then some 4 else if year 5 then some 5 else none
  let front := first :: body.takeWhile fun c => c ≠ ':' && !Value.isSpace c
  match years? with
  | some n => if isSigned then m.moveByDate? isBack n body else none
  | none =>
    let amount ← Value.ofText? (String.ofList front)
    let rest := s.drop front.length
    if rest.head? = some ':' then
      m.moveByTime? isBack (if isSigned then body else s)
    else
      let unit := skip rest
      if unit.length < 3 || 10 < unit.length then none
      else
        let unit := if unit.getLast? = some 's' then unit.dropLast else unit
        m.move? amount.toFloat (String.ofList unit)

/-- A moment on the next day of the week that has a number, if it is not one
already. -/
def onWeekday? (m : Moment) (s : String) : Option Moment := do
  let v ← Value.ofText? s
  let n := v.toWhole .utf8
  if v.toFloat != Float.ofInt n || n < 0 || 7 ≤ n then none
  else
    let m := { m.dated.clocked with zone := 0, time := none }
    let z := ((m.timeOf + 129600000).tdiv day).tmod 7
    return m.later ((n - if n < z then z - 7 else z) * day)

/-- A moment at the beginning of a period. -/
def atStart? (m : Moment) (period : String) : Option Moment :=
  if m.time.isNone && m.date.isNone && m.clock.isNone then none
  else
    let m := m.dated
    let start (d : Date) : Moment :=
      { m with
        date := some d, clock := some {}, raw := none, zone := 0, time := none }
    let d := m.dateOf
    if period = "month" then some (start { d with dayOfMonth := 1 })
    else if period = "year" then some (start ⟨d.year, 1, 1⟩)
    else if period = "day" then some (start d)
    else none

/-- What follows a beginning. -/
def after? (start s : String) : Option String :=
  if s.startsWith start then some (String.ofList (s.toList.drop start.length))
  else none

/-- A moment with a modifier applied. -/
def modified (now : Option Int) (m : Moment) (isFirst : Bool)
    (modifier : String) : Except Lack Moment :=
  let word := Token.lowered modifier
  let here (m : Moment) : Except Lack Moment :=
    if now.isNone then .error .changing else .ok m
  if word = "auto" then
    if !isFirst then .error .unknown
    else match m.raw with
      | some x =>
        if m.time.isSome then .ok { m with raw := none }
        else if -210866760000.0 ≤ x && x ≤ 253402300799.0 then
          .ok (m.counting (ofSeconds x))
        else .ok m
      | none => .ok m
  else if word = "unixepoch" then
    match m.raw with
    | some x =>
      let t := ofSeconds x
      if isFirst && 0 ≤ t && t < 464269060800000.0 then .ok (m.counting t)
      else .error .unknown
    | none => .error .unknown
  else if word = "julianday" then
    if isFirst && m.raw.isSome && m.time.isSome then .ok { m with raw := none }
    else .error .unknown
  else if word = "localtime" then here m.onWall
  else if word = "utc" then here m.offWall
  else if word = "subsec" || word = "subsecond" then
    .ok { m with isFine := true }
  else if word = "ceiling" then .ok { m.timed.bare with surplus := 0 }
  else if word = "floor" then .ok (m.later (-m.timed.surplus * day))
  else match after? "start of " word, after? "weekday " word with
    | some period, _ => known (m.atStart? period)
    | none, some number => known (m.onWeekday? number)
    | none, none =>
      if word.toList.head?.any fun c => c = '+' || c = '-' ||
          Token.isDigit c then known (m.moved? word.toList)
      else .error .unknown

/-- The moment that values stand for: the first one is a moment, the others
modify it. -/
def ofValues (e : Encoding) (now : Option Int) : List Value → Except Lack Moment
  | [] => present now
  | v :: modifiers => do
    let start ← match v with
      | .null => .error .unknown
      | .integer n => .ok (ofNumber (Float.ofInt n))
      | .real bits => .ok (ofNumber (Float.ofBits bits))
      | v => ofText now (v.seen e)
    let (m, _) ← modifiers.foldlM (fun (m, isFirst) modifier => do
      if modifier = .null then throw .unknown
      else return (← modified now m isFirst (modifier.seen e), false))
        (start, true)
    let m := m.timed
    if m.isWrong || !isTime (m.time.getD 0) then throw .unknown
    return if modifiers.isEmpty &&
          m.date.any (28 < ·.dayOfMonth) then { m with date := none } else m

end Moment

end Bytecode.Database
