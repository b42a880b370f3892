import Bytecode.Database.Conversion
import Bytecode.Fault
import Bytecode.Text.Digits
import Bytecode.Text.Lower
import Bytecode.Text.Quoted

/-!
# Fields

A field of a row as text or as a whole number.  Numbers are texts as well, and a
text that spells a whole number is one; anything else is a defect of the field,
which is told with the place of the field.  What a column is said to hold makes
times of texts.
-/

namespace Bytecode.Journal

/-! ### Times in fields

A column of dates holds texts, and a text that spells a time is a time.  The
forms are a date alone, or a date and a time of day with a blank or a `T`
between them, to the minute or to a fraction of a second; behind that may stand
a distance from universal time, and the name of a zone.
-/

/-- A time as it is shown: date and time of day in a zone. -/
structure Moment where
  year : Nat
  month : Nat
  day : Nat
  hour : Nat := 0
  minute : Nat := 0
  second : Nat := 0
  nanosecond : Nat := 0
  /-- Minutes before universal time. -/
  offset : Int := 0
  /-- The name of the zone, if it has one. -/
  zone : String := "UTC"
  deriving DecidableEq, Repr

namespace Moment

/-- Takes something from the front of a text. -/
abbrev Reader := StateT (List Char) Option

namespace Reader

/-- Takes a character. -/
def char (c : Char) : Reader Unit := do
  match ← get with
  | d :: rest =>
    guard (c = d)
    set rest
  | [] => failure

/-- Takes blanks; there must be one unless nothing is left. -/
def blanks : Reader Unit := do
  let cs ← get
  guard (cs.isEmpty || cs.head? = some ' ')
  set (cs.dropWhile (· = ' '))

/-- The number that digits spell. -/
def ofDigits (cs : List Char) : Nat :=
  cs.foldl (fun n c => 10 * n + (c.toNat - '0'.toNat)) 0

/-- Takes a number of exactly so many digits. -/
def digits (width : Nat) : Reader Nat := do
  let cs ← get
  let front := cs.take width
  guard (front.length = width && front.all Char.isDigit)
  set (cs.drop width)
  return ofDigits front

/-- Takes a number of one or two digits. -/
def shortDigits : Reader Nat := do
  match ← get with
  | _ :: d :: _ => digits (if d.isDigit then 2 else 1)
  | _ => digits 1

/-- Takes a fraction of a second, if there is one, as nanoseconds. -/
def fraction : Reader Nat := do
  match ← get with
  | c :: d :: rest =>
    if (c = '.' || c = ',') && d.isDigit then
      let all := (d :: rest).takeWhile Char.isDigit
      set ((d :: rest).dropWhile Char.isDigit)
      let front := all.take 9
      return ofDigits front * Nat.pow 10 (9 - front.length)
    else return 0
  | _ => return 0

/-- The number of days of a month. -/
def daysIn (year month : Nat) : Nat :=
  let isLeap : Bool := year % 4 = 0 && (year % 100 ≠ 0 || year % 400 = 0)
  if month = 2 then if isLeap then 29 else 28
  else if month = 4 || month = 6 || month = 9 || month = 11 then 30
  else 31

/-- Takes a date. -/
def date : Reader Moment := do
  let year ← digits 4
  char '-'
  let month ← digits 2
  guard (1 ≤ month && month ≤ 12)
  char '-'
  let day ← digits 2
  guard (1 ≤ day && day ≤ daysIn year month)
  return { year, month, day }

/-- Takes what stands between a date and a time of day. -/
def between (isMarked : Bool) : Reader Unit :=
  if isMarked then char 'T' else blanks

/-- Takes a time of day to the minute. -/
def minutes (m : Moment) : Reader Moment := do
  let hour ← shortDigits
  guard (hour < 24)
  char ':'
  let minute ← digits 2
  guard (minute < 60)
  return { m with hour, minute }

/-- Takes a time of day to a fraction of a second. -/
def seconds (m : Moment) : Reader Moment := do
  let m ← minutes m
  char ':'
  let second ← digits 2
  guard (second < 60)
  return { m with second, nanosecond := ← fraction }

/-- Takes a distance from universal time, in minutes. -/
def distance (hasColon : Bool) : Reader Int := do
  let cs ← get
  let sign ← cs.head?
  guard (sign = '+' || sign = '-')
  set cs.tail
  let hours ← digits 2
  if hasColon then char ':'
  let minutes ← digits 2
  guard (hours ≤ 24 && minutes ≤ 60)
  let n : Int := hours * 60 + minutes
  return if sign = '-' then -n else n

/-- How many characters a signed number of hours has, if there is one. -/
def signedLength (cs : List Char) : Nat :=
  match cs with
  | c :: rest =>
    let found := rest.takeWhile Char.isDigit
    if (c = '+' || c = '-') && !found.isEmpty &&
        ofDigits found ≤ 23 then found.length + 1 else 0
  | [] => 0

/-- How many characters the name of a zone has, if there is one. -/
def zoneLength? (cs : List Char) : Option Nat :=
  let front := String.ofList (cs.take 4)
  let upper := ((cs.take 6).takeWhile Char.isUpper).length
  if cs.length < 3 then none
  else if front = "ChST" || front = "MeST" then some 4
  else if "GMT".toList.isPrefixOf cs then some (3 + signedLength (cs.drop 3))
  else if cs.head? = some '+' || cs.head? = some '-' then
    if signedLength cs = 0 then none else some (signedLength cs)
  else if upper = 5 then if cs[4]? = some 'T' then some 5 else none
  else if upper = 4 then
    if cs[3]? = some 'T' || front = "WITA" then some 4 else none
  else if upper = 3 then some 3
  else none

/-- Takes the name of a zone. -/
def zone : Reader String := do
  let cs ← get
  let n ← if "UTC".toList.isPrefixOf cs then pure 3 else zoneLength? cs
  set (cs.drop n)
  return String.ofList (cs.take n)

/-- Takes a distance from universal time and the name of the zone.  The distance
does not count in universal time itself. -/
def namedZone (m : Moment) : Reader Moment := do
  blanks
  let offset ← distance false
  blanks
  let zone ← zone
  return if zone = "UTC" then m else { m with offset, zone }

/-- Takes a distance from universal time. -/
def plainZone (m : Moment) : Reader Moment := do
  let offset ← distance true
  return if offset = 0 then m else { m with offset, zone := "" }

/-- The forms of times that are tried one after the other. -/
def forms : List (Reader Moment) :=
  let on (isMarked : Bool) (time : Moment → Reader Moment) : Reader Moment := do
    let m ← date
    between isMarked
    time m
  [on false seconds >>= plainZone, on true seconds >>= plainZone,
    on false seconds, on true seconds, on false minutes, on true minutes, date]

/-- What a form makes of a whole text. -/
def whole (r : Reader Moment) (text : List Char) : Option Moment := do
  let (m, rest) ← r.run text
  guard rest.isEmpty
  return m

/-- A text up to the first place where two characters follow each other, unless
that is its beginning. -/
def upTo (a b : Char) (cs : List Char) : List Char :=
  let rec go : List Char → List Char
    | x :: y :: rest => if x = a && y = b then [] else x :: go (y :: rest)
    | rest => rest
  let front := go cs
  if front.isEmpty then cs else front

/-- A text without a letter at its end. -/
def without (c : Char) (cs : List Char) : List Char :=
  if cs.getLast? = some c then cs.dropLast else cs

end Reader

/-- The time that a text spells.  A text may end as a clock writes it, with a
part that begins with `m=`, or with a `Z`. -/
def ofText? (s : String) : Option Moment :=
  let full : Reader Moment := do
    let m ← Reader.date
    Reader.blanks
    Reader.namedZone (← Reader.seconds m)
  let clock :=
    (Text.trimmed (String.ofList (Reader.upTo 'm' '=' s.toList))).toList
  (Reader.whole full clock).or (Reader.forms.findSome?
    fun r => Reader.whole r (Reader.without 'Z' s.toList))

/-- The fraction of a second, if it is not zero. -/
def fractionText (m : Moment) : String :=
  if m.nanosecond = 0 then ""
  else
    "." ++ String.ofList ((Text.decimal 9 m.nanosecond).toList.reverse.dropWhile
      (· = '0')).reverse

/-- The distance from universal time, with something between hours and
minutes. -/
def offsetText (m : Moment) (between : String) : String :=
  let n := m.offset.natAbs
  (if m.offset < 0 then "-" else "+") ++ Text.decimal 2 (n / 60) ++ between ++
    Text.decimal 2 (n % 60)

/-- Date and time of day, with something between them. -/
def clockText (m : Moment) (between : String) : String :=
  Text.decimal 4 m.year ++ "-" ++ Text.decimal 2 m.month ++ "-" ++
    Text.decimal 2 m.day ++ between ++ Text.decimal 2 m.hour ++ ":" ++
    Text.decimal 2 m.minute ++ ":" ++ Text.decimal 2 m.second ++ m.fractionText

/-- A time as one word. -/
def word (m : Moment) : String :=
  m.clockText "T" ++ if m.offset = 0 then "Z" else m.offsetText ":"

/-- A time in full. -/
def full (m : Moment) : String :=
  m.clockText " " ++ " " ++ m.offsetText "" ++ " " ++
    if m.zone = "" then m.offsetText "" else m.zone

end Moment

/-! ### Contents of fields -/

open Database (Value)

/-- A column of rows that have been asked for. -/
structure Column where
  name : String
  /-- What the column is said to hold. -/
  type : String := ""
  deriving DecidableEq, Repr

/-- A field of a row that has been asked for. -/
structure Field where
  /-- The place of the field among those that were asked for. -/
  index : Nat
  column : Column
  value : Value

namespace Field

/-- Why a field is not what was asked for. -/
structure Defect where
  index : Nat
  name : String
  reason : String
  deriving DecidableEq, Repr

/-- The fault of a task that meets a defect. -/
def Defect.during (d : Defect) (task : String) : Fault :=
  .failed [task, "sql",
    "Scan error on column index " ++ Text.decimal 1 d.index ++ ", name " ++
    Text.quotedBytes (Text.encode d.name)] (.other d.reason)

/-- A defect of a field. -/
def defect {α : Type} (f : Field) (reason : String) : Except Defect α :=
  .error { index := f.index, name := f.column.name, reason }

/-- What a field holds, by what its column is said to hold. -/
inductive Content where
  | nothing
  | whole (n : Int)
  | double (bits : UInt64)
  | text (s : String)
  | moment (m : Moment)
  | bytes (b : List UInt8)

namespace Content

/-- What a text is in a column of times. -/
def ofTimeText (s : String) : Content :=
  ((Moment.ofText? s).map Content.moment).getD (.text s)

/-- The types of columns of times. -/
def timeTypes : List String := ["date", "datetime", "timestamp"]

/-- What a value is in a column. -/
def ofValue (c : Column) (v : Value) : Content :=
  let type := Database.Token.lowered c.type
  match v with
  | .null => .nothing
  | .integer n => .whole n
  | .real bits => .double bits
  | .text s => if timeTypes.contains type then ofTimeText s else .text s
  | .blob b => .bytes b

/-- The name of what it is. -/
def kind : Content → String
  | .nothing => ""
  | .whole _ => "int64"
  | .double _ => "float64"
  | .text _ => "string"
  | .moment _ => "time.Time"
  | .bytes _ => "[]uint8"

/-- The text that it is, unless it is nothing. -/
def text? : Content → Option String
  | .nothing => none
  | .whole n => some (Text.integer n)
  | .double bits => some (Text.double bits)
  | .text s => some s
  | .moment m => some m.word
  | .bytes b => some (Text.decode b)

/-- The text that a whole number is looked for in. -/
def digits? : Content → Option String
  | .moment m => some m.full
  | c => c.text?

end Content

/-- What a field holds. -/
def content (f : Field) : Content := .ofValue f.column f.value

/-- The text in a field. -/
def text (f : Field) : Except Defect String :=
  match f.content.text? with
  | some s => .ok s
  | none => f.defect "converting NULL to string is unsupported"

/-- The whole number that a text spells, or what is wrong with it. -/
def whole? (s : String) : Except String Int :=
  let (negative, digits) := match s.toList with
    | '-' :: rest => (true, rest)
    | '+' :: rest => (false, rest)
    | cs => (false, cs)
  if digits.isEmpty || !digits.all Database.Token.isDigit then
    .error "invalid syntax"
  else
    let n : Int := digits.foldl (fun n c => 10 * n + (c.toNat - '0'.toNat)) 0
    let n := if negative then -n else n
    if Word.fitsSigned64 n then .ok n else .error "value out of range"

/-- The whole number in a field, for something of a given kind. -/
def whole (f : Field) (kind : String) : Except Defect Int :=
  match f.content with
  | .whole n => .ok n
  | c =>
    match c.digits? with
    | none => f.defect ("converting NULL to " ++ kind ++ " is unsupported")
    | some s =>
      match whole? s with
      | .ok n => .ok n
      | .error reason =>
        f.defect ("converting driver.Value type " ++
          c.kind ++ " (" ++ Text.quotedBytes (Text.encode s) ++ ") to a " ++
          kind ++ ": " ++ reason)

end Field

end Bytecode.Journal
