import Bytecode.Bytes
import Bytecode.Text.Digits
import Bytecode.Text.Utf8

/-!
# Reading values

How numbers, dates and times, and text are written in a document.
-/

namespace Bytecode.Toml

/-! ### Reading

Readers take something from the head of a text and leave the rest, or fail:
single characters, blanks, comments and line ends.
-/

/-- Takes something from the head of a text. -/
abbrev Reader := StateT (List Char) Option

/-- Blanks separate the parts of a line. -/
def isBlank (c : Char) : Bool := c = ' ' || c = '\t'

/-- Characters that end a line. -/
def isNewline (c : Char) : Bool := c = '\n' || c = '\r'

/-- Decimal digits. -/
def isDigit (c : Char) : Bool := '0' ≤ c && c ≤ '9'

/-- Hexadecimal digits of either case. -/
def isHexDigit (c : Char) : Bool := (Text.hexDigit? c).isSome

/-- The number that digits spell in a base, if all of them are digits of it. -/
def ofDigits? (base : Nat) (digits : List Char) : Option Nat :=
  digits.foldlM (fun n c => do
    let d ← Text.hexDigit? c
    guard (d < base)
    return n * base + d) 0

namespace Reader

/-- The next character. -/
def next : Reader Char
  | [] => none
  | c :: rest => some (c, rest)

/-- What the next character is, without taking it. -/
def peek : Reader (Option Char) := fun s => some (s.head?, s)

/-- Takes `c`, or fails. -/
def expect (c : Char) : Reader Unit := do
  guard ((← next) = c)

/-- Takes `c` if it is next, and tells whether it was. -/
def accept (c : Char) : Reader Bool := fun s =>
  if s.head? = some c then some (true, s.tail) else some (false, s)

/-- Takes the characters of `word`, or fails. -/
def word (w : String) : Reader Unit := w.toList.forM expect

/-- The longest run of characters of a class. -/
def run (p : Char → Bool) : Reader (List Char) := fun s => some (s.span p)

/-- Skips blanks. -/
def blanks : Reader Unit := do
  let _ ← run isBlank

end Reader

/-- What is left of a text after blanks, line ends and comments. -/
def afterGap (inComment : Bool) : List Char → List Char
  | [] => []
  | c :: rest =>
    if inComment then afterGap (!isNewline c) rest
    else if isBlank c || isNewline c then afterGap false rest
    else if c = '#' then afterGap true rest
    else c :: rest

namespace Reader

/-- Skips blanks, line ends and comments. -/
def gap : Reader Unit := modify (afterGap false)

/-- Checks that nothing but a comment follows on the line. -/
def lineEnd : Reader Unit := do
  blanks
  match ← peek with
  | none => return
  | some c => guard (isNewline c || c = '#')

end Reader

/-! ### Numbers

Underscores may stand between digits.  Decimal numbers have no superfluous zero
in front; hexadecimal, octal and binary ones have no sign.  Whole numbers fill
64 bits, and a number with a fraction or an exponent must not be too large for a
double.
-/

/-- The last character is a digit, and a digit stands in front of each
underscore. -/
def underscoresSeparate (s : List Char) : Bool :=
  go false s
where
  /-- The same for what follows a digit or something else. -/
  go (afterDigit : Bool) : List Char → Bool
    | [] => afterDigit
    | c :: rest => (c ≠ '_' || afterDigit) && go (isHexDigit c) rest

/-- A text without its sign, and whether that was a minus. -/
def splitSign : List Char → Bool × List Char
  | '-' :: rest => (true, rest)
  | '+' :: rest => (false, rest)
  | s => (false, s)

/-- Whether a zero stands in front of other digits. -/
def hasLeadingZero (s : List Char) : Bool :=
  match (splitSign s).2 with
  | '0' :: _ :: _ => true
  | _ => false

/-- A text without underscores. -/
def withoutUnderscores (s : List Char) : List Char := s.filter (· ≠ '_')

/-- The whole number that a decimal literal stands for. -/
def decimal? (s : List Char) : Option Int := do
  guard (underscoresSeparate s && !hasLeadingZero s)
  let (negative, digits) := splitSign (withoutUnderscores s)
  let n ← ofDigits? 10 digits
  let i : Int := if negative then -n else n
  guard (Word.fitsSigned64 i)
  return i

/-- The whole number that a literal in another base stands for, from behind the
letter of the base. -/
def based? (base : Nat) (s : List Char) : Option Int := do
  guard (underscoresSeparate s)
  let n ← ofDigits? base (withoutUnderscores s)
  guard (Word.fitsSigned64 n)
  return n

/-- The parts of a literal between points and exponent marks. -/
def floatParts (s : List Char) : List (List Char) :=
  s.splitBy (fun a b => !isMark a && !isMark b) |>.filter fun p => !p.any isMark
where
  /-- Points and exponent marks. -/
  isMark (c : Char) : Bool := c = '.' || c = 'e' || c = 'E'

/-- Whether a digit follows each point. -/
def digitsFollowPoints : List Char → Bool
  | [] => true
  | c :: rest => (c ≠ '.' || rest.head?.any isDigit) && digitsFollowPoints rest

/-- The exponent that digits stand for.  Digits behind a value of ten thousand
or more do not count. -/
def exponent? (digits : List Char) : Option Nat :=
  digits.foldlM (fun n c => do
    let d ← ofDigits? 10 [c]
    return if n < 10000 then 10 * n + d else n) 0

/-- The digits in front of the point, those behind it and the exponent of a
literal without sign and underscores. -/
def floatShape? (s : List Char) : Option (List Char × List Char × Int) :=
  let (whole, rest) := s.span isDigit
  let (fraction, rest) := match rest with
    | '.' :: rest => rest.span isDigit
    | rest => ([], rest)
  match rest with
  | [] => some (whole, fraction, 0)
  | c :: rest =>
    let (negative, digits) := splitSign rest
    if (c = 'e' || c = 'E') && !digits.isEmpty then
      (exponent? digits).map fun n =>
        (whole, fraction, if negative then -n else n)
    else none

/-- Whether `digits · 10 ^ exponent` rounds to a double: it does up to half a
unit above the greatest one. -/
def roundsToDouble (digits : Nat) (exponent : Int) : Bool :=
  let bound := Nat.pow 2 1024 - Nat.pow 2 970
  let length := (Nat.toDigits 10 digits).length
  if digits = 0 || length + exponent < 0 then true
  else if 400 < length + exponent then false
  else if 0 ≤ exponent then digits * Nat.pow 10 exponent.toNat < bound
  else digits < bound * Nat.pow 10 (-exponent).toNat

/-- Whether a text is the literal of a number with a fraction or an exponent. -/
def isFloat (s : List Char) : Bool :=
  let parts := floatParts s
  parts.all underscoresSeparate &&
    !(parts.head?.any hasLeadingZero) && digitsFollowPoints s &&
    match floatShape? (splitSign (withoutUnderscores s)).2 with
    | none => false
    | some (whole, fraction, exponent) =>
      match ofDigits? 10 (whole ++ fraction) with
      | none => false
      | some n => !(whole ++
          fraction).isEmpty && roundsToDouble n (exponent - fraction.length)

end Bytecode.Toml

namespace Bytecode.Toml.Moment

/-! ### Dates and times

A date, a time of day, or both with a `T` or a blank between them and perhaps a
distance from universal time behind.  Seconds may be left out, and a fraction
may follow them.
-/

/-- Takes a number of exactly `width` digits. -/
def digits (width : Nat) : Reader Nat := fun s => do
  let front := s.take width
  guard (front.length = width && front.all isDigit)
  return (← ofDigits? 10 front, s.drop width)

/-- Whether a year has 366 days. -/
def isLeap (year : Nat) : Bool :=
  year % 4 = 0 && (year % 100 ≠ 0 || year % 400 = 0)

/-- The number of days of a month. -/
def daysIn (year month : Nat) : Nat :=
  if month = 2 then if isLeap year then 29 else 28
  else if month = 4 || month = 6 || month = 9 || month = 11 then 30
  else 31

/-- Takes a date. -/
def date : Reader Unit := do
  let year ← digits 4
  Reader.expect '-'
  let month ← digits 2
  guard (1 ≤ month && month ≤ 12)
  Reader.expect '-'
  let day ← digits 2
  guard (1 ≤ day && day ≤ daysIn year month)

/-- Takes a fraction of a second. -/
def fraction : Reader Unit := do
  if ← Reader.accept '.' then
    guard (!(← Reader.run isDigit).isEmpty)

/-- Takes a time of day. -/
def time : Reader Unit := do
  guard ((← digits 2) < 24)
  Reader.expect ':'
  guard ((← digits 2) < 60)
  if ← Reader.accept ':' then
    guard ((← digits 2) < 60)
    fraction

/-- Takes a distance from universal time, if there is one. -/
def zone : Reader Unit := do
  match ← Reader.peek with
  | none => return
  | some c =>
    let _ ← Reader.next
    unless c = 'Z' do
      guard (c = '+' || c = '-')
      guard ((← digits 2) ≤ 24)
      Reader.expect ':'
      guard ((← digits 2) ≤ 60)

/-- Takes a date, perhaps with a time of day. -/
def dateTime : Reader Unit := do
  date
  if ← Reader.accept 'T' then
    time
    zone

/-- A text with its separators in their usual form. -/
def unify (c : Char) : Char :=
  if c = 'z' then 'Z' else if c = 't' || c = ' ' then 'T' else c

/-- Whether a text is a date or a time. -/
def isMoment (s : List Char) : Bool :=
  let s := (s.reverse.dropWhile (· = ' ')).reverse.map unify
  let fills (r : Reader Unit) : Bool := (r s).any fun (_, rest) => rest.isEmpty
  fills dateTime || fills time

end Bytecode.Toml.Moment

namespace Bytecode.Toml

/-! ### Quoted text

Text stands between double quotes, with escapes, or between single quotes, as it
is; three quotes on either side let it run over several lines.  A backslash at
the end of a line swallows the white space up to the next visible character.
-/

/-- What a one-letter escape stands for. -/
def simpleEscape? (c : Char) : Option Char :=
  if c = 'b' then some '\x08'
  else if c = 't' then some '\t'
  else if c = 'n' then some '\n'
  else if c = 'f' then some '\x0c'
  else if c = 'r' then some '\r'
  else if c = 'e' then some '\x1b'
  else if c = '"' || c = '\\' then some c
  else none

/-- How many digits follow the letter of a numeric escape. -/
def escapeWidth? (c : Char) : Option Nat :=
  if c = 'x' then some 2
  else if c = 'u' then some 4
  else if c = 'U' then some 8
  else none

/-- The character with the given number, written with `width` digits. -/
def numberedChar? (width : Nat) (digits : List Char) : Option Char := do
  guard (digits.length = width)
  Text.scalar? 0 (← ofDigits? 16 digits)

/-- Characters that do not show. -/
def isSpace (c : Char) : Bool := isBlank c || isNewline c

/-- The text that a text with escapes stands for.  In a text of several `lines`
a backslash also hides the line end behind it, with the white space around
that. -/
def unescape? (lines : Bool) (s : List Char) : Option (List Char) :=
  match s with
  | [] => some []
  | '\\' :: c :: rest =>
    match simpleEscape? c with
    | some d => (unescape? lines rest).map (d :: ·)
    | none =>
      match escapeWidth? c with
      | some width => do
        let d ← numberedChar? width (rest.take width)
        (unescape? lines (rest.drop width)).map (d :: ·)
      | none =>
        if lines && ((c :: rest).takeWhile isSpace).contains '\n' then
          unescape? lines (rest.dropWhile isSpace)
        else none
  | c :: rest => if c = '\\' then none else (unescape? lines rest).map (c :: ·)
termination_by s.length
decreasing_by
  · simp only [List.length_cons]
    omega
  · simp only [List.length_drop, List.length_cons]
    omega
  · have := (List.dropWhile_suffix (l := rest) isSpace).length_le
    simp only [List.length_cons]
    omega
  · simp only [List.length_cons]
    omega

/-- A text without a line end at its head. -/
def dropFirstNewline : List Char → List Char
  | '\n' :: rest => rest
  | '\r' :: '\n' :: rest => rest
  | s => s

/-- Splits a line of text at the closing quote; `taken` holds what came before,
the last character first. -/
def splitLine (quote : Char) (escapes : Bool) (taken : List Char) :
    List Char → Option (List Char × List Char)
  | [] => none
  | c :: rest =>
    if c = quote then some (taken.reverse, rest)
    else if isNewline c then none
    else if escapes && c = '\\' then
      match rest with
      | [] => none
      | d :: rest => splitLine quote escapes (d :: c :: taken) rest
    else splitLine quote escapes (c :: taken) rest

/-- Whether a run of quotes is too long to end a text: two may stand right
before the closing three. -/
def tooManyQuotes (quote : Char) (escapes : Bool) : List Char → Bool
  | a :: b :: rest =>
      a = quote && b = quote && !(escapes && rest.head? = some '\\')
  | _ => false

/-- Splits text at the three closing quotes; `taken` holds what came before, the
last character first. -/
def splitLines (quote : Char) (escapes : Bool) (taken : List Char) :
    List Char → Option (List Char × List Char)
  | [] => none
  | c :: rest =>
    if c = quote then
      if rest.take 2 = [quote, quote] then
        if rest[2]? = some quote then
          if tooManyQuotes quote escapes taken then none
          else splitLines quote escapes (c :: taken) rest
        else some (taken.reverse, rest.drop 2)
      else splitLines quote escapes (c :: taken) rest
    else if escapes && c = '\\' then
      match rest with
      | [] => none
      | d :: rest => splitLines quote escapes (d :: c :: taken) rest
    else splitLines quote escapes (c :: taken) rest

namespace Reader

/-- Takes a text that ends on the line it starts on, from behind its opening
quote. -/
def lineText (quote : Char) : Reader String := do
  let escapes := quote = '"'
  let raw ← fun s => splitLine quote escapes [] s
  let chars ← if escapes then unescape? false raw else some raw
  return String.ofList chars

/-- Takes a text of several lines, from behind its opening quotes. -/
def linesText (quote : Char) : Reader String := do
  let escapes := quote = '"'
  let raw ← fun s => splitLines quote escapes [] s
  let raw := dropFirstNewline raw
  let chars ← if escapes then unescape? true raw else some raw
  return String.ofList chars

/-- Takes a text, from behind its first quote. -/
def quotedText (quote : Char) : Reader String := do
  if (← get).take 2 = [quote, quote] then
    modify (List.drop 2)
    linesText quote
  else lineText quote

end Reader

end Bytecode.Toml
