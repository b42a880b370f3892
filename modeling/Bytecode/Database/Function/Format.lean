import Bytecode.Database.Conversion

/-!
# Formats

A format is a text with places for values.  A place begins with a percent sign;
flags, a width and a precision may stand in front of the letter that says how
the value is written.
-/

namespace Bytecode.Database

/-- How a value is written at a place of a format. -/
structure Place where
  isLeft : Bool := false
  /-- What stands in front of a number that is not negative. -/
  mark : String := ""
  hasZeros : Bool := false
  /-- Whether the form is the longer one. -/
  isLong : Bool := false
  /-- Whether characters are counted instead of bytes, and all digits
  written. -/
  isExact : Bool := false
  hasCommas : Bool := false
  width : Nat := 0
  precision : Option Nat := none

namespace Place

/-- A text filled up to the width of a place. -/
def padded (p : Place) (s : String) : String :=
  let size := if p.isExact then Text.width s else Text.size s
  let blanks := String.ofList (List.replicate (p.width - size) ' ')
  if p.isLeft then s ++ blanks else blanks ++ s

/-- The sign in front of a number. -/
def sign (p : Place) (isNegative : Bool) : String :=
  if isNegative then "-" else p.mark

/-- What stands behind a number that counts a place in an order. -/
def ordinal (n : Nat) : String :=
  if n / 10 % 10 = 1 then "th"
  else match n % 10 with
    | 1 => "st"
    | 2 => "nd"
    | 3 => "rd"
    | _ => "th"

/-- How a whole number is written. -/
structure Base where
  number : Nat := 10
  isUpper : Bool := false
  /-- What stands in front of the longer form. -/
  lead : String := ""
  isOrdinal : Bool := false

/-- A whole number in a base. -/
def whole (p : Place) (mark : String) (magnitude : Nat) (b : Base) : String :=
  let digits := Nat.toDigits b.number magnitude
  let digits := if b.isUpper then digits.map Char.toUpper else digits
  let digits :=
    String.ofList digits ++ if b.isOrdinal then ordinal magnitude else ""
  let precision := p.precision.getD 0
  let least :=
    if p.hasZeros then max precision (p.width - mark.length) else precision
  let digits := (Text.padLeft least '0' digits).toList
  let digits := if p.hasCommas && b.number = 10 &&
        !b.isOrdinal then DigitForm.grouped digits else digits
  let lead := if p.isLong && magnitude ≠ 0 then b.lead else ""
  p.padded (lead ++ mark ++ String.ofList digits)

/-- Puts a sign in front of the digits of a double and fills up the width. -/
def filled (p : Place) (mark body : String) : String :=
  if p.hasZeros && !p.isLeft then
    mark ++ Text.padLeft (p.width - mark.length) '0' body
  else p.padded (mark ++ body)

/-- What a double without a bound is when it has to have digits. -/
def unbounded (isNegative : Bool) : Decimal :=
  { isNegative, digits := [9], point := 1000 }

/-- A double.  The letter says whether there is an exponent. -/
def double (p : Place) (letter : Char) (bits : UInt64) : String :=
  let kind := letter.toLower
  let power := if letter.isUpper then 'E' else 'e'
  let precision :=
    if kind = 'g' then max 1 (p.precision.getD 6) else p.precision.getD 6
  let wanted : Int :=
    if kind = 'f' then -(precision : Int)
    else if kind = 'g' then precision else (precision : Int) + 1
  let isNegative : Bool := Float.ofBits bits < 0.0
  if isInfinite bits && !p.hasZeros then p.padded (p.sign isNegative ++ "Inf")
  else
    let x := if isInfinite bits then unbounded isNegative
      else Decimal.ofDouble bits wanted (if p.isExact then 26 else 16)
    let form : DigitForm :=
      { isLong := p.isLong, isExact := p.isExact, hasCommas := p.hasCommas,
        strips := p.isExact }
    let isHidden : Bool :=
      p.isLong && p.mark = "" && kind = 'f' && x.point ≤ wanted
    p.filled (p.sign (isNegative && !isHidden))
      (if kind = 'f' then form.plain x precision
      else if kind = 'e' then form.scientific x precision power
      else form.general x precision power)

/-- The head of a text, as much of it as the precision of a place allows. -/
def cut (p : Place) (s : String) : String :=
  match p.precision with
  | none => s
  | some n =>
    if p.isExact then String.ofList ((Text.clusters s.toList).take n).flatten
    else if Text.size s ≤ n then s
    else Text.decode ((Text.encode s).take n)

end Place

namespace Format

/-- A text with quotes written twice. -/
def doubled (quote : Char) (s : String) : String :=
  String.ofList (s.toList.flatMap fun c => if c = quote then [c, c] else [c])

/-- How a value is written with a given letter, if there is such a letter. -/
def piece? (e : Encoding) (p : Place) (letter : Char) (v : Option Value) :
    Option String :=
  let value := v.getD .null
  let number : Int := value.toWhole e
  let size := (number % Word.size64).toNat
  let given := value.seen e
  match letter with
  | 'd' | 'i' => p.whole (p.sign (number < 0)) number.natAbs {}
  | 'r' => p.whole (p.sign (number < 0)) number.natAbs { isOrdinal := true }
  | 'u' => p.whole "" size {}
  | 'x' => p.whole "" size { number := 16, lead := "0x" }
  | 'X' => p.whole "" size { number := 16, isUpper := true, lead := "0X" }
  | 'p' => p.whole "" size { number := 16, isUpper := true, lead := "0x" }
  | 'o' => p.whole "" size { number := 8, lead := "0" }
  | 'f' | 'e' | 'E' | 'g' | 'G' => p.double letter (value.double? e).toBits
  | 'c' =>
    let cluster := (Text.clusters given.toList).headD [Char.ofNat 0]
    let c := Text.decode ((cluster.flatMap Text.bytesOf).take 4)
    some ({ p with isExact := true }.padded
      (String.join (List.replicate (max 1 (p.precision.getD 1)) c)))
  | 's' | 'z' => p.padded (p.cut given)
  | 'q' => p.padded (doubled '\x27'
      (p.cut (if value = .null then "(NULL)" else given)))
  | 'Q' =>
    p.padded (if value = .null then p.cut "NULL" else
        "\x27" ++ doubled '\x27' (p.cut given) ++ "\x27")
  | 'w' =>
      p.padded (doubled '"' (p.cut (if value = .null then "(NULL)" else given)))
  | _ => none

/-- Reads flags at the head of a place. -/
def flags (p : Place) : List Char → Place × List Char
  | '-' :: rest => flags { p with isLeft := true } rest
  | '+' :: rest => flags { p with mark := "+" } rest
  | ' ' :: rest => flags { p with mark := " " } rest
  | '0' :: rest => flags { p with hasZeros := true } rest
  | '#' :: rest => flags { p with isLong := true } rest
  | '!' :: rest => flags { p with isExact := true } rest
  | ',' :: rest => flags { p with hasCommas := true } rest
  | rest => (p, rest)

/-- The number at the head of a text. -/
def size (s : List Char) : Nat × List Char :=
  let (digits, rest) := s.span Token.isDigit
  (digits.foldl (fun n c => 10 * n + (c.toNat - '0'.toNat)) 0 % 0x80000000,
    rest)

/-- The number that is the first of some values, in 32 bits. -/
def given (e : Encoding) (args : List Value) : Int :=
  Int.bmod ((args.headD .null).toWhole e) 0x100000000

/-- Reads the width of a place, which may be among the values. -/
def width (e : Encoding) (p : Place) (s : List Char) (args : List Value) :
    Place × List Char × List Value :=
  match s with
  | '*' :: rest =>
    let n := given e args
    let width := if n = -0x80000000 then 0 else n.natAbs
    ({ p with width, isLeft := p.isLeft || n < 0 }, rest, args.drop 1)
  | s =>
    let (n, rest) := size s
    ({ p with width := n }, rest, args)

/-- Reads the precision of a place, which may be among the values. -/
def precision (e : Encoding) (p : Place) (s : List Char) (args : List Value) :
    Place × List Char × List Value :=
  match s with
  | '.' :: '*' :: rest =>
    let n := given e args
    ({ p with precision := if n = -0x80000000 then none else some n.natAbs },
      rest, args.drop 1)
  | '.' :: rest =>
    let (n, rest) := size rest
    ({ p with precision := some n }, rest, args)
  | s => (p, s, args)

/-- Drops the letters that tell how long a number is. -/
def withoutLength : List Char → List Char
  | 'l' :: 'l' :: rest => rest
  | 'l' :: rest => rest
  | rest => rest

/-- The most bytes that a place may have. -/
def most : Nat := 1000000000

/-- The pieces of a format with values in its places.  A letter that is not
known ends it; if a place is too large, there is nothing. -/
def pieces (e : Encoding) : Nat → List Char → List Value → Option (List String)
  | 0, _, _ => some []
  | _, [], _ => some []
  | _, ['%'], _ => some ["%"]
  | fuel + 1, '%' :: rest, args => do
    let (p, rest) := flags {} rest
    let (p, rest, args) := width e p rest args
    let (p, rest, args) := precision e p rest args
    let rest := withoutLength rest
    let isText : Bool := rest.head?.any ['s', 'z', 'q', 'Q', 'w'].contains
    if most ≤ p.width || (!isText && most ≤ p.precision.getD 0) then none
    match rest with
    | [] => return []
    | '%' :: rest => return p.padded "%" :: (← pieces e fuel rest args)
    | 'n' :: rest => return "" :: (← pieces e fuel rest args)
    | c :: rest =>
      match piece? e p c args.head? with
      | some s => return s :: (← pieces e fuel rest (args.drop 1))
      | none => return []
  | fuel + 1, c :: rest, args => do
    let (front, rest) := rest.span (· ≠ '%')
    return String.ofList (c :: front) :: (← pieces e fuel rest args)

/-- The text of a format with values in its places, if it has any piece. -/
def text? (e : Encoding) (format : String) (args : List Value) :
    Option String := do
  let all ← pieces e (format.length + 1) format.toList args
  if all.isEmpty then none else some (String.join all)

end Format

end Bytecode.Database
