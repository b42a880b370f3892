import Bytecode.Bytes
import Bytecode.Database.Decimal
import Bytecode.Database.Token
import Bytecode.Text.Shortest
import Bytecode.Text.Stray

/-!
# Values

What a field of a table holds.  Values of different kinds are ordered by kind,
numbers by size, texts by the bytes of their written form and byte sequences
byte by byte.  A column has an affinity, which changes the values put into it,
and a collation, which says when its texts count as equal.
-/

namespace Bytecode.Database

/-- The content of a field. -/
inductive Value where
  | null
  | integer (n : Int)
  /-- A double, by its bits. -/
  | real (bits : UInt64)
  | text (s : String)
  | blob (bytes : List UInt8)
  deriving DecidableEq, Repr, Inhabited

/-- How texts are written. -/
inductive Encoding where
  | utf8
  | utf16le
  | utf16be
  deriving DecidableEq, Repr, Inhabited

namespace Encoding

/-- The encoding that a name in lower case stands for; nothing is said about the
order of bytes by a name that could mean both. -/
def ofName? (name : String) : Option Encoding :=
  if name = "utf8" || name = "utf-8" then some .utf8
  else if name = "utf16le" || name = "utf-16le" || name = "utf16" ||
      name = "utf-16" then
    some .utf16le
  else if name = "utf16be" || name = "utf-16be" then some .utf16be
  else none

/-- The units of sixteen bits of a character. -/
def units (c : Char) : List Nat :=
  let n := c.toNat
  if n < 0x10000 then [n]
  else [0xd800 + (n - 0x10000) / 0x400, 0xdc00 + (n - 0x10000) % 0x400]

/-- The written form of a text. -/
def bytes (e : Encoding) (s : String) : List UInt8 :=
  match e with
  | .utf8 => Text.encode s
  | .utf16le =>
    ((Text.taken s).toList.flatMap units).flatMap fun u =>
      [UInt8.ofNat (u % 256), UInt8.ofNat (u / 256)]
  | .utf16be =>
    ((Text.taken s).toList.flatMap units).flatMap fun u =>
      [UInt8.ofNat (u / 256), UInt8.ofNat (u % 256)]

/-- The numbers of the characters of units of sixteen bits.  One of two is taken
for the first of a pair whatever follows. -/
def ofUnits : List Nat → List Nat
  | first :: second :: rest =>
    if 0xd800 ≤ first && first < 0xe000 then
      (0x10000 + first % 0x400 * 0x400 + second % 0x400) :: ofUnits rest
    else first :: ofUnits (second :: rest)
  | units => units

/-- The numbers that pairs of bytes stand for. -/
def pairs (number : Nat → Nat → Nat) : List UInt8 → List Nat
  | a :: b :: rest => number a.toNat b.toNat :: pairs number rest
  | _ => []

/-- The text with a given written form. -/
def text (e : Encoding) (bytes : List UInt8) : String :=
  let ofPairs (number : Nat → Nat → Nat) : String :=
    Text.decode ((ofUnits (pairs number bytes)).flatMap Text.bytesOfNumber)
  match e with
  | .utf8 => Text.decode bytes
  | .utf16le => ofPairs fun a b => a + 256 * b
  | .utf16be => ofPairs fun a b => 256 * a + b

end Encoding

/-- When texts count as equal. -/
inductive Collation where
  | binary
  /-- Latin letters of either case are one. -/
  | caseless
  /-- Blanks at the end do not count. -/
  | trimmed
  /-- Nobody knows how to compare texts in this way. -/
  | unknown (name : String)
  deriving DecidableEq, Repr, Inhabited

namespace Collation

/-- The collation that a name in lower case stands for. -/
def ofName? (name : String) : Option Collation :=
  if name = "binary" then some .binary
  else if name = "nocase" then some .caseless
  else if name = "rtrim" then some .trimmed
  else none

/-- The collation with a name, of which nothing may be known. -/
def named (name : String) : Collation :=
  (ofName? (Token.lowered name)).getD (.unknown name)

/-- What is compared of a text.  Where letters of either case are one, only the
length counts of what stands behind a NUL. -/
def key (c : Collation) (s : String) : String :=
  match c with
  | .binary | .unknown _ => s
  | .caseless =>
    let (front, back) := (Token.lowered s).toList.span (· ≠ Char.ofNat 0)
    String.ofList front ++ String.ofList
      (List.replicate (Text.size (String.ofList back)) (Char.ofNat 0))
  | .trimmed => String.ofList (s.toList.reverse.dropWhile (· = ' ')).reverse

/-- The bytes by which a text is compared: those that write it, or the part of
it that counts. -/
def bytes (e : Encoding) (c : Collation) (s : String) : List UInt8 :=
  match c with
  | .binary | .unknown _ => e.bytes s
  | c => Text.encode (c.key s)

end Collation

namespace Value

/-- A number as a whole number times a power of two. -/
def number? : Value → Option (Int × Int)
  | .integer n => some (n, 0)
  | .real bits =>
    let b := Text.Binary.ofBits bits
    some (if 0x8000000000000000 ≤ bits.toNat then -(b.mantissa : Int) else
        b.mantissa, b.exponent)
  | _ => none

/-- Compares whole numbers times powers of two. -/
def compareNumbers (a b : Int × Int) : Ordering :=
  let least := min a.2 b.2
  let scaled (x : Int × Int) : Int :=
    x.1 * (Nat.pow 2 (x.2 - least).toNat : Nat)
  compare (scaled a) (scaled b)

/-- Compares byte sequences. -/
def compareBytes : List UInt8 → List UInt8 → Ordering
  | [], [] => .eq
  | [], _ :: _ => .lt
  | _ :: _, [] => .gt
  | a :: s, b :: t => (compare a.toNat b.toNat).then (compareBytes s t)

/-- The place of a kind of values among the others. -/
def rank : Value → Nat
  | .null => 0
  | .integer _ | .real _ => 1
  | .text _ => 2
  | .blob _ => 3

/-- Compares values of a column. -/
def order (e : Encoding) (c : Collation) (a b : Value) : Ordering :=
  match a, b with
  | .integer m, .integer n => compare m n
  | .text s, .text t => compareBytes (c.bytes e s) (c.bytes e t)
  | .blob s, .blob t => compareBytes s t
  | a, b =>
    match a.number?, b.number? with
    | some x, some y => compareNumbers x y
    | _, _ => compare a.rank b.rank

/-- Whether two values are the same number, text or byte sequence.  Nothing is
the same as null. -/
def same (c : Collation) (a b : Value) : Bool :=
  match a, b with
  | .null, _ | _, .null => false
  | .text s, .text t => c.key s = c.key t
  | a, b => a.order .utf8 c b = .eq

/-- Blanks around a number. -/
def isSpace (c : Char) : Bool := c = ' ' || ('\t' ≤ c && c ≤ '\r')

/-- The digits in front of the point, those behind it and the exponent of a
decimal number that fills a whole text. -/
def decimalShape? (s : List Char) : Option (List Char × List Char × Int) :=
  let (whole, rest) := s.span Token.isDigit
  let (fraction, rest) := match rest with
    | '.' :: rest => rest.span Token.isDigit
    | rest => ([], rest)
  let value (ds : List Char) : Nat :=
    ds.foldl (fun n c => 10 * n + (c.toNat - '0'.toNat)) 0
  if whole.isEmpty && fraction.isEmpty then none
  else match rest with
    | [] => some (whole, fraction, 0)
    | c :: rest =>
      let (negative, digits) := match rest with
        | '-' :: rest => (true, rest)
        | '+' :: rest => (false, rest)
        | rest => (false, rest)
      if (c = 'e' || c = 'E') && !digits.isEmpty &&
          digits.all Token.isDigit then
        let e : Int := min 10000 (value digits)
        some (whole, fraction, if negative then -e else e)
      else none

/-- The whole number that a double is, if it fits in 64 bits. -/
def whole? (bits : UInt64) : Option Int := do
  let (m, e) ← number? (.real bits)
  let n :=
    if 0 ≤ e then if 64 < e then none else some (m * (Nat.pow 2 e.toNat : Nat))
    else
      let d : Int := (Nat.pow 2 (-e).toNat : Nat)
      if m % d = 0 then some (m / d) else none
  n.filter Word.fitsSigned64

/-- The text of a double: at most fifteen digits, at least one of them behind
the point. -/
def realText (bits : UInt64) : String :=
  let x := Decimal.ofDouble bits 15 26
  (if Float.ofBits bits < 0.0 then "-" else "") ++ if isInfinite bits then "Inf"
    else ({ isExact := true } : DigitForm).general x 15 'e'

/-- A whole number as a double. -/
def wholeDouble (n : Int) : UInt64 := (Float.ofInt n).toBits

/-- A double, or the whole number it is. -/
def ofDouble (bits : UInt64) : Value :=
  ((whole? bits).map .integer).getD (.real bits)

/-- The number that a text spells; one with a fraction or an exponent is a
double even if it is whole. -/
def literal? (s : List Char) : Option Value := do
  let (negative, s) := match s with
    | '-' :: rest => (true, rest)
    | '+' :: rest => (false, rest)
    | s => (false, s)
  let (whole, fraction, exponent) ← decimalShape? s
  let digits :=
    (whole ++ fraction).foldl (fun n c => 10 * n + (c.toNat - '0'.toNat)) 0
  let n : Int := if negative then -digits else digits
  if whole.length = s.length && Word.fitsSigned64 n then return .integer n
  else return .real (Decimal.toDouble negative whole fraction exponent)

/-- The number that a text with blanks around it spells, if it is one. -/
def ofText? (s : String) : Option Value :=
  let inner := ((s.toList.dropWhile isSpace).reverse.dropWhile isSpace).reverse
  literal? inner

end Value

/-- What a column makes of the values put into it. -/
inductive Affinity where
  /-- Values stay what they are. -/
  | plain
  | text
  | numeric
  | integer
  | real
  deriving DecidableEq, Repr, Inhabited

namespace Affinity

/-- Whether a text contains another. -/
def contains (s part : String) : Bool :=
  (List.range (s.length + 1)).any fun n =>
    part.toList.isPrefixOf (s.toList.drop n)

/-- The affinity of a declared type. -/
def ofType (type : String) : Affinity :=
  let t := Token.lowered type
  if contains t "int" then .integer
  else if contains t "char" || contains t "clob" || contains t "text" then .text
  else if t = "" || contains t "blob" then .plain
  else if contains t "real" || contains t "floa" || contains t "doub" then .real
  else .numeric

/-- Whether values are numbers wherever they can be. -/
def isNumeric : Affinity → Bool
  | .numeric | .integer | .real => true
  | .plain | .text => false

/-- A value as a column holds it. -/
def apply (a : Affinity) (v : Value) : Value :=
  match a, v with
  | .text, .integer n => .text (Text.integer n)
  | .text, .real bits => .text (Value.realText bits)
  | .numeric, .text s | .integer, .text s =>
    match Value.ofText? s with
    | some (.real bits) => Value.ofDouble bits
    | some n => n
    | none => v
  | .numeric, .real bits | .integer, .real bits => Value.ofDouble bits
  | .real, .text s =>
    match Value.ofText? s with
    | some (.integer n) => .real (Value.wholeDouble n)
    | some n => n
    | none => v
  | .real, .integer n => .real (Value.wholeDouble n)
  | _, v => v

end Affinity

end Bytecode.Database
