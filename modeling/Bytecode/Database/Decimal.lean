import Bytecode.Text.Digits

/-!
# Doubles in decimal digits

A double is scaled by powers of ten until it has eighteen or nineteen digits in
front of the point, the rest is dropped, and what is left is rounded to as many
digits as are asked for, a half going up.  The other way round, digits are taken
as a whole number and scaled by powers of ten.  On the way a number is the sum
of two doubles, so that little is lost by scaling.
-/

namespace Bytecode.Database

/-- A number as the sum of two doubles, the second of which is small beside the
first. -/
structure Precise where
  high : Float
  low : Float := 0

namespace Precise

/-- The first half of the digits of a double. -/
def head (x : Float) : Float := Float.ofBits (x.toBits &&& 0xfffffffffc000000)

/-- The product with a number that is also the sum of two doubles. -/
def times (x : Precise) (y rest : Float) : Precise :=
  let hx := head x.high
  let tx := x.high - hx
  let hy := head y
  let ty := y - hy
  let p := hx * hy
  let q := hx * ty + tx * hy
  let c := p + q
  let cc := p - c + q + tx * ty
  let cc := x.high * rest + x.low * y + cc
  let high := c + cc
  { high, low := (c - high) + cc }

/-- A power of ten as the sum of two doubles. -/
structure Power where
  exponent : Int
  high : Float
  low : Float := 0

/-- The powers by which a number grows. -/
def large : List Power :=
  [⟨100, 1.0e100, -1.5902891109759918046e83⟩, ⟨10, 1.0e10, 0⟩, ⟨1, 1.0e1, 0⟩]

/-- The powers by which a number shrinks. -/
def small : List Power :=
  [⟨-100, 1.0e-100, -1.99918998026028836196e-117⟩,
    ⟨-10, 1.0e-10, -3.6432197315497741579e-27⟩,
    ⟨-1, 1.0e-1, -5.5511151231257827021e-18⟩]

/-- Multiplies by a power as long as a condition holds, at most so often; the
exponent tells by how much. -/
def timesWhile (goesOn : Float → Bool) (p : Power) :
    Nat → Precise → Int → Precise × Int
  | 0, x, e => (x, e)
  | fuel + 1, x, e =>
    if goesOn x.high then
      timesWhile goesOn p fuel (x.times p.high p.low) (e + p.exponent)
    else (x, e)

/-- Multiplies by a power of ten so often. -/
def timesOften (p : Power) : Nat → Precise → Precise
  | 0, x => x
  | n + 1, x => timesOften p n (x.times p.high p.low)

/-- A positive double times a power of ten, so that it has eighteen or nineteen
digits in front of the point, and the exponent of that power. -/
def scaled (r : Float) : Precise × Int :=
  let x : Precise := { high := r }
  let (powers, bounds) : List Power × List (Float → Bool) :=
    if 9.223372036854774784e18 < r then
      (small, [(9.223372036854774784e118 < ·), (9.223372036854774784e28 < ·),
        (9.223372036854774784e18 < ·)])
    else
      (large, [(· < 9.223372036854774784e-83), (· < 9.223372036854774784e7),
        (· < 9.22337203685477478e17)])
  (powers.zip bounds).foldl
    (fun (x, e) (p, goesOn) => timesWhile goesOn p 400 x e) (x, 0)

/-- The whole number in front of the point. -/
def whole (x : Precise) : Nat :=
  if x.low < 0 then x.high.toUInt64.toNat - (-x.low).toUInt64.toNat
  else x.high.toUInt64.toNat + x.low.toUInt64.toNat

/-- A whole number of at most 64 bits. -/
def ofNat (n : Nat) : Precise :=
  let high := Float.ofNat n
  if 18446744073709549568.0 < high then { high }
  else
    let near := high.toUInt64.toNat
    { high, low := if near ≤ n then Float.ofNat (n - near) else
          -Float.ofNat (near - n) }

end Precise

/-- Whether a double is infinite. -/
def isInfinite (bits : UInt64) : Bool :=
  bits.toNat % 0x8000000000000000 = 0x7ff0000000000000

/-- A number in decimal digits. -/
structure Decimal where
  isNegative : Bool := false
  /-- The digits; behind them there are only zeros. -/
  digits : List Nat := [0]
  /-- How many of them stand in front of the point. -/
  point : Int := 1
  deriving Repr

namespace Decimal

/-- The digits without zeros at the end. -/
def stripped (digits : List Nat) : List Nat :=
  (digits.reverse.dropWhile (· = 0)).reverse

/-- Adds one at the last digit; the flag tells that a digit was added in
front. -/
def increased (digits : List Nat) : List Nat × Bool :=
  let (rest, carry) := digits.foldr (fun d (ds, carry) =>
    if carry then if d = 9 then (0 :: ds, true) else ((d + 1) :: ds, false)
    else (d :: ds, false)) ([], true)
  if carry then (1 :: rest, true) else (rest, false)

/-- A number rounded to so many digits. -/
def rounded (x : Decimal) (count : Nat) : Decimal :=
  let kept := x.digits.take count
  if x.digits.getD count 0 < 5 then { x with digits := kept }
  else
    let (ds, grew) := increased kept
    { x with digits := ds, point := if grew then x.point + 1 else x.point }

/-- The digits of a double that is not infinite.  `wanted` counts digits, or
places behind the point if it is not positive; there are never more than
`most`. -/
def ofDouble (bits : UInt64) (wanted : Int) (most : Nat) : Decimal :=
  let r := Float.ofBits bits
  if r == 0.0 then {}
  else
    let isNegative : Bool := r < 0.0
    let (x, e) := Precise.scaled r.abs
    let ds := (Nat.toDigits 10 x.whole).map fun c => c.toNat - '0'.toNat
    let x : Decimal :=
      { isNegative, digits := ds, point := (ds.length : Int) - e }
    let count : Int := if wanted ≤ 0 then x.point - wanted else wanted
    let (x, count) : Decimal × Int :=
      if wanted ≤ 0 && count = 0 && 5 ≤ x.digits.headD 0 then
        ({ x with digits := 0 :: x.digits, point := x.point + 1 }, 1)
      else (x, count)
    let x :=
      if 0 < count && (count < x.digits.length || most < x.digits.length) then
        x.rounded (min count.toNat most)
      else x
    { x with digits := stripped x.digits }

/-- The digit in a place: the first one is place zero. -/
def digit (x : Decimal) (n : Nat) : Char :=
  Char.ofNat (x.digits.getD n 0 + '0'.toNat)

/-- The number from which on no more digits are taken. -/
def enough : Nat := 1844674407370955160

/-- Digits as a whole number and the power of ten it stands for, from digits in
front of the point and behind it. -/
def gathered (whole fraction : List Char) : Nat × Int :=
  let value (c : Char) : Nat := c.toNat - '0'.toNat
  let front := whole.foldl (fun ((s, e) : Nat × Int) c =>
    if enough ≤ s then (s, e + 1) else (10 * s + value c, e)) (0, 0)
  fraction.foldl (fun ((s, e) : Nat × Int) c =>
    if enough ≤ s then (s, e) else (10 * s + value c, e - 1)) front

/-- Makes an exponent smaller as long as the digits have room, at most so
often. -/
def lowered : Nat → Nat × Int → Nat × Int
  | 0, x => x
  | fuel + 1, (s, e) =>
      if 0 < e && s < 1844674407370954956 then lowered fuel (10 * s, e - 1)
      else (s, e)

/-- Takes zeros off the end of digits behind the point, at most so often. -/
def shortened : Nat → Nat × Int → Nat × Int
  | 0, x => x
  | fuel + 1, (s, e) =>
      if e < 0 && s % 10 = 0 then shortened fuel (s / 10, e + 1) else (s, e)

/-- The double nearest to digits, a point and an exponent, or nearly so. -/
def toDouble (isNegative : Bool) (whole fraction : List Char) (exponent : Int) :
    UInt64 :=
  let (s, shift) := gathered whole fraction
  let sign (x : Float) : UInt64 := (if isNegative then -x else x).toBits
  if s = 0 then sign 0.0
  else
    let (s, e) := shortened 20 (lowered 20 (s, exponent + shift))
    let n := e.natAbs
    let x := ((if 0 < e then Precise.large else Precise.small).zip
      [n / 100, n % 100 / 10, n % 10]).foldl
      (fun x (p, count) => Precise.timesOften p count x) (Precise.ofNat s)
    let r := x.high + x.low
    sign (if r.isNaN then 1.0 / 0.0 else r)

end Decimal

/-- How the digits of a double are written. -/
structure DigitForm where
  /-- Whether a point is written in any case. -/
  isLong : Bool := false
  /-- Whether a digit stands behind the point in any case. -/
  isExact : Bool := false
  hasCommas : Bool := false
  /-- Whether zeros at the end are left out. -/
  strips : Bool := false

namespace DigitForm

/-- Digits with commas between the thousands. -/
def grouped (digits : List Char) : List Char :=
  (digits.reverse.zipIdx.flatMap
    fun (c, n) => if n ≠ 0 && n % 3 = 0 then [',', c] else [c]).reverse

/-- Digits in front of a point and behind it. -/
def joined (f : DigitForm) (front behind : List Char) : List Char :=
  let kept :=
    if f.strips then (behind.reverse.dropWhile (· = '0')).reverse else behind
  let hasPoint : Bool := !behind.isEmpty || f.isLong || f.isExact
  if !hasPoint then front
  else if f.strips && kept.isEmpty then
    if f.isExact then front ++ ['.', '0'] else front
  else front ++ '.' :: kept

/-- A number without an exponent, with so many places behind the point. -/
def plain (f : DigitForm) (x : Decimal) (places : Nat) : String :=
  let front :=
    if x.point ≤ 0 then ['0'] else (List.range x.point.toNat).map x.digit
  let front := if f.hasCommas then grouped front else front
  let behind := (List.range places).map fun (n : Nat) =>
    let k : Int := x.point + (n : Int)
    if k < 0 then '0' else x.digit k.toNat
  String.ofList (f.joined front behind)

/-- A number with an exponent behind a letter, with so many places behind the
point. -/
def scientific (f : DigitForm) (x : Decimal) (places : Nat) (letter : Char) :
    String :=
  let behind := (List.range places).map fun n => x.digit (n + 1)
  let e := x.point - 1
  String.ofList (f.joined [x.digit 0] behind ++ [letter]) ++
    (if e < 0 then "-" else "+") ++ Text.decimal 2 e.natAbs

/-- A number with so many digits, with an exponent only if it is very large or
small. -/
def general (f : DigitForm) (x : Decimal) (digits : Nat) (letter : Char) :
    String :=
  let e := x.point - 1
  let f := { f with strips := !f.isLong }
  if e < -4 || (digits : Int) - 1 < e then f.scientific x (digits - 1) letter
  else f.plain x ((digits : Int) - 1 - e).toNat

end DigitForm

end Bytecode.Database
