import Bytecode.Text.Digits

/-!
# Doubles as decimal text

A double is a whole number times a power of two.  Its text is the shortest
decimal that rounds to it, found on finer and finer decimal grids: the first
grid with a point in the double's interval wins, and on it the point nearer to
the value.
-/

namespace Bytecode.Text

/-- A double without its sign, as a whole number times a power of two. -/
structure Binary where
  mantissa : Nat
  exponent : Int
  deriving DecidableEq, Repr

namespace Binary

/-- The magnitude of the double with the given bits. -/
def ofBits (bits : UInt64) : Binary :=
  let fraction := bits.toNat % 0x10000000000000
  let exponent := bits.toNat / 0x10000000000000 % 0x800
  if exponent = 0 then ⟨fraction, -1074⟩
  else ⟨0x10000000000000 + fraction, exponent - 1075⟩

/-- A power of a base, as a quotient of whole numbers. -/
def power (base : Nat) (e : Int) : Nat × Nat :=
  if 0 ≤ e then (Nat.pow base e.toNat, 1) else (1, Nat.pow base (-e).toNat)

/-- Whether a decimal rounds to a double that is not zero: it is at most half a
step away from it, and exactly half a step only if the double is even. -/
def covers (b : Binary) (digits : Nat) (e : Int) : Bool :=
  let (tn, td) := power 10 e
  let (bn, bd) := power 2 (b.exponent - 2)
  -- both sides in quarters of a step, over one denominator
  let d := digits * tn * bd
  let unit := bn * td
  let below :=
    if b.mantissa = 0x10000000000000 && -1074 < b.exponent then 1 else 2
  let low := (4 * b.mantissa - below) * unit
  let high := (4 * b.mantissa + 2) * unit
  if b.mantissa % 2 = 0 then low ≤ d && d ≤ high else low < d && d < high

/-- The greatest whole number of steps `10 ^ e` that are not above a double, and
whether the next one is nearer. -/
def steps (b : Binary) (e : Int) : Nat × Bool :=
  let (tn, td) := power 10 e
  let (bn, bd) := power 2 b.exponent
  let n := b.mantissa * bn * td
  let d := bd * tn
  (n / d, d < 2 * (n % d))

/-- The decimal on a grid that rounds to a double, if there is one. -/
def onGrid? (b : Binary) (e : Int) : Option (Nat × Int) :=
  let (n, up) := b.steps e
  let order := if up then [n + 1, n] else [n, n + 1]
  (order.find? fun k => b.covers k e).map (·, e)

/-- The shortest decimal that rounds to a double which is not zero. -/
def shortest (b : Binary) : Nat × Int :=
  -- the grids become finer from one digit on; seventeen digits always do
  let top : Int := 310
  let grids := (List.range 650).map fun (n : Nat) => top - (n : Int)
  (grids.findSome? b.onGrid?).getD (0, 0)

end Binary

/-- The digits of a decimal without zeros at the end, and the place of the point
behind the first of them. -/
def scientific (digits : Nat) (e : Int) : List Char × Int :=
  let ds := Nat.toDigits 10 digits
  let kept := (ds.reverse.dropWhile (· = '0')).reverse
  (kept, e + ds.length - 1)

/-- How doubles are written. -/
structure DoubleForm where
  /-- Exponents from here on are written. -/
  limit : Int
  /-- The most digits there may be. -/
  most : Nat := 17
  /-- Whether there is always a digit behind the point. -/
  hasPoint : Bool := false

/-- Digits in at most so many places, a half going up. -/
def rounded (most digits : Nat) (e : Int) : Nat × Int :=
  let extra := (Nat.toDigits 10 digits).length - most
  let unit := Nat.pow 10 extra
  if extra = 0 then (digits, e) else ((digits + unit / 2) / unit, e + extra)

/-- The text of the double with the given bits: with an exponent of at least two
digits if that is below -4 or reaches the limit, and without one otherwise. -/
def written (f : DoubleForm) (bits : UInt64) : String :=
  let sign := if 0x8000000000000000 ≤ bits.toNat then "-" else ""
  let b := Binary.ofBits bits
  let none := if f.hasPoint then ".0" else ""
  if b.mantissa = 0 then sign ++ "0" ++ none
  else if b.exponent = 972 then
    if b.mantissa ≠ 0x10000000000000 then "NaN"
    else if sign = "" then "+Inf" else "-Inf"
  else
    let (n, e) := b.shortest
    let (n, e) := rounded f.most n e
    let (ds, point) := scientific n e
    let text (cs : List Char) : String := String.ofList cs
    if point < -4 || f.limit ≤ point then
      let fraction := if ds.length ≤ 1 then none else "." ++ text (ds.drop 1)
      let mark := if point < 0 then "e-" else "e+"
      sign ++ text (ds.take 1) ++ fraction ++ mark ++ decimal 2 point.natAbs
    else if point < 0 then
      sign ++ "0." ++ text (List.replicate (point.natAbs - 1) '0' ++ ds)
    else
      let whole := point.toNat + 1
      let front :=
        text ((ds ++ List.replicate (whole - ds.length) '0').take whole)
      let fraction :=
        if ds.length ≤ whole then none else "." ++ text (ds.drop whole)
      sign ++ front ++ fraction

/-- The text of the double with the given bits, in the fewest digits; exponents
from six on are written. -/
def double (bits : UInt64) : String := written { limit := 6 } bits

end Bytecode.Text
