import Bytecode.Bytes
import Bytecode.Database.Conversion
import Bytecode.Database.Failure

/-!
# Boxes

A box has two bounds in each of its dimensions, and perhaps other values beside
them. Bounds are held in single precision, or as whole numbers of 32 bits; a
lower bound is rounded down and an upper one up, so that a box never gets
smaller.
-/

namespace Bytecode.Database

/-- What boxes of a table look like. -/
structure BoxForm where
  /-- The name of the table. -/
  table : String
  /-- Whether bounds are whole numbers. -/
  isWhole : Bool := false
  /-- The name of the number of a box, and the names of its bounds: lower and
  upper ones in turn. -/
  number : String
  bounds : List String
  /-- How many other values there are. -/
  others : Nat := 0
  deriving DecidableEq, Repr, Inhabited

namespace BoxForm

/-- The smallest relative step of single precision. -/
def step : Float := 1.0 / 8388608.0

/-- A lower or an upper bound in single precision. -/
def rounded (isUpper : Bool) (x : Float) : Float :=
  let y := x.toFloat32.toFloat
  let isWrong : Bool := if isUpper then y < x else x < y
  if isWrong then
    let isAway : Bool := (x < 0) ≠ isUpper
    (x * (if isAway then 1.0 + step else 1.0 - step)).toFloat32.toFloat
  else y

/-- A bound as it is held. -/
def bound (f : BoxForm) (e : Encoding) (isUpper : Bool) (v : Value) : Value :=
  if f.isWhole then .integer (Int.bmod (v.toWhole e) Word.size32)
  else .real (rounded isUpper (v.double? e)).toBits

/-- The bounds of a box as they are held; those of a dimension must be in
order. -/
def held (f : BoxForm) (e : Encoding) (values : List Value) :
    Except Failure (List Value) := do
  let bounds := (values.take f.bounds.length).zipIdx.map fun (v, k) =>
    f.bound e (k % 2 = 1) v
  (List.range (f.bounds.length / 2)).forM fun k => do
    let low := bounds.getD (2 * k) .null
    let high := bounds.getD (2 * k + 1) .null
    if high.toFloat < low.toFloat then
      throw (.disordered ("rtree constraint failed: " ++
        f.table ++ ".(" ++ f.bounds.getD (2 * k) "" ++ "<=" ++
        f.bounds.getD (2 * k + 1) "" ++ ")"))
  return bounds ++ values.drop f.bounds.length

/-- The bytes of a bound. -/
def boundBytes : Value → List UInt8
  | .real bits => Bytes.big 4 (Float.ofBits bits).toFloat32.toBits.toNat
  | .integer n => Bytes.big 4 (n % Word.size32).toNat
  | _ => Bytes.big 4 0

/-- The bound that bytes are. -/
def boundOf (f : BoxForm) (bytes : List UInt8) : Value :=
  let n := Bytes.ofBig bytes
  if f.isWhole then .integer (Int.bmod n Word.size32)
  else .real (Float32.ofBits (UInt32.ofNat n)).toFloat.toBits

/-- How many bytes a box takes. -/
def cellSize (f : BoxForm) : Nat := 8 + 4 * f.bounds.length

/-- The bytes of boxes that are kept together, each with its number; there are
at least so many. -/
def node (size : Nat) (boxes : List (Int × List Value)) : List UInt8 :=
  let cells := boxes.flatMap fun (number, bounds) =>
    Bytes.big 8 (number % Word.size64).toNat ++ bounds.flatMap boundBytes
  let bytes := Bytes.big 2 0 ++ Bytes.big 2 boxes.length ++ cells
  bytes ++ List.replicate (size - bytes.length) 0

/-- The boxes that bytes are, each with its number. -/
def boxes (f : BoxForm) (bytes : List UInt8) : List (Int × List Value) :=
  (List.range (Bytes.ofBig ((bytes.drop 2).take 2))).map fun k =>
    let cell := (bytes.drop (4 + f.cellSize * k)).take f.cellSize
    (Int.bmod (Bytes.ofBig (cell.take 8)) Word.size64,
      (List.range f.bounds.length).map
      fun n => f.boundOf ((cell.drop (8 + 4 * n)).take 4))

/-- How many boxes are kept together. -/
def room : Nat := 51

/-- How many bytes boxes that are kept together take on pages of a size. -/
def nodeSize (f : BoxForm) (pageSize : Nat) : Nat :=
  min (pageSize - 64) (4 + f.cellSize * room)

end BoxForm

end Bytecode.Database
