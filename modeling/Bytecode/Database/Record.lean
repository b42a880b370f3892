import Bytecode.Database.Page
import Bytecode.Database.Value

/-!
# Rows as bytes

A row is written as a record: the kinds of its values, then the values.  Numbers
that say how long something is take as many bytes as they need, seven bits in
each; a ninth byte has all its bits.
-/

namespace Bytecode.Database

/-- The number at the head of a byte list, with what follows. -/
def varint? (bytes : List UInt8) : Option (Nat × List UInt8) := go 8 0 bytes
where
  /-- The same, with so many bytes of seven bits to come. -/
  go : Nat → Nat → List UInt8 → Option (Nat × List UInt8)
    | _, _, [] => none
    | 0, n, b :: rest => some (256 * n + b.toNat, rest)
    | k + 1, n, b :: rest =>
      if b < 0x80 then some (128 * n + b.toNat, rest)
      else go k (128 * n + (b.toNat - 128)) rest

/-- Groups of seven bits, the last one first. -/
def groups : Nat → Nat → List Nat
  | 0, _ => []
  | fuel + 1, n => n % 128 :: if n < 128 then [] else groups fuel (n / 128)

/-- A number as bytes of seven bits, or nine bytes if it needs them. -/
def varint (n : Nat) : List UInt8 :=
  let marked (gs : List Nat) : List UInt8 :=
    gs.map fun g => UInt8.ofNat (128 + g)
  if n < 0x100000000000000 then
    match groups 8 n with
    | [] => [0]
    | low :: rest => marked rest.reverse ++ [UInt8.ofNat low]
  else
    marked ((List.range 8).map fun k => n / 256 / Nat.pow 128 (7 - k) % 128) ++
      [UInt8.ofNat (n % 256)]

/-- The number whose bytes are given, most significant first, with a sign. -/
def signed (bytes : List UInt8) : Int :=
  Int.bmod (Bytes.ofBig bytes) (Bytes.capacity bytes.length)

/-- A whole number as a number of 64 bits without a sign. -/
def word (n : Int) : Nat := (n % Word.size64).toNat

namespace Value

/-- The kind of a value in a record. -/
def kind (e : Encoding) : Value → Nat
  | .null => 0
  | .integer n =>
    if n = 0 then 8
    else if n = 1 then 9
    else if -0x80 ≤ n && n < 0x80 then 1
    else if -0x8000 ≤ n && n < 0x8000 then 2
    else if -0x800000 ≤ n && n < 0x800000 then 3
    else if -0x80000000 ≤ n && n < 0x80000000 then 4
    else if -0x800000000000 ≤ n && n < 0x800000000000 then 5
    else 6
  | .real _ => 7
  | .text s => 13 + 2 * (e.bytes s).length
  | .blob bytes => 12 + 2 * bytes.length

/-- How many bytes a value of a kind takes. -/
def width (kind : Nat) : Nat :=
  if 12 ≤ kind then (kind - 12) / 2
  else if kind = 5 then 6
  else if kind = 6 || kind = 7 then 8
  else if kind ≤ 4 then kind
  else 0

/-- The bytes of a value in a record. -/
def bytes (e : Encoding) (v : Value) : List UInt8 :=
  match v with
  | .null => []
  | .integer n => Bytes.big (width (v.kind e)) (word n)
  | .real bits => Bytes.big 8 bits.toNat
  | .text s => e.bytes s
  | .blob bytes => bytes

/-- The value of a kind with given bytes. -/
def ofBytes (e : Encoding) (kind : Nat) (bytes : List UInt8) : Value :=
  if kind = 0 || kind = 10 || kind = 11 then .null
  else if kind = 7 then .real (UInt64.ofNat (Bytes.ofBig bytes))
  else if kind = 8 then .integer 0
  else if kind = 9 then .integer 1
  else if kind < 7 then .integer (signed bytes)
  else if kind % 2 = 0 then .blob bytes
  else .text (e.text bytes)

end Value

/-- The content of a row as it is stored. -/
structure Payload where
  /-- How long it is said to be. -/
  length : Nat
  /-- The bytes that can be read. -/
  bytes : ByteArray
  deriving Inhabited

/-- The values in a record. -/
structure Fields where
  /-- The values in order; nothing stands for one that cannot be read. -/
  values : Array (Option Value)
  /-- Whether the record ends where it should, so there are no values behind. -/
  isWhole : Bool := true
  deriving Inhabited

namespace Record

/-- The bytes of a record. -/
def encode (e : Encoding) (values : List Value) : List UInt8 :=
  let kinds := values.flatMap fun v => varint (v.kind e)
  -- the length counts itself
  let one := kinds.length + 1
  let length :=
    if one < 128 then one else if one + 1 < 16384 then one + 1 else one + 2
  varint length ++ kinds ++ values.flatMap (·.bytes e)

/-- The number at a position of a byte array, and the position behind it. -/
def varintAt (bytes : ByteArray) (i : Nat) : Nat × Nat :=
  match varint? (Page.slice bytes i 9) with
  | some (n, rest) => (n, i + ((Page.slice bytes i 9).length - rest.length))
  | none => (0, i + 9)

/-- How the kinds in a record end. -/
inductive Ending where
  | whole
  /-- The values do not fill the record. -/
  | uneven
  /-- A kind does not fit. -/
  | cut
  deriving DecidableEq

/-- The kinds from a position of a record on, where the values that belong to
them begin at an offset. -/
def kinds (payload : Payload) (stop : Nat) : Nat → Nat → Nat → List Nat × Ending
  | 0, _, _ => ([], .cut)
  | fuel + 1, i, offset =>
    if stop ≤ i then ([], if offset = payload.length then .whole else .uneven)
    else
      let (n, next) := varintAt payload.bytes i
      let kind := min n 0xffffffff
      let offset := offset + Value.width kind
      if payload.length < offset || stop < next then ([], .cut)
      else
        let (rest, ending) := kinds payload stop fuel next offset
        (kind :: rest, ending)

/-- The value of a kind at a position, if its bytes are there. -/
def valueAt (e : Encoding) (payload : Payload) (kind offset : Nat) :
    Option Value :=
  let width := Value.width kind
  if offset + width ≤ payload.bytes.size then
    some (.ofBytes e kind (Page.slice payload.bytes offset width))
  else if width = 0 then some (.ofBytes e kind [])
  else none

/-- The values of given kinds from a position on. -/
def valuesFrom (e : Encoding) (payload : Payload) :
    Nat → List Nat → List (Option Value)
  | _, [] => []
  | offset, k :: ks =>
      valueAt e payload k offset :: valuesFrom e payload (offset +
        Value.width k) ks

/-- The values in a record.  What does not end where it should makes the last
value unreadable, and all behind it. -/
def fields (e : Encoding) (payload : Payload) : Fields :=
  let (size, start) := varintAt payload.bytes 0
  if size = 0 then { values := #[] }
  else if payload.length < size || payload.bytes.size < size then
    { values := #[], isWhole := false }
  else
    let (kinds, ending) := kinds payload size size start size
    let values := valuesFrom e payload size kinds
    { values := (if ending = .uneven then values.dropLast else values).toArray
      isWhole := ending = .whole }

end Record

namespace Fields

/-- The value in a place; a row that ends before has the one that is given. -/
def get (f : Fields) (n : Nat) (otherwise : Value) : Except Failure Value :=
  match f.values[n]? with
  | some (some v) => .ok v
  | some none => .error .malformed
  | none => if f.isWhole then .ok otherwise else .error .malformed

/-- All values, if they can be read. -/
def all (f : Fields) : Except Failure (List Value) :=
  if f.isWhole then f.values.toList.mapM fun v =>
    match v with
    | some v => .ok v
    | none => .error .malformed
  else .error .malformed

end Fields

end Bytecode.Database
