import Bytecode.Bytes
import Bytecode.Text.Utf8

/-!
# CBOR items

The data items of the Concise Binary Object Representation.  `Item.encode`
writes the shortest form with definite lengths; `Item.decode?` reads any
well-formed item, indefinite lengths included, as long as it fills the input, is
nested no deeper than 32 levels and no list or map is larger than 131072.
-/

namespace Bytecode.Cbor

/-- A data item. -/
inductive Item where
  | unsigned (n : Nat)
  /-- The negative number `-1 - n`. -/
  | negative (n : Nat)
  | bytes (b : List UInt8)
  /-- A text, still as the bytes of its chunks. -/
  | text (chunks : List (List UInt8))
  | array (items : List Item)
  /-- A map: keys and values take turns. -/
  | map (items : List Item)
  | tag (number : Nat) (content : Item)
  | simple (n : Nat)
  | float

namespace Item

/-- The truth value `b`. -/
def bool (b : Bool) : Item := .simple (if b then 21 else 20)

/-- The item for nothing. -/
def null : Item := .simple 22

/-- Whether the item stands for nothing. -/
def isNull : Item → Bool
  | .simple n => n = 22 || n = 23
  | _ => false

/-- A text in one chunk. -/
def ofString (s : String) : Item := .text [Text.utf8 s]

/-- An integer. -/
def ofInt (n : Int) : Item :=
  if n < 0 then .negative (-1 - n).toNat else .unsigned n.toNat

end Item

/-! ### Writing -/

/-- The head of an item: major type and argument in the shortest form. -/
def head (major n : Nat) : List UInt8 :=
  let lead (info : Nat) := UInt8.ofNat (major * 32 + info)
  if n < 24 then [lead n]
  else if n < 0x100 then lead 24 :: Bytes.big 1 n
  else if n < 0x10000 then lead 25 :: Bytes.big 2 n
  else if n < 0x100000000 then lead 26 :: Bytes.big 4 n
  else lead 27 :: Bytes.big 8 n

/-- The shortest encoding of an item, lengths given in advance. -/
def Item.encode : Item → List UInt8
  | .unsigned n => head 0 n
  | .negative n => head 1 n
  | .bytes b => head 2 b.length ++ b
  | .text chunks => head 3 chunks.flatten.length ++ chunks.flatten
  | .array items => head 4 items.length ++ (items.map Item.encode).flatten
  | .map items => head 5 (items.length / 2) ++ (items.map Item.encode).flatten
  | .tag n content => head 6 n ++ content.encode
  | .simple n => head 7 n
  | .float => [0xf9, 0x7e, 0x00]

/-! ### Reading -/

/-- The deepest nesting that is read. -/
def maxDepth : Nat := 32

/-- The largest number of elements or entries that is read. -/
def maxCount : Nat := 131072

/-- What the head of an item says: its major type and its argument, which is
missing when the length is indefinite. -/
structure Head where
  major : Nat
  info : Nat
  argument : Option Nat

/-- The head of an item and what follows it. -/
def readHead? : List UInt8 → Option (Head × List UInt8)
  | [] => none
  | b :: rest =>
    let major := b.toNat / 32
    let info := b.toNat % 32
    let wide (width : Nat) : Option (Head × List UInt8) :=
      (Bytes.split? width rest).map fun (front, rest) =>
        (⟨major, info, some (Bytes.ofBig front)⟩, rest)
    if info < 24 then some (⟨major, info, some info⟩, rest)
    else if info = 24 then
      (wide 1).filter fun (h, _) => !(major = 7 && h.argument.getD 0 < 32)
    else if info = 25 then wide 2
    else if info = 26 then wide 4
    else if info = 27 then wide 8
    else if info = 31 && 2 ≤ major && major ≤ 5 then
      some (⟨major, info, none⟩, rest)
    else none

/-- Chunks of a string of indefinite length, up to the break. -/
def readChunks? (major : Nat) : Nat → List UInt8 → List (List UInt8) →
    Option (List (List UInt8) × List UInt8)
  | 0, _, _ => none
  | fuel + 1, bytes, chunks =>
    if bytes.head? = some 0xff then some (chunks.reverse, bytes.tail)
    else do
      let (h, rest) ← readHead? bytes
      if h.major ≠ major then none
      let n ← h.argument
      let (chunk, rest) ← Bytes.split? n rest
      readChunks? major fuel rest (chunk :: chunks)

mutual

/-- The item at the head of the input, `depth` levels deep, and what follows
it. -/
def readItem? (fuel depth : Nat) (bytes : List UInt8) :
    Option (Item × List UInt8) :=
  match fuel with
  | 0 => none
  | fuel + 1 => do
    let (h, rest) ← readHead? bytes
    match h.major, h.argument with
    | 0, some n => some (.unsigned n, rest)
    | 1, some n => some (.negative n, rest)
    | 2, some n => (Bytes.split? n rest).map fun (b, rest) => (.bytes b, rest)
    | 2, none => (readChunks? 2 (rest.length + 1)
        rest []).map fun (cs, rest) => (.bytes cs.flatten, rest)
    | 3, some n => (Bytes.split? n rest).map fun (b, rest) => (.text [b], rest)
    | 3, none => (readChunks? 3
        (rest.length + 1) rest []).map fun (cs, rest) => (.text cs, rest)
    | 4, some n =>
      if depth < maxDepth && n ≤ maxCount then
        (readItems? fuel (depth + 1) (some n) rest 0 []).map fun (xs, rest) =>
          (.array xs, rest)
      else none
    | 4, none =>
      if depth < maxDepth then
        (readItems? fuel (depth + 1) none rest 0 []).bind fun (xs, rest) =>
          if xs.length ≤ maxCount then some (.array xs, rest) else none
      else none
    | 5, some n =>
      if depth < maxDepth && n ≤ maxCount then
        (readItems? fuel (depth + 1) (some (2 * n)) rest 0 []).map
          fun (xs, rest) => (.map xs, rest)
      else none
    | 5, none =>
      if depth < maxDepth then
        (readItems? fuel (depth + 1) none rest 0 []).bind fun (xs, rest) =>
          if xs.length % 2 = 0 && xs.length ≤ 2 * maxCount then
            some (.map xs, rest)
          else none
      else none
    | 6, some n =>
      let nested := match rest with
        | b :: _ => b.toNat / 32 == 6
        | [] => false
      if nested && maxDepth ≤ depth then none
      else (readItem? fuel (if nested then depth + 1 else
          depth) rest).map fun (x, rest) =>
        (.tag n x, rest)
    | 7, some n =>
        if h.info = 25 || h.info = 26 || h.info = 27 then some (.float, rest)
        else some (.simple n, rest)
    | _, _ => none

/-- Items up to a given count, or up to the break; `done` are those already
read, the latest first. -/
def readItems? (fuel depth : Nat) (count : Option Nat) (bytes : List UInt8)
    (n : Nat) (done : List Item) : Option (List Item × List UInt8) :=
  match fuel with
  | 0 => none
  | fuel + 1 =>
    let finished := match count with
      | some c => n == c
      | none => bytes.head? == some 0xff
    if finished then
      some (done.reverse, if count.isSome then bytes else bytes.tail)
    else match readItem? fuel depth bytes with
      | none => none
      | some (x, rest) => readItems? fuel depth count rest (n + 1) (x :: done)

end

/-- The one item that fills the input. -/
def Item.decode? (bytes : List UInt8) : Option Item :=
  match readItem? (2 * bytes.length + 2) 0 bytes with
  | some (x, []) => some x
  | _ => none

end Bytecode.Cbor
