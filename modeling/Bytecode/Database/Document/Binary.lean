import Bytecode.Bytes
import Bytecode.Database.Document

/-!
# Documents as bytes

A value is written as its kind and the size of its content, then the content:
the spelling of a number or a text, the values of an array, the labels and
values of an object in turn.  The place of a value among these bytes is its
number.
-/

namespace Bytecode.Database

namespace Spelling

/-- The number of the kind of texts with a spelling. -/
def kind : Spelling → Nat
  | .plain => 7
  | .escaped => 8
  | .loose => 9
  | .raw => 10

end Spelling

namespace Document

/-- How many bytes stand in front of so many bytes of content. -/
def headSize (size : Nat) : Nat :=
  if size ≤ 11 then 1
  else if size ≤ 0xff then 2 else if size ≤ 0xffff then 3 else 5

/-- What stands in front of content of a kind and size. -/
def head (kind size : Nat) : List UInt8 :=
  if size ≤ 11 then [UInt8.ofNat (16 * size + kind)]
  else if size ≤ 0xff then UInt8.ofNat (16 * 12 + kind) :: Bytes.big 1 size
  else if size ≤ 0xffff then UInt8.ofNat (16 * 13 + kind) :: Bytes.big 2 size
  else UInt8.ofNat (16 * 14 + kind) :: Bytes.big 4 size

/-- Content with what stands in front of it. -/
def node (kind : Nat) (content : List UInt8) : List UInt8 :=
  head kind content.length ++ content

/-- How many bytes a label takes. -/
def labelExtent (p : Phrase) : Nat :=
  headSize (Text.size p.letters) + Text.size p.letters

mutual

/-- How many bytes the content of a document takes. -/
def size : Document → Nat
  | .null | .yes | .no => 0
  | .whole _ digits | .real _ digits => digits.utf8ByteSize
  | .phrase p => Text.size p.letters
  | .array items => itemSizes items
  | .object members => memberSizes members

/-- How many bytes items take. -/
def itemSizes : List Document → Nat
  | [] => 0
  | d :: rest => headSize (size d) + size d + itemSizes rest

/-- How many bytes members take. -/
def memberSizes : List (Phrase × Document) → Nat
  | [] => 0
  | (p, d) :: rest =>
      labelExtent p + (headSize (size d) + size d) + memberSizes rest

end

/-- How many bytes a document takes. -/
def extent (d : Document) : Nat := headSize d.size + d.size

mutual

/-- The bytes of a document. -/
def bytes : Document → List UInt8
  | .null => [0]
  | .yes => [1]
  | .no => [2]
  | .whole isHex digits => node (if isHex then 4 else 3) (Text.utf8 digits)
  | .real isLoose digits => node (if isLoose then 6 else 5) (Text.utf8 digits)
  | .phrase p => node p.spelling.kind (Text.encode p.letters)
  | .array items => node 11 (itemBytes items)
  | .object members => node 12 (memberBytes members)

/-- The bytes of items. -/
def itemBytes : List Document → List UInt8
  | [] => []
  | d :: rest => bytes d ++ itemBytes rest

/-- The bytes of members. -/
def memberBytes : List (Phrase × Document) → List UInt8
  | [] => []
  | (p, d) :: rest =>
      node p.spelling.kind (Text.encode p.letters) ++ bytes d ++
        memberBytes rest

end

/-- The kind of what begins at a place, how many bytes stand in front of its
content, and how many the content takes. -/
def headAt? (bs : Array UInt8) (i : Nat) : Option (Nat × Nat × Nat) := do
  let b ← bs[i]?
  let x := b.toNat / 16
  let n := if x ≤ 11 then 0 else Nat.pow 2 (x - 12)
  let size :=
    if x ≤ 11 then x else Bytes.ofBig (bs.extract (i + 1) (i + 1 + n)).toList
  if bs.size < i + 1 + n + size then none else some (b.toNat % 16, 1 + n, size)

/-- The text of bytes from one place to another. -/
def lettersAt (bs : Array UInt8) (i j : Nat) : String :=
  Encoding.utf8.text (bs.extract i j).toList

mutual

/-- The document that begins at a place, with the place behind it. -/
def read? (bs : Array UInt8) : Nat → Nat → Option (Document × Nat)
  | 0, _ => none
  | fuel + 1, i => do
    let (kind, n, size) ← headAt? bs i
    let start := i + n
    let stop := start + size
    let letters := lettersAt bs start stop
    let filled (d : Document) : Option (Document × Nat) :=
      if size = 0 then none else some (d, stop)
    match kind with
    | 0 => return (.null, stop)
    | 1 => return (.yes, stop)
    | 2 => return (.no, stop)
    | 3 => filled (.whole false letters)
    | 4 => filled (.whole true letters)
    | 5 => filled (.real false letters)
    | 6 => filled (.real true letters)
    | 7 => return (.phrase ⟨.plain, letters⟩, stop)
    | 8 => return (.phrase ⟨.escaped, letters⟩, stop)
    | 9 => return (.phrase ⟨.loose, letters⟩, stop)
    | 10 => return (.phrase ⟨.raw, letters⟩, stop)
    | 11 => return (.array (← readItems? bs fuel start stop), stop)
    | 12 => return (.object (← readMembers? bs fuel start stop), stop)
    | _ => none

/-- The items that stand between two places. -/
def readItems? (bs : Array UInt8) : Nat → Nat → Nat → Option (List Document)
  | 0, _, _ => none
  | fuel + 1, i, stop =>
    if i = stop then some []
    else do
      let (d, j) ← read? bs fuel i
      if stop < j then none else return d :: (← readItems? bs fuel j stop)

/-- The members that stand between two places. -/
def readMembers? (bs : Array UInt8) :
    Nat → Nat → Nat → Option (List (Phrase × Document))
  | 0, _, _ => none
  | fuel + 1, i, stop =>
    if i = stop then some []
    else do
      match ← read? bs fuel i with
      | (.phrase p, j) =>
        let (d, k) ← read? bs fuel j
        if stop < k then none
        else return (p, d) :: (← readMembers? bs fuel k stop)
      | _ => none

end

/-- The document that bytes are, if they are well formed. -/
def ofBytes? (bytes : List UInt8) : Option Document :=
  let bs := bytes.toArray
  (read? bs (2 * bs.size + 4) 0).map (·.1)

/-- The characters of bytes, one for each. -/
def signs (bs : Array UInt8) : Array Char := bs.map fun b => Char.ofNat b.toNat

/-- The first place between two others, counted from one, where a question is
answered with no; zero if there is none. -/
def firstWrong (cs : Array Char) (isFine : Char → Bool) (i j : Nat) : Nat :=
  (((List.range (j - i)).find? fun k => !isFine (cs.getD (i + k) '\x00')).map
    (i + · + 1)).getD 0

/-- What is wrong with the digits of a number between two places, from one
on. -/
def realFault (cs : Array Char) (isLoose : Bool) (stop : Nat) :
    Nat → Nat → Nat → Nat
  | 0, _, _ => 0
  | fuel + 1, seen, j =>
    let c := cs.getD j '\x00'
    if stop ≤ j then if seen = 0 then 1 else 0
    else if Token.isDigit c then realFault cs isLoose stop fuel seen (j + 1)
    else if c = '.' then
      if 0 < seen then j + 1
      else if !isLoose && (j + 1 = stop ||
        !Token.isDigit (cs.getD (j + 1) '\x00')) then j + 1
      else realFault cs isLoose stop fuel 1 (j + 1)
    else if c = 'e' || c = 'E' then
      let next := cs.getD (j + 1) '\x00'
      if seen = 2 || j + 1 = stop then j + 1
      else if next = '+' || next = '-' then
        if j + 2 = stop then j + 2 else realFault cs isLoose stop fuel 2 (j + 2)
      else realFault cs isLoose stop fuel 2 (j + 1)
    else j + 1

/-- What is wrong with a text with escapes between two places, counted from
one. -/
def lettersFault (cs : Array Char) (isLoose : Bool) (stop : Nat) :
    Nat → Nat → Nat
  | 0, _ => 0
  | fuel + 1, j =>
    if stop ≤ j then 0
    else
      let sign (k : Nat) : Char := cs.getD (j + k) '\x00'
      let isHex (k : Nat) : Bool := Token.isHexDigit (sign k)
      if sign 0 = '"' || Phrase.isControl (sign 0) then
        if isLoose then lettersFault cs isLoose stop fuel (j + 1) else j + 1
      else if sign 0 ≠ '\\' then lettersFault cs isLoose stop fuel (j + 1)
      else if stop ≤ j + 1 then j + 1
      else if ['"', '\\', '/', 'b', 'f', 'n', 'r', 't'].contains (sign 1) then
        lettersFault cs isLoose stop fuel (j + 2)
      else if sign 1 = 'u' then
        if stop ≤ j + 5 || !([2, 3, 4, 5].all isHex) then j + 1
        else lettersFault cs isLoose stop fuel (j + 2)
      else if !isLoose then j + 1
      else if ['\x27', 'v', '0', '\n', '\r'].contains (sign 1) then
        lettersFault cs isLoose stop fuel (j + 2)
      else if sign 1 = 'x' && j + 3 < stop && isHex 2 && isHex 3 then
        lettersFault cs isLoose stop fuel (j + 4)
      else if (sign 1).toNat = 0xe2 && j + 3 < stop then
        lettersFault cs isLoose stop fuel (j + 4)
      else j + 1

mutual

/-- What is wrong with the document between two places, counted from one; zero
if nothing is. -/
def faultAt (bs : Array UInt8) : Nat → Nat → Nat → Nat → Nat
  | 0, i, _, _ => i + 1
  | fuel + 1, i, stop, depth =>
    match if 1000 < depth then none else headAt? bs i with
    | none => i + 1
    | some (kind, n, size) =>
      let cs := signs (bs.extract 0 stop)
      let start := i + n
      let isNegative := cs.getD start '\x00' = '-'
      let first := if isNegative then start + 1 else start
      let long := size + (if isNegative then 0 else 1)
      if start + size ≠ stop then i + 1
      else match kind with
        | 0 | 1 | 2 => if n + size = 1 then 0 else i + 1
        | 3 =>
            if long < 2 then i + 1 else firstWrong cs Token.isDigit first stop
        | 4 =>
          if long < 4 || cs.getD first '\x00' ≠ '0' then i + 1
          else if (cs.getD (first + 1) '\x00').toLower ≠ 'x' then first + 2
          else firstWrong cs Token.isHexDigit (first + 2) stop
        | 5 | 6 =>
          let isLoose := kind = 6
          let sign (k : Nat) : Char := cs.getD (first + k) '\x00'
          let rest (seen j : Nat) : Nat :=
            let found := realFault cs isLoose stop (size + 2) seen j
            if found = 1 then i + 1 else found
          if long < 3 then i + 1
          else if sign 0 = '.' then
            if !isLoose || !Token.isDigit (sign 1) then first + 1
            else rest 1 (first + 2)
          else if sign 0 = '0' && !isLoose then
            if stop < first + 3 || !(['.', 'e',
              'E'].contains (sign 1)) then first + 1 else rest 0 (first + 1)
          else rest 0 first
        | 7 => firstWrong cs (fun c => c ≠ '"' && c ≠ '\\' &&
            !Phrase.isControl c) start stop
        | 8 => lettersFault cs false stop (size + 1) start
        | 9 => lettersFault cs true stop (size + 1) start
        | 10 => 0
        | 11 => faultWithin bs fuel start stop (depth + 1) none
        | 12 => faultWithin bs fuel start stop (depth + 1) (some true)
        | _ => i + 1

/-- What is wrong with documents between two places; `isLabel` tells whether the
next one is a label, if some of them are. -/
def faultWithin (bs : Array UInt8) : Nat → Nat → Nat → Nat → Option Bool → Nat
  | 0, j, _, _, _ => j + 1
  | fuel + 1, j, stop, depth, isLabel =>
    if stop ≤ j then if isLabel = some false then j + 1 else 0
    else match headAt? bs j with
      | none => j + 1
      | some (kind, n, size) =>
        if stop < j + n + size ||
            (isLabel = some true && (kind < 7 || 10 < kind)) then j + 1
        else
          let inner := faultAt bs fuel j (j + n + size) depth
          if inner ≠ 0 then inner
          else faultWithin bs fuel (j + n + size) stop depth (isLabel.map (!·))

end

/-- What is wrong with bytes as a document, as a place counted from one; zero if
nothing is. -/
def fault (bytes : List UInt8) : Nat :=
  let bs := bytes.toArray
  faultAt bs (2 * bs.size + 4) 0 bs.size 1

/-- Whether bytes look like a document. -/
def isBinary (bytes : List UInt8) : Bool :=
  let bs := bytes.toArray
  match headAt? bs 0 with
  | none => false
  | some (kind, n, size) =>
    let c := Char.ofNat ((bs.getD 0 0).toNat)
    kind ≤ 12 && n + size = bs.size && (2 < kind || size = 0) && (7 < size ||
      (c ≠ '\x7b' && c ≠ '[' && !Token.isDigit c) || fault bytes = 0)

end Document

end Bytecode.Database
