import Bytecode.Database.Function.Format
import Bytecode.Database.Token

/-!
# Computing with texts

Parts of texts and byte sequences, the places where others begin in them, and
what they look like in other forms.
-/

namespace Bytecode.Database

/-! ### Patterns

A pattern is a sequence of pieces: some stand for any characters, some for one
character, and some for themselves.  There are two ways to write patterns; in
one of them letters of either case are the same.
-/

/-- A piece of a pattern. -/
inductive PatternPiece where
  | any
  | one
  | letter (c : Char)
  /-- One of some characters, or none of them. -/
  | among (isNot : Bool) (ranges : List (Char × Char))
  /-- Something that nothing is like. -/
  | nothing
  deriving DecidableEq, Repr

namespace PatternPiece

/-- Whether a text consists of what pieces stand for. -/
def isMatch (same : Char → Char → Bool) : List PatternPiece → List Char → Bool
  | [], s => s.isEmpty
  | .any :: pieces, s =>
      (List.range (s.length + 1)).any fun n => isMatch same pieces (s.drop n)
  | .one :: pieces, s =>
    match s with
    | _ :: rest => isMatch same pieces rest
    | [] => false
  | .letter p :: pieces, s =>
    match s with
    | c :: rest => same p c && isMatch same pieces rest
    | [] => false
  | .among isNot ranges :: pieces, s =>
    match s with
    | c :: rest => (ranges.any fun (low, high) => low ≤ c &&
        c ≤ high) ≠ isNot && isMatch same pieces rest
    | [] => false
  | .nothing :: _, _ => false

/-- Pieces without stars that stand beside others. -/
def simplified : List PatternPiece → List PatternPiece
  | .any :: .any :: rest => simplified (.any :: rest)
  | p :: rest => p :: simplified rest
  | [] => []

/-- The pieces of a pattern with per cent signs and underscores; what stands
behind the escape character stands for itself. -/
def ofLike (escape : Option Char) : List Char → List PatternPiece
  | [] => []
  | c :: rest =>
    if escape = some c then
      match rest with
      | d :: rest => .letter d :: ofLike escape rest
      | [] => [.nothing]
    else if c = '%' then .any :: ofLike escape rest
    else if c = '_' then .one :: ofLike escape rest
    else .letter c :: ofLike escape rest

/-- The characters and ranges up to a closing bracket, with what follows it. -/
def rangesOf : List Char → Option (List (Char × Char) × List Char)
  | [] => none
  | ']' :: rest => some ([], rest)
  | a :: '-' :: b :: rest =>
    if b = ']' then some ([(a, a), ('-', '-')], rest)
    else (rangesOf rest).map fun (ranges, rest) =>
           ((a, a) :: (a, b) :: ranges, rest)
  | c :: rest =>
      (rangesOf rest).map fun (ranges, rest) => ((c, c) :: ranges, rest)

/-- The set of characters at the head of a text, from behind its opening
bracket. -/
def setOf (s : List Char) : Option (PatternPiece × List Char) :=
  let (isNot, s) := match s with
    | '^' :: rest => (true, rest)
    | s => (false, s)
  let (first, s) := match s with
    | ']' :: rest => ([(']', ']')], rest)
    | s => ([], s)
  (rangesOf s).map fun (ranges, rest) => (.among isNot (first ++ ranges), rest)

/-- The pieces of a pattern with stars, question marks and sets of
characters. -/
def ofGlob : Nat → List Char → List PatternPiece
  | 0, _ => []
  | _, [] => []
  | fuel + 1, '*' :: rest => .any :: ofGlob fuel rest
  | fuel + 1, '?' :: rest => .one :: ofGlob fuel rest
  | fuel + 1, '[' :: rest =>
    match setOf rest with
    | some (piece, rest) => piece :: ofGlob fuel rest
    | none => [.nothing]
  | fuel + 1, c :: rest => .letter c :: ofGlob fuel rest

/-- Whether two characters are one, Latin letters in either case. -/
def sameLetter (a b : Char) : Bool := a.toLower = b.toLower

end PatternPiece

/-- Whether a text is like a pattern; Latin letters of either case may be
one. -/
def isLike (isExact : Bool) (escape : Option Char) (pattern s : String) :
    Bool :=
  PatternPiece.isMatch (if isExact then (· = ·) else PatternPiece.sameLetter)
    (PatternPiece.simplified (PatternPiece.ofLike escape pattern.toList))
    s.toList

/-- Whether a text is like a pattern with stars. -/
def isGlob (pattern s : String) : Bool :=
  PatternPiece.isMatch (· = ·) (PatternPiece.simplified
    (PatternPiece.ofGlob (pattern.length + 1) pattern.toList)) s.toList

/-! ### Parts and other forms -/

namespace TextFunction

/-- Where a part of something begins and how long it is: positions count from
one, or from the end if they are negative; so do lengths, which then go to the
left. -/
def extent (length : Nat) (start : Int) (count : Option Int) : Nat × Nat :=
  let isBackward : Bool := count.any (· < 0)
  let size : Int := (count.getD 1000000000).natAbs
  let (first, size) : Int × Int :=
    if start < 0 then
      let first := start + length
      if first < 0 then (0, max 0 (size + first)) else (first, size)
    else if 0 < start then (start - 1, size)
    else (0, if 0 < size then size - 1 else size)
  let (first, size) := if isBackward then
      let moved := first - size
      if moved < 0 then (0, max 0 (size + moved)) else (moved, size)
    else (first, size)
  (first.toNat, size.toNat)

/-- A part of a value; bytes have none if there are no bytes. -/
def part (e : Encoding) (v : Value) (start : Int) (count : Option Int) :
    Value :=
  match v with
  | .blob [] => .null
  | .blob bytes =>
    let (first, size) := extent bytes.length start count
    .blob ((bytes.drop first).take size)
  | v =>
    let all := Text.clusters (v.seen e).toList
    let (first, size) := extent all.length start count
    .text (String.ofList ((all.drop first).take size).flatten)

/-- The place where a byte list begins in another, from one on; zero if it does
not.  In a text, bytes that go on with a character are no places. -/
def find (isText : Bool) (part : List UInt8) (n : Nat) (bytes : List UInt8) :
    Nat :=
  match bytes with
  | [] => if part.isEmpty then n else 0
  | b :: rest =>
    if part.isPrefixOf (b :: rest) then n
    else find isText part (n + 1) (if isText then rest.dropWhile Text.continues
      else rest)
termination_by bytes.length
decreasing_by
  have := (List.dropWhile_sublist Text.continues (l := rest)).length_le
  split <;> simp only [List.length_cons] <;> omega

/-- The place where a value begins in another. -/
def position (e : Encoding) (v piece : Value) : Value :=
  match v, piece with
  | .null, _ | _, .null => .null
  | .blob s, .blob t => .integer (find false t 1 s)
  | v, piece => .integer (find true (Text.encode (piece.shown e)) 1
      (Text.encode (v.shown e)))

/-- A byte list without some byte lists at its beginning. -/
def stripped (marks : List (List UInt8)) : Nat → List UInt8 → List UInt8
  | 0, s => s
  | fuel + 1, s =>
    match marks.find? (·.isPrefixOf s) with
    | some m => stripped marks fuel (s.drop m.length)
    | none => s

/-- A text without some characters at its ends. -/
def trim (fromLeft fromRight : Bool) (set s : String) : String :=
  let marks := (Text.clusters set.toList).map (·.flatMap Text.bytesOf)
  let bytes := Text.encode s
  let bytes := if fromLeft then stripped marks bytes.length bytes else bytes
  Text.decode (if fromRight then
    (stripped (marks.map List.reverse) bytes.length bytes.reverse).reverse else
      bytes)

/-- A byte list with another one in place of each occurrence of a third. -/
def substitute (old new : List UInt8) : Nat → List UInt8 → List UInt8
  | 0, s => s
  | _, [] => []
  | fuel + 1, c :: rest =>
    if old.isPrefixOf (c :: rest) then
      new ++ substitute old new fuel ((c :: rest).drop old.length)
    else c :: substitute old new fuel rest

/-- A text with another one in place of each occurrence of a third. -/
def replaced (s old new : String) : String :=
  let bytes := Text.encode s
  Text.decode
    (substitute (Text.encode old) (Text.encode new) (bytes.length + 1) bytes)

/-- The digits of bytes in upper case. -/
def upperHex (bytes : List UInt8) : String :=
  String.ofList ((Text.hexBytes bytes).toList.map Char.toUpper)

/-- The bytes that digits stand for; other characters may stand between pairs of
them. -/
def ofHex? (ignored : List Char) : List Char → Option (List UInt8)
  | [] => some []
  | [c] => if !Token.isHexDigit c && ignored.contains c then some [] else none
  | a :: b :: rest =>
    match Text.hexDigit? a with
    | none => if ignored.contains a then ofHex? ignored (b :: rest) else none
    | some high => do
      let low ← Text.hexDigit? b
      return UInt8.ofNat (16 * high + low) :: (← ofHex? ignored rest)

/-- A value as it could be written in a statement. -/
def quoted : Value → String
  | .null => "NULL"
  | .integer n => Text.integer n
  | .real bits =>
    let exact : Place := { isExact := true, hasZeros := true }
    let short := { exact with precision := some 15 }.double 'g' bits
    match Value.literal? short.toList with
    | some (.real back) =>
      if Float.ofBits back == Float.ofBits bits then short
      else { exact with precision := some 20 }.double 'e' bits
    | _ => short
  | .text s =>
    "\x27" ++ Format.doubled '\x27'
      (String.ofList (s.toList.takeWhile (· ≠ Char.ofNat 0))) ++ "\x27"
  | .blob bytes => "X\x27" ++ upperHex bytes ++ "\x27"

/-- How a word sounds: its first letter and three digits.  Of a byte above the
ASCII ones, seven bits count. -/
def sound (s : String) : String :=
  let code (b : UInt8) : Nat :=
    let c := (Char.ofNat (b.toNat % 0x80)).toLower
    if "bfpv".toList.contains c then 1
    else if "cgjkqsxz".toList.contains c then 2
    else if "dt".toList.contains c then 3
    else if c = 'l' then 4
    else if "mn".toList.contains c then 5
    else if c = 'r' then 6
    else 0
  match (Text.encode s).dropWhile fun b => !(Char.ofNat b.toNat).isAlpha with
  | [] => "?000"
  | first :: rest =>
    let digits := (rest.foldl (fun (found, last) b =>
      let k := code b
      (if k = 0 || k = last then found
      else found ++ [k], k)) ([], code first)).1
    let tail := (digits.take 3).map fun k => Char.ofNat (k + '0'.toNat)
    String.ofList ((Char.ofNat first.toNat).toUpper ::
      (tail ++ List.replicate (3 - tail.length) '0'))

/-- The bytes of the character with a number; one too large stands for what is
unknown. -/
def character (n : Int) : List UInt8 :=
  Text.bytesOfNumber (if n < 0 || 0x10ffff < n then 0xfffd else n.toNat)

end TextFunction

end Bytecode.Database
