import Bytecode.Database.Value

/-!
# Documents

A document is a value that can hold others: in arrays one after the other, in
objects behind labels.  Numbers and texts in it keep the spelling that they came
with, so what is read and written again looks as before, apart from the blanks.
-/

namespace Bytecode.Database

/-- How the characters of a text in a document are spelled. -/
inductive Spelling where
  /-- As they are; none of them needs an escape. -/
  | plain
  /-- With the escapes of the strict notation. -/
  | escaped
  /-- With the escapes of the loose notation. -/
  | loose
  /-- As they are, whatever they are. -/
  | raw
  deriving DecidableEq, Repr, Inhabited

/-- A text in a document, or the label of a member. -/
structure Phrase where
  spelling : Spelling
  letters : String
  deriving DecidableEq, Repr, Inhabited

/-- Values that can hold others. -/
inductive Document where
  | null
  | yes
  | no
  /-- A whole number, in the strict notation or with digits to the base of
  sixteen. -/
  | whole (isHex : Bool) (digits : String)
  /-- A number with a fraction or an exponent; one of the loose notation can
  lack digits beside its point. -/
  | real (isLoose : Bool) (digits : String)
  | phrase (p : Phrase)
  | array (items : List Document)
  | object (members : List (Phrase × Document))
  deriving Inhabited

namespace Phrase

/-- The written form of a character that is no sign. -/
def control (c : Char) : List Char :=
  match c with
  | '\x08' => ['\\', 'b']
  | '\t' => ['\\', 't']
  | '\n' => ['\\', 'n']
  | '\x0c' => ['\\', 'f']
  | '\r' => ['\\', 'r']
  | c => "\\u00".toList ++ (Text.hexBytes [UInt8.ofNat c.toNat]).toList

/-- Whether a character is no sign. -/
def isControl (c : Char) : Bool := c.toNat < 0x20

/-- Whether a character ends a line where only some know it. -/
def isSeparator (c : Char) : Bool := c.toNat = 0x2028 || c.toNat = 0x2029

/-- A character with the escape that it needs. -/
def guarded (c : Char) : List Char :=
  if c = '"' || c = '\\' then ['\\', c]
  else if isControl c then control c else [c]

/-- The strict notation of letters of the loose one. -/
def tightened : List Char → List Char
  | [] => []
  | '\\' :: '\x27' :: rest => '\x27' :: tightened rest
  | '\\' :: 'v' :: rest => "\\u0009".toList ++ tightened rest
  | '\\' :: 'x' :: a :: b :: rest => "\\u00".toList ++ [a, b] ++ tightened rest
  | '\\' :: '0' :: rest => "\\u0000".toList ++ tightened rest
  | '\\' :: '\r' :: '\n' :: rest => tightened rest
  | '\\' :: '\r' :: rest => tightened rest
  | '\\' :: '\n' :: rest => tightened rest
  | '\\' :: c :: rest =>
      if isSeparator c then tightened rest else '\\' :: c :: tightened rest
  | c :: rest => (if c = '\\' then [c] else guarded c) ++ tightened rest

/-- A text as it stands in a document. -/
def text (p : Phrase) : String :=
  let inner := match p.spelling with
    | .plain | .escaped => p.letters
    | .loose => String.ofList (tightened p.letters.toList)
    | .raw => String.ofList (p.letters.toList.flatMap guarded)
  "\"" ++ inner ++ "\""

/-- The number that digits to the base of sixteen stand for. -/
def hexNumber (digits : List Char) : Nat :=
  digits.foldl (fun n c => 16 * n + (Text.hexDigit? c).getD 0) 0

/-- What a unit of sixteen bits that is no half of a pair is kept as; a half
alone is three bytes that spell nothing. -/
def unit (n : Nat) : List Char :=
  if 0xd800 ≤ n && n < 0xe000 then (Text.bytesOfNumber n).map Text.stray
  else [Char.ofNat n]

/-- The characters that letters with escapes stand for; each step takes one
character or escape, so there are no more than there are letters. -/
def resolved : Nat → List Char → List Char
  | 0, _ => []
  | _, [] => []
  | fuel + 1, '\\' :: 'u' :: a :: b :: c :: d :: rest =>
    let high := hexNumber [a, b, c, d]
    match rest with
    | '\\' :: 'u' :: e :: f :: g :: h :: more =>
      let low := hexNumber [e, f, g, h]
      if 0xd800 ≤ high && high < 0xdc00 && 0xdc00 ≤ low && low < 0xe000 then
        Text.kept (.inl (Char.ofNat (0x10000 + (high - 0xd800) * 0x400 +
          (low - 0xdc00)))) ++ resolved fuel more
      else unit high ++ resolved fuel rest
    | rest => unit high ++ resolved fuel rest
  | fuel + 1, '\\' :: 'x' :: a :: b :: rest =>
      Char.ofNat (hexNumber [a, b]) :: resolved fuel rest
  | fuel + 1, '\\' :: '\r' :: '\n' :: rest => continued fuel rest
  | fuel + 1, '\\' :: c :: rest =>
    match c with
    | 'b' => '\x08' :: resolved fuel rest
    | 'f' => '\x0c' :: resolved fuel rest
    | 'n' => '\n' :: resolved fuel rest
    | 'r' => '\r' :: resolved fuel rest
    | 't' => '\t' :: resolved fuel rest
    | 'v' => '\x0b' :: resolved fuel rest
    | '0' => '\x00' :: resolved fuel rest
    | '\n' | '\r' => continued fuel rest
    | c =>
      if isSeparator c then continued fuel rest
      else if ['\x27', '"', '/', '\\'].contains c then c :: resolved fuel rest
      else resolved fuel rest
  | fuel + 1, c :: rest => c :: resolved fuel rest
where
  /-- The characters behind the end of a line that does not count. -/
  continued (fuel : Nat) (rest : List Char) : List Char :=
    if rest.isEmpty then ['\x00'] else resolved fuel rest

/-- The characters that a text consists of. -/
def content (p : Phrase) : String :=
  match p.spelling with
  | .plain | .raw => p.letters
  | .escaped | .loose =>
      Text.settled (String.ofList (resolved p.letters.length p.letters.toList))

/-- Whether two labels are the same. -/
def isSame (a b : Phrase) : Bool := a.content = b.content

end Phrase

namespace Document

/-- A whole number to the base of sixteen with decimal digits; one that is too
large is as large as can be. -/
def decimalOfHex (digits : String) : String :=
  let (sign, digits) := match digits.toList with
    | '-' :: rest => ("-", rest)
    | rest => ("", rest)
  let n := Phrase.hexNumber (digits.drop 2)
  sign ++ if n < Word.size64 then Text.decimal 1 n else "9.0e999"

/-- The digits of a number with a zero wherever one is missing beside the
point. -/
def filled : List Char → List Char
  | [] => []
  | '.' :: rest => '.' :: ((if rest.head?.any Token.isDigit then [] else
      ['0']) ++ filled rest)
  | c :: rest => c :: filled rest

/-- A number of the loose notation in the strict one. -/
def strictReal (digits : String) : String :=
  let (sign, digits) := match digits.toList with
    | '-' :: rest => (['-'], rest)
    | rest => ([], rest)
  String.ofList
    (sign ++ (if digits.head? = some '.' then ['0'] else []) ++ filled digits)

mutual

/-- The pieces of the text of a document. -/
def pieces : Document → List String
  | .null => ["null"]
  | .yes => ["true"]
  | .no => ["false"]
  | .whole isHex digits => [if isHex then decimalOfHex digits else digits]
  | .real isLoose digits => [if isLoose then strictReal digits else digits]
  | .phrase p => [p.text]
  | .array items => "[" :: itemPieces true items
  | .object members => "\x7b" :: memberPieces true members

/-- The pieces of items up to the end of their array. -/
def itemPieces (isFirst : Bool) : List Document → List String
  | [] => ["]"]
  | d :: rest =>
      (if isFirst then [] else [","]) ++ pieces d ++ itemPieces false rest

/-- The pieces of members up to the end of their object. -/
def memberPieces (isFirst : Bool) : List (Phrase × Document) → List String
  | [] => ["\x7d"]
  | (p, d) :: rest =>
      (if isFirst then []
      else [","]) ++ p.text :: ":" :: pieces d ++ memberPieces false rest

end

/-- The text of a document, without blanks. -/
def text (d : Document) : String := String.join d.pieces

/-- A piece so far from the left. -/
def margin (indent : String) (depth : Nat) (piece : String) : List String :=
  List.replicate depth indent ++ [piece]

mutual

/-- The pieces of the text of a document on lines of their own, so far from the
left. -/
def linePieces (indent : String) (depth : Nat) : Document → List String
  | .array [] => ["[]"]
  | .array items =>
      "[\n" :: itemLines indent (depth +
        1) true items ++ margin indent depth "]"
  | .object [] => ["\x7b\x7d"]
  | .object members =>
      "\x7b\n" :: memberLines indent (depth +
        1) true members ++ margin indent depth "\x7d"
  | d => [d.text]

/-- The pieces of items on lines of their own. -/
def itemLines (indent : String) (depth : Nat) (isFirst : Bool) :
    List Document → List String
  | [] => ["\n"]
  | d :: rest =>
    (if isFirst then [] else [",\n"]) ++ margin indent depth "" ++
      linePieces indent depth d ++ itemLines indent depth false rest

/-- The pieces of members on lines of their own. -/
def memberLines (indent : String) (depth : Nat) (isFirst : Bool) :
    List (Phrase × Document) → List String
  | [] => ["\n"]
  | (p, d) :: rest =>
    (if isFirst then [] else [",\n"]) ++ margin indent depth p.text ++ [": "] ++
      linePieces indent depth d ++ memberLines indent depth false rest

end

/-- The text of a document with a line for every value. -/
def lines (indent : String) (d : Document) : String :=
  String.join (d.linePieces indent 0)

/-- The name of the kind of a document. -/
def kindName : Document → String
  | .null => "null"
  | .yes => "true"
  | .no => "false"
  | .whole _ _ => "integer"
  | .real _ _ => "real"
  | .phrase _ => "text"
  | .array _ => "array"
  | .object _ => "object"

/-- Whether a document can hold others. -/
def isContainer : Document → Bool
  | .array _ | .object _ => true
  | _ => false

/-- The double that digits spell. -/
def double? (digits : String) : Option Value :=
  (Value.literal? digits.toList).map fun
    | .integer n => .real (Value.wholeDouble n)
    | v => v

/-- The whole number that digits spell, or a double if it does not fit. -/
def wholeValue? (isHex : Bool) (digits : String) : Option Value :=
  if isHex then
    let (isNegative, ds) := match digits.toList with
      | '-' :: rest => (true, rest)
      | rest => (false, rest)
    let n := Phrase.hexNumber (ds.drop 2)
    let signed : Int := if isNegative then -n else n
    if Word.size64 ≤ n then none
    else if 0x8000000000000000 ≤ n then some (.real (Value.wholeDouble signed))
    else some (.integer signed)
  else Value.literal? digits.toList

/-- The value that a document is outside of documents, if its numbers are well
spelled.  One that can hold others is its text. -/
def value? (d : Document) : Option Value :=
  match d with
  | .null => some .null
  | .yes => some (.integer 1)
  | .no => some (.integer 0)
  | .whole isHex digits => wholeValue? isHex digits
  | .real _ digits => double? digits
  | .phrase p => some (.text p.content)
  | d => some (.text d.text)

end Document

end Bytecode.Database
