import Bytecode.Database.Document

/-!
# Reading documents

The reader takes the strict notation and a loose one, in which labels need no
quotes, numbers can lack digits, comments can stand between values, and more.
It notes whether a document makes use of that, and where it fails to be one.
-/

namespace Bytecode.Database

namespace Document

/-- What is known while a document is read. -/
structure Progress where
  /-- Whether the strict notation has been left. -/
  isLoose : Bool := false
  /-- Where reading failed, or where the mark stands that was met last. -/
  place : Nat := 0

/-- What stands at a place. -/
inductive Item where
  /-- A value, with the place behind it. -/
  | value (d : Document) (next : Nat)
  | closingBrace
  | closingBracket
  | comma
  | colon
  | finish
  | wrong

/-- Reads something. -/
abbrev Read := StateM Progress

namespace Read

/-- Nothing can be read at a place. -/
def fail (place : Nat) : Read Item := do
  modify fun p => { p with place }
  return .wrong

/-- A mark stands at a place. -/
def mark (m : Item) (place : Nat) : Read Item := do
  modify fun p => { p with place }
  return m

/-- The strict notation is left. -/
def loosen : Read Unit := modify fun p => { p with isLoose := true }

/-- The character at a place; there is none behind the end. -/
def peek (cs : Array Char) (i : Nat) : Char := cs.getD i '\x00'

/-- The letters from one place to another. -/
def slice (cs : Array Char) (i j : Nat) : String :=
  String.ofList (cs.extract i j).toList

/-- The first place from which on a question is answered with no. -/
def skip (cs : Array Char) (isFine : Char → Bool) : Nat → Nat → Nat
  | 0, i => i
  | fuel + 1, i =>
      if i < cs.size && isFine (peek cs i) then skip cs isFine fuel (i + 1)
      else i

/-- The first place behind characters of a kind. -/
def past (cs : Array Char) (isFine : Char → Bool) (i : Nat) : Nat :=
  skip cs isFine (cs.size - i) i

/-- Whether a character is a blank of the strict notation. -/
def isBlank (c : Char) : Bool := c = ' ' || c = '\t' || c = '\n' || c = '\r'

/-- Whether a character is a blank of the loose notation. -/
def isWideBlank (c : Char) : Bool :=
  let n := c.toNat
  (9 ≤ n && n ≤ 13) || n = 0x20 || n = 0xa0 || n = 0x1680 ||
    (0x2000 ≤ n && n ≤ 0x200a) || n = 0x2028 || n = 0x2029 || n = 0x202f ||
    n = 0x205f || n = 0x3000 || n = 0xfeff

/-- The place behind the end of a comment that goes up to a star and a stroke,
if it has one. -/
def commentEnd? (cs : Array Char) : Nat → Nat → Option Nat
  | 0, _ => none
  | fuel + 1, j =>
    if cs.size ≤ j then none
    else if peek cs j = '/' && peek cs (j - 1) = '*' then some (j + 1)
    else commentEnd? cs fuel (j + 1)

/-- The place behind blanks and comments of the loose notation. -/
def pastSpace (cs : Array Char) : Nat → Nat → Nat
  | 0, i => i
  | fuel + 1, i =>
    if cs.size ≤ i then i
    else if isWideBlank (peek cs i) then pastSpace cs fuel (i + 1)
    else if peek cs i = '/' then
      if peek cs (i + 1) = '*' then
        match commentEnd? cs cs.size (i + 3) with
        | some j => pastSpace cs fuel j
        | none => i
      else if peek cs (i + 1) = '/' then
        let j := past cs (fun c => c ≠ '\n' && c ≠ '\r' &&
          !Phrase.isSeparator c) (i + 2)
        pastSpace cs fuel (j + 1)
      else i
    else i

/-- Whether letters stand at a place, in either case. -/
def hasWord (cs : Array Char) (i : Nat) (word : String) : Bool :=
  Token.lowered (slice cs i (i + word.length)) = word

/-- Whether a character is a letter or a digit. -/
def isAlphanumeric (c : Char) : Bool := c.isAlphanum

/-- Whether four digits to the base of sixteen stand at a place. -/
def hasUnit (cs : Array Char) (i : Nat) : Bool :=
  [0, 1, 2, 3].all fun k => Token.isHexDigit (peek cs (i + k))

/-- The number from a place up to another one. -/
def finishNumber (cs : Array Char) (i j : Nat) (isHex isReal isLoose : Bool) :
    Read Item :=
  let digits := slice cs (if peek cs i = '+' then i + 1 else i) j
  return .value (if isReal then .real isLoose digits else .whole isHex digits) j

/-- Whether only a point with a digit in front of it stands before a place in a
number. -/
def endsInPoint (cs : Array Char) (i j : Nat) : Bool :=
  peek cs (j - 1) = '.' && i + 2 ≤ j && Token.isDigit (peek cs (j - 2))

/-- Reads on in a number. -/
def digits (cs : Array Char) (i : Nat) :
    Nat → Nat → Bool → Bool → Bool → Read Item
  | 0, j, _, _, _ => fail j
  | fuel + 1, j, isLoose, isReal, hasExponent => do
    let c := peek cs j
    let lacks := peek cs (j - 1) < '0'
    if Token.isDigit c then digits cs i fuel (j + 1) isLoose isReal hasExponent
    else if c = '.' then
      if isReal then fail j
      else digits cs i fuel (j + 1) isLoose true hasExponent
    else
      if lacks then
        if endsInPoint cs i j then loosen else return ← fail j
      if c = 'e' || c = 'E' then
        if hasExponent then fail j
        else
          let k :=
            if peek cs (j + 1) = '+' || peek cs (j + 1) = '-' then j + 1 else j
          if Token.isDigit (peek cs (k + 1)) then
            digits cs i fuel (k + 1) (isLoose || lacks) true true
          else fail k
      else finishNumber cs i j false isReal (isLoose || lacks)

/-- Reads a number. -/
def number (cs : Array Char) (i : Nat) : Read Item := do
  let c := peek cs i
  let rest (isLoose isReal : Bool) : Read Item :=
    digits cs i (cs.size + 2) (i + 1) isLoose isReal false
  let isHexAt (k : Nat) : Bool :=
    peek cs k = '0' && (peek cs (k + 1) = 'x' || peek cs (k + 1) = 'X') &&
      Token.isHexDigit (peek cs (k + 2))
  let hex (k : Nat) : Read Item := do
    loosen
    finishNumber cs i (past cs Token.isHexDigit (k + 2)) true false true
  if c = '+' then loosen
  if c = '.' then
    if Token.isDigit (peek cs (i + 1)) then
      loosen
      rest true true
    else fail i
  else if c = '0' then
    if isHexAt i then hex i
    else if Token.isDigit (peek cs (i + 1)) then fail (i + 1)
    else rest false false
  else if c = '-' || c = '+' then
    if hasWord cs (i + 1) "inf" then
      loosen
      return .value (.real false (if c = '-' then "-9e999" else "9e999"))
        (if hasWord cs (i + 4) "inity" then i + 9 else i + 4)
    else if peek cs (i + 1) = '.' then
      loosen
      rest true false
    else if !Token.isDigit (peek cs (i + 1)) then fail i
    else if peek cs (i + 1) = '0' && Token.isDigit (peek cs (i + 2)) then
      fail (i + 1)
    else if isHexAt (i + 1) then hex (i + 1)
    else rest false false
  else rest false false

/-- Reads on in a text up to its closing quote; `i` is the place of the first
one. -/
def letters (cs : Array Char) (i : Nat) : Nat → Nat → Spelling → Read Item
  | 0, j, _ => fail j
  | fuel + 1, j, s => do
    let c := peek cs j
    if c = peek cs i then
      return .value (.phrase ⟨s, slice cs (i + 1) j⟩) (j + 1)
    else if c = '\\' then
      let e := peek cs (j + 1)
      if ['"', '\\', '/', 'b', 'f', 'n', 'r', 't'].contains e ||
          (e = 'u' && hasUnit cs (j + 2)) then
        letters cs i fuel (j + 2) (if s = .plain then .escaped else s)
      else if e = '\r' && peek cs (j + 2) = '\n' then
        loosen
        letters cs i fuel (j + 3) .loose
      else if ['\x27', 'v', '\n', '\r',
        '0'].contains e || Phrase.isSeparator e || (e = 'x' && Token.isHexDigit
          (peek cs (j + 2)) && Token.isHexDigit (peek cs (j + 3))) then
        loosen
        letters cs i fuel (j + 2) .loose
      else fail (j + 1)
    else if c = '\x00' then fail j
    else if Phrase.isControl c then
      loosen
      letters cs i fuel (j + 1) .loose
    else letters cs i fuel (j + 1) (if c = '"' then .loose else s)

/-- Names for what is no number or too large for one. -/
def names : List (String × Document) :=
  [("inf", .real false "9e999"), ("infinity", .real false "9e999"),
    ("nan", .null), ("qnan", .null), ("snan", .null)]

/-- Reads a word. -/
def word (cs : Array Char) (i : Nat) : Read Item := do
  let isWhole (n : Nat) : Bool := !isAlphanumeric (peek cs (i + n))
  let exact (w : String) : Bool :=
    slice cs i (i + w.length) = w && isWhole w.length
  if exact "true" then return .value .yes (i + 4)
  else if exact "false" then return .value .no (i + 5)
  else if exact "null" then return .value .null (i + 4)
  else match names.find? fun (w, _) => hasWord cs i w && isWhole w.length with
    | some (w, d) =>
      loosen
      return .value d (i + w.length)
    | none => fail i

/-- Whether a label without quotes can begin with a character. -/
def beginsLabel (c : Char) : Bool :=
  c.isAlpha || c = '_' || c = '$' || 0x80 ≤ c.toNat

/-- Whether the escape of a character stands at a place. -/
def hasEscape (cs : Array Char) (k : Nat) : Bool :=
  peek cs k = '\\' && peek cs (k + 1) = 'u' && hasUnit cs (k + 2)

/-- The place behind a label without quotes. -/
def pastLabel (cs : Array Char) : Nat → Nat → Nat
  | 0, k => k
  | fuel + 1, k =>
    let c := peek cs k
    if ((beginsLabel c || Token.isDigit c) && !isWideBlank c) ||
        hasEscape cs k then pastLabel cs fuel (k + 1)
    else k

/-- How deep documents may be nested. -/
def greatestDepth : Nat := 1000

mutual

/-- Reads what stands at a place. -/
def item (cs : Array Char) : Nat → Nat → Nat → Read Item
  | 0, _, i => fail i
  | fuel + 1, depth, i => do
    let c := peek cs i
    if c = '\x00' then return .finish
    else if c = '\x7b' then
      if greatestDepth ≤ depth then fail i
      else members cs fuel (depth + 1) (i + 1) []
    else if c = '[' then
      if greatestDepth ≤ depth then fail i
      else items cs fuel (depth + 1) (i + 1) []
    else if c = '"' then letters cs i cs.size (i + 1) .plain
    else if c = '\x27' then
      loosen
      letters cs i cs.size (i + 1) .plain
    else if c = '\x7d' then mark .closingBrace i
    else if c = ']' then mark .closingBracket i
    else if c = ',' then mark .comma i
    else if c = ':' then mark .colon i
    else if isBlank c then item cs fuel depth (past cs isBlank i)
    else if isWideBlank c || c = '/' then
      let j := pastSpace cs cs.size i
      if j = i then fail i
      else
        loosen
        item cs fuel depth j
    else if Token.isDigit c || c = '-' || c = '+' || c = '.' then number cs i
    else word cs i

/-- Reads items up to the end of their array; those in front come last in the
list. -/
def items (cs : Array Char) : Nat → Nat → Nat → List Document → Read Item
  | 0, _, j, _ => fail j
  | fuel + 1, depth, j, front => do
    match ← item cs fuel depth j with
    | .value d x =>
      let j := past cs isBlank x
      let c := peek cs j
      if c = ',' then items cs fuel depth (j + 1) (d :: front)
      else if c = ']' then return .value (.array (d :: front).reverse) (j + 1)
      else match ← item cs fuel depth j with
        | .comma => items cs fuel depth ((← get).place + 1) (d :: front)
        | .closingBracket =>
            return .value (.array (d :: front).reverse) ((← get).place + 1)
        | _ => fail j
    | .closingBracket =>
      if !front.isEmpty then loosen
      return .value (.array front.reverse) ((← get).place + 1)
    | .wrong => return .wrong
    | _ => fail j

/-- Reads members up to the end of their object; those in front come last in the
list. -/
def members (cs : Array Char) :
    Nat → Nat → Nat → List (Phrase × Document) → Read Item
  | 0, _, j, _ => fail j
  | fuel + 1, depth, j, front => do
    match ← item cs fuel depth j with
    | .value (.phrase label) x => behindLabel cs fuel depth x label front
    | .value _ _ => fail j
    | .closingBrace =>
      if !front.isEmpty then loosen
      return .value (.object front.reverse) ((← get).place + 1)
    | other =>
      let j := pastSpace cs cs.size j
      if beginsLabel (peek cs j) || hasEscape cs j then
        let k := pastLabel cs cs.size (j + 1)
        let name := slice cs j k
        loosen
        behindLabel cs fuel depth k
          ⟨if name.toList.contains '\\' then .escaped else .plain, name⟩ front
      else match other with
        | .wrong => return .wrong
        | _ => fail j

/-- Reads on behind a label. -/
def behindLabel (cs : Array Char) :
    Nat → Nat → Nat → Phrase → List (Phrase × Document) → Read Item
  | 0, _, j, _, _ => fail j
  | fuel + 1, depth, j, label, front => do
    let j := past cs isBlank j
    if peek cs j = ':' then member cs fuel depth (j + 1) label front
    else match ← item cs fuel depth j with
      | .colon => member cs fuel depth ((← get).place + 1) label front
      | .wrong => return .wrong
      | _ => fail j

/-- Reads the value of a member and what stands behind it. -/
def member (cs : Array Char) :
    Nat → Nat → Nat → Phrase → List (Phrase × Document) → Read Item
  | 0, _, j, _, _ => fail j
  | fuel + 1, depth, j, label, front => do
    match ← item cs fuel depth j with
    | .value d x =>
      let j := past cs isBlank x
      let c := peek cs j
      if c = ',' then members cs fuel depth (j + 1) ((label, d) :: front)
      else if c = '\x7d' then
        return .value (.object ((label, d) :: front).reverse) (j + 1)
      else match ← item cs fuel depth j with
        | .comma =>
            members cs fuel depth ((← get).place + 1) ((label, d) :: front)
        | .closingBrace => return .value (.object
            ((label, d) :: front).reverse) ((← get).place + 1)
        | _ => fail j
    | .wrong => return .wrong
    | _ => fail j

end

/-- Reads a document that fills a text, and tells whether it did. -/
def whole (cs : Array Char) : Read (Option Document) := do
  match ← item cs (4 * cs.size + 8) 0 0 with
  | .value d i =>
    let i := past cs isBlank i
    if peek cs i = '\x00' then return some d
    let i := pastSpace cs cs.size i
    if peek cs i = '\x00' then
      loosen
      return some d
    return none
  | _ => return none

end Read

/-- The document that a text is, and whether it is one only in the loose
notation; or else the place of what is wrong with it. -/
def ofText (s : String) : Except Nat (Document × Bool) :=
  match (Read.whole s.toList.toArray).run {} with
  | (some d, p) => .ok (d, p.isLoose)
  | (none, p) => .error p.place

end Document

end Bytecode.Database
