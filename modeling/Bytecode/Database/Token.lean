import Bytecode.Text.Digits

/-!
# The pieces of statements

A statement is a text of words, quoted names and texts, numbers and marks, with
blanks and comments between them.  Every piece keeps what stood in front of it,
so the pieces spell the text they came from.
-/

namespace Bytecode.Database

/-- What a piece of a statement is. -/
inductive TokenKind where
  | word
  /-- A name between quotes. -/
  | name
  /-- A text between apostrophes. -/
  | text
  /-- Bytes in hexadecimal digits between apostrophes, behind an x. -/
  | bytes
  | number
  /-- A number with underscores. -/
  | grouped
  | mark
  /-- A place that a value is put into. -/
  | place
  /-- Characters that are no piece of any statement. -/
  | stray
  deriving DecidableEq, Repr

/-- A piece of a statement. -/
structure Token where
  kind : TokenKind
  text : String
  /-- Blanks and comments in front of the piece. -/
  before : String := ""
  deriving DecidableEq, Repr

namespace Token

/-- Characters between pieces. -/
def isBlank (c : Char) : Bool :=
  c = ' ' || c = '\t' || c = '\n' || c = '\x0c' || c = '\r' ||
    c = Char.ofNat 0xfeff

/-- Decimal digits. -/
def isDigit (c : Char) : Bool := '0' ≤ c && c ≤ '9'

/-- Hexadecimal digits. -/
def isHexDigit (c : Char) : Bool := (Text.hexDigit? c).isSome

/-- Characters a word may begin with. -/
def beginsWord (c : Char) : Bool := c.isAlpha || c = '_' || 0x80 ≤ c.toNat

/-- Characters a word may go on with. -/
def continuesWord (c : Char) : Bool := beginsWord c || isDigit c || c = '$'

/-- The length of the comment at the head of a text: behind two hyphens to the
end of the line, or behind a slash and a star to a star and a slash.  A comment
that is not closed goes to the end. -/
def comment? : List Char → Option Nat
  | '-' :: '-' :: rest => some (2 + (rest.takeWhile (· ≠ '\n')).length)
  | '/' :: '*' :: c :: rest => some (2 + body (c :: rest))
  | _ => none
where
  /-- The length of a comment from behind its opening. -/
  body : List Char → Nat
    | [] => 0
    | ['*'] => 1
    | '*' :: '/' :: _ => 2
    | _ :: rest => 1 + body rest

/-- How many characters follow up to the closing quote, that one included; a
quote that is written twice does not close. -/
def closing? (quote : Char) : List Char → Option Nat
  | [] => none
  | [c] => if c = quote then some 1 else none
  | c :: d :: rest =>
    if c = quote then
      if d = quote then (closing? quote rest).map (· + 2) else some 1
    else (closing? quote (d :: rest)).map (· + 1)

/-- Marks of several characters, the longer ones first. -/
def longMarks : List String :=
  ["->>", "==", "<=", "<>", "<<", ">=", ">>", "!=", "||", "->"]

/-- Marks of one character. -/
def marks : List Char :=
  ['(', ')', ';', '+', '-', '*', '/', '%', '=', '<', '>', '|', ',', '&',
    '~', '.']

/-- How many digits of a kind stand at the head of a text; underscores may stand
among them. -/
def run (isDigit : Char → Bool) (s : List Char) : Nat :=
  (s.takeWhile fun c => isDigit c || c = '_').length

/-- How many characters at the head of a text are an exponent. -/
def exponent (s : List Char) : Nat :=
  match s with
  | c :: d :: rest =>
    if c ≠ 'e' && c ≠ 'E' then 0
    else if isDigit d then 1 + run isDigit (d :: rest)
    else if (d = '+' || d = '-') && rest.head?.any isDigit then
      2 + run isDigit rest
    else 0
  | _ => 0

/-- How many characters at the head of a text are a number. -/
def numberLength (s : List Char) : Nat :=
  match s with
  | '0' :: x :: c :: rest =>
    if (x = 'x' || x = 'X') && isHexDigit c then 3 + run isHexDigit rest
    else decimal s
  | s => decimal s
where
  /-- The same for decimal digits, a fraction and an exponent. -/
  decimal (s : List Char) : Nat :=
    let whole := run isDigit s
    let point := match s.drop whole with
      | '.' :: rest => 1 + run isDigit rest
      | _ => 0
    whole + point + exponent (s.drop (whole + point))

/-- The number at the head of a text.  Characters of a word that touch it spoil
it. -/
def firstNumber (s : List Char) : TokenKind × Nat :=
  let n := numberLength s
  let spoiled := ((s.drop n).takeWhile continuesWord).length
  if spoiled ≠ 0 then (.stray, n + spoiled)
  else if (s.take n).contains '_' then (.grouped, n)
  else (.number, n)

/-- The bytes at the head of a text, from behind the opening apostrophe: pairs
of digits up to the closing one. -/
def firstBytes (s : List Char) : TokenKind × Nat :=
  let digits := (s.takeWhile isHexDigit).length
  if (s.drop digits).head? = some '\x27' && digits % 2 = 0 then
    (.bytes, digits + 3)
  else
    let all := (s.takeWhile (· ≠ '\x27')).length
    (.stray, min (all + 1) s.length + 2)

/-- How far a place for a value goes, from behind its first character, and
whether it is one: it has a name, in which double colons may stand, and perhaps
a text between parentheses behind it. -/
def placeLength (named : Bool) : List Char → Bool × Nat
  | ':' :: ':' :: rest =>
    let (ok, n) := placeLength named rest
    (ok, n + 2)
  | c :: rest =>
    if continuesWord c then
      let (ok, n) := placeLength true rest
      (ok, n + 1)
    else if c = '(' && named then
      let inner := (rest.takeWhile fun d => !isSpace d && d ≠ ')').length
      if (rest.drop inner).head? = some ')' then (true, inner + 2)
      else (false, inner + 1)
    else (named, 0)
  | [] => (named, 0)
where
  /-- Blanks and vertical tabs. -/
  isSpace (c : Char) : Bool := c = ' ' || ('\t' ≤ c && c ≤ '\r')

/-- What the piece that begins with `c` is, and how many characters it has.  A
quote that is not closed spoils everything behind it. -/
def first (c : Char) (rest : List Char) : TokenKind × Nat :=
  let quoted (kind : TokenKind) : TokenKind × Nat :=
    match closing? c rest with
    | some n => (kind, 1 + n)
    | none => (.stray, 1 + rest.length)
  if (c = 'x' || c = 'X') && rest.head? = some '\x27' then firstBytes rest.tail
  else if beginsWord c then (.word, 1 + (rest.takeWhile continuesWord).length)
  else if isDigit c || (c = '.' && rest.head?.any isDigit) then
    firstNumber (c :: rest)
  else if c = '\x27' then quoted .text
  else if c = '"' || c = '\x60' then quoted .name
  else if c = '[' then
    if rest.contains ']' then (.name, 2 + (rest.takeWhile (· ≠ ']')).length)
    else (.stray, 1 + rest.length)
  else if c = '$' || c = '@' || c = '#' || c = ':' then
    let (ok, n) := placeLength false rest
    (if ok then .place else .stray, 1 + n)
  else if c = '?' then (.place, 1 + (rest.takeWhile isDigit).length)
  else
    match longMarks.find? fun m => m.toList.isPrefixOf (c :: rest) with
    | some m => (.mark, m.length)
    | none => if marks.contains c then (.mark, 1) else (.stray, 1)

/-- The pieces of a text, of which blanks and comments stand in front. -/
def scan (before : List Char) (s : List Char) : List Token :=
  match s with
  | [] => []
  | c :: rest =>
    if isBlank c then scan (before ++ [c]) rest
    else
      match comment? (c :: rest) with
      | some n => scan (before ++ (c :: rest).take n) (rest.drop (n - 1))
      | none =>
        let (kind, n) := first c rest
        { kind, text := String.ofList ((c :: rest).take n),
          before := String.ofList before } :: scan [] (rest.drop (n - 1))
termination_by s.length
decreasing_by
  all_goals
    simp only [List.length_drop, List.length_cons]
    omega

/-- The pieces of a text. -/
def all (s : String) : List Token := scan [] s.toList

/-- The text that pieces spell, from the first piece on. -/
def spell : List Token → String
  | [] => ""
  | t :: rest => t.text ++ String.join (rest.map fun t => t.before ++ t.text)

/-- Whether a piece is a given mark. -/
def isMark (t : Token) (s : String) : Bool := t.kind = .mark && t.text = s

/-- A text in lower case, as far as its letters are Latin. -/
def lowered (s : String) : String := String.ofList (s.toList.map Char.toLower)

/-- Whether a piece is a given word. -/
def isWord (t : Token) (s : String) : Bool :=
  t.kind = .word && lowered t.text = s

/-- What stands between the quotes of a piece. -/
def unquoted (t : Token) : String :=
  match t.text.toList with
  | '[' :: rest => String.ofList rest.dropLast
  | quote :: rest => String.ofList (single quote rest.dropLast)
  | [] => ""
where
  /-- A quote that is written twice stands for one. -/
  single (quote : Char) : List Char → List Char
    | c :: d :: rest =>
      if c = quote && d = quote then c :: single quote rest
      else c :: single quote (d :: rest)
    | s => s

end Token

end Bytecode.Database
