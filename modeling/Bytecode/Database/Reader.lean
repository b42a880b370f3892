import Bytecode.Database.Statement

/-!
# Reading statements

A reader takes pieces from the head of those that are left.  It refuses the
first piece that cannot stand where it does.
-/

namespace Bytecode.Database

/-- Words that cannot be names. -/
def reserved : List String :=
  ["add", "all", "alter", "and", "as", "autoincrement", "between", "case",
    "check", "collate", "commit", "constraint", "create", "default",
    "deferrable", "delete", "distinct", "drop", "else", "escape", "except",
    "exists", "foreign", "from", "group", "having", "in", "index",
    "insert", "intersect", "into", "is", "isnull", "join", "limit", "not",
    "nothing", "notnull", "null", "on", "or", "order", "primary", "references",
    "returning", "select", "set", "table", "then", "to", "transaction", "union",
    "unique", "update", "using", "values", "when", "where"]

/-- Words that can be values of directives, though they cannot be names. -/
def reservedValues : List String := ["on", "delete", "default"]

/-- Words that say how tables are brought together, and no names that are given
without saying so. -/
def joinWords : List String :=
  ["cross", "full", "inner", "left", "natural", "outer", "right"]

/-- Reads something from the pieces that are left. -/
abbrev Reader := StateT (List Token) (Except Refusal)

namespace Reader

/-- Refuses what stands at the head of the remaining pieces. -/
def refuse {α : Type} : Reader α := fun
  | [] => .error .incomplete
  | t :: _ => .error (if t.kind = .stray then .unrecognized t.text else
      .misplaced t.text)

/-- Refuses with words of its own. -/
def objection {α : Type} (text : String) : Reader α :=
  fun _ => .error (.said text)

/-- The piece at the head. -/
def peek : Reader (Option Token) := return (← get).head?

/-- Whether the piece at the head satisfies a condition. -/
def ahead (p : Token → Bool) : Reader Bool := return (← get).head?.any p

/-- Whether the piece behind the one at the head satisfies a condition. -/
def beyond (p : Token → Bool) : Reader Bool :=
  return ((← get).drop 1).head?.any p

/-- Takes the piece at the head, which must satisfy a condition. -/
def take (p : Token → Bool) : Reader Token := do
  match ← get with
  | t :: rest => if p t then set rest; return t else refuse
  | [] => refuse

/-- Takes the piece at the head if it satisfies a condition. -/
def accept (p : Token → Bool) : Reader Bool := do
  match ← get with
  | t :: rest => if p t then set rest; return true else return false
  | [] => return false

/-- Takes a mark. -/
def mark (s : String) : Reader Unit := do let _ ← take (·.isMark s)

/-- Takes a word. -/
def word (s : String) : Reader Unit := do let _ ← take (·.isWord s)

/-- Takes a mark if it is there. -/
def acceptMark (s : String) : Reader Bool := accept (·.isMark s)

/-- Takes a word if it is there. -/
def acceptWord (s : String) : Reader Bool := accept (·.isWord s)

/-- Takes words if the first of them is there; then the others must be, too. -/
def acceptWords (first : String) (others : List String) : Reader Bool := do
  if ← acceptWord first then
    others.forM word
    return true
  else return false

/-- Whether a word is at the head and another one behind it. -/
def aheadWords (first second : String) : Reader Bool := do
  let isFirst ← ahead (·.isWord first)
  let isSecond ← beyond (·.isWord second)
  return isFirst && isSecond

/-- Whether a piece is a name. -/
def isName (t : Token) : Bool :=
  match t.kind with
  | .word => !reserved.contains (Token.lowered t.text)
  | .name | .text => true
  | _ => false

/-- Whether a piece can be a name that is given without saying so. -/
def isLabel (t : Token) : Bool :=
  isName t && !(t.kind = .word && joinWords.contains (Token.lowered t.text))

/-- The name that a piece is. -/
def nameOf (t : Token) : String := if t.kind = .word then t.text else t.unquoted

/-- Takes a name. -/
def name : Reader String := return nameOf (← take isName)

/-- Takes items with commas between them. -/
def list {α : Type} (item : Reader α) : Reader (List α) := do
  let first ← item
  return first :: (← more (← get).length)
where
  /-- Takes the items behind the first one. -/
  more : Nat → Reader (List α)
    | 0 => return []
    | fuel + 1 => do
      if ← acceptMark "," then
        let x ← item
        return x :: (← more fuel)
      else return []

/-- Takes something as often as it is there. -/
def many {α : Type} (item : Reader (Option α)) :
    Reader (List α) := do go (← get).length
where
  /-- The same, with a bound on how often. -/
  go : Nat → Reader (List α)
    | 0 => return []
    | fuel + 1 => do
      match ← item with
      | some x => return x :: (← go fuel)
      | none => return []

/-- Takes something if a word stands in front of it. -/
def behind {α : Type} (first : String) (item : Reader α) :
    Reader (Option α) := do
  if ← acceptWord first then some <$> item else return none

/-- Takes something between parentheses. -/
def parenthesized {α : Type} (item : Reader α) : Reader α := do
  mark "("
  let x ← item
  mark ")"
  return x

/-- Takes something with the text that it is written as. -/
def spelled {α : Type} (item : Reader α) : Reader (α × String) := do
  let start ← get
  let x ← item
  return (x, Token.spell (start.take (start.length - (← get).length)))

/-- Takes the name of a table. -/
def tableName : Reader TableName := do
  let first ← name
  if ← acceptMark "." then return { database := some first, name := ← name }
  else return { name := first }

/-- Takes a name that may be left out. -/
def optionalName : Reader (Option TableName) := do
  if ← ahead isName then some <$> tableName else return none

/-- Takes names between parentheses, if they are there. -/
def names : Reader (List String) := do
  if ← ahead (·.isMark "(") then parenthesized (list name) else return []

/-- Whether a piece is a number. -/
def isNumber (t : Token) : Bool := t.kind = .number || t.kind = .grouped

/-- Takes the direction of an order; the result tells whether it is
descending. -/
def direction : Reader Bool := do
  if ← acceptWord "desc" then return true
  let _ ← acceptWord "asc"
  return false

/-- Takes a word for what is done with a row that cannot stand where it
should. -/
def policy : Reader Policy := do
  if ← acceptWord "ignore" then return .ignore
  else if ← acceptWord "replace" then return .replace
  else if ← acceptWord "rollback" then return .rollback
  else if ← acceptWord "abort" then return .abort
  else
    word "fail"
    return .fail

/-- Takes what is to happen if a clause does not hold. -/
def onConflict : Reader (Option Policy) := do
  if ← acceptWords "on" ["conflict"] then some <$> policy else return none

/-- Whether the digits of a number are grouped as they may be: there is a digit
on both sides of an underscore. -/
def isGrouped (digits : List Char) : Bool :=
  let at? (n : Nat) : Bool := digits[n]?.any Token.isHexDigit
  digits.zipIdx.all fun (c, n) => c ≠ '_' ||
    (n ≠ 0 && at? (n - 1) && at? (n + 1))

/-- Takes a number. -/
def number : Reader String := do
  let t ← take isNumber
  if !isGrouped t.text.toList then throw (.unrecognized t.text)
  return String.ofList (t.text.toList.filter (· ≠ '_'))

/-- What is left of a written type: words at its end that belong to a computed
column do not count, nor do quotes around it. -/
def typeOf (written : String) : String :=
  let all := written.toList
  let trimmed (s : List Char) : List Char :=
    (s.reverse.dropWhile Token.isBlank).reverse
  let without (word : String) (s : List Char) : Option (List Char) :=
    let front := s.take (s.length - word.length)
    if Token.lowered (String.ofList (s.drop front.length)) = word then
      some (trimmed front)
    else none
  let own := if all.length < 16 then all
    else match without "always" all with
      | none => all
      | some s => (without "generated" s).getD s
  let isQuote (c : Char) : Bool := ['\x27', '"', '\x60', '['].contains c
  let inner := own.tail.dropLast
  let own :=
    if 3 ≤ own.length && own.head?.any isQuote && !inner.any isQuote then inner
    else own
  match own with
  | [] => ""
  | c :: rest =>
    if isQuote c then
      let close := if c = '[' then ']' else c
      String.ofList (upTo close rest)
    else String.ofList own
where
  /-- What stands in front of a closing quote; one that is written twice does
  not close. -/
  upTo (close : Char) : List Char → List Char
    | c :: d :: rest =>
      if c = close then if d = close then c :: upTo close rest else []
      else c :: upTo close (d :: rest)
    | [c] => if c = close then [] else [c]
    | [] => []

/-- Takes the words of a type, and its sizes. -/
def type : Reader String := do
  let start ← get
  let words ← many do if ← accept isLabel then return some () else return none
  if words.isEmpty then return ""
  if ← acceptMark "(" then
    size
    if ← acceptMark "," then size
    mark ")"
  return typeOf (Token.spell (start.take (start.length - (← get).length)))
where
  /-- Takes a size with its sign. -/
  size : Reader Unit := do
    let _ ← accept fun t => t.isMark "-" || t.isMark "+"
    let _ ← number

end Reader

end Bytecode.Database
