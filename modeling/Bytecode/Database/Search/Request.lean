import Bytecode.Database.Failure
import Bytecode.Database.Token

/-!
# What a search asks for

A word is a run of letters and digits.  It is compared without regard to case
and to accents; it may also be reduced to its stem.  Another form takes every
three characters in a row for a word.

A request asks for words that follow each other, for several of them near to
each other, perhaps in some columns only, and combines such wishes.  What it
finds in a row are places of words.
-/

namespace Bytecode.Database

/-! ### Stems

English words lose their endings, so that forms of one word are found together.
Endings go in five steps; whether one goes depends on how many times vowels are
followed by consonants in front of it.
-/

namespace Stem

/-- Whether each letter of a word is a vowel; `y` is one behind a consonant. -/
def vowels (word : List Char) : List Bool :=
  (word.foldl (fun (found : List Bool) c =>
    let isVowel : Bool := ['a', 'e', 'i', 'o', 'u'].contains c ||
      (c = 'y' && found.head? = some false)
    isVowel :: found) []).reverse

/-- How many times vowels are followed by consonants. -/
def measure (word : List Char) : Nat :=
  let vs := vowels word
  ((vs.zip vs.tail).filter fun (a, b) => a && !b).length

/-- Whether there is a vowel in a word. -/
def hasVowel (word : List Char) : Bool := (vowels word).contains true

/-- Whether a word ends in a consonant, a vowel and a consonant that is not one
of `wxy`. -/
def isShort (word : List Char) : Bool :=
  match (vowels word).reverse, word.reverse with
  | false :: true :: false :: _, c :: _ => !(['w', 'x', 'y'].contains c)
  | _, _ => false

/-- Whether a word ends in two equal consonants. -/
def endsDouble (word : List Char) : Bool :=
  match word.reverse, (vowels word).reverse with
  | a :: b :: _, false :: _ => a = b
  | _, _ => false

/-- What stands in front of an ending, if a word has it. -/
def front? (word : List Char) (ending : String) : Option (List Char) :=
  let n := word.length - ending.length
  if ending.length < word.length && word.drop n = ending.toList then
    some (word.take n)
  else none

/-- The first of some endings that a word has gives way to another, if a
condition holds. -/
def swap (isAllowed : List Char → Bool) (pairs : List (String × String))
    (word : List Char) : List Char :=
  match pairs.findSome? fun (old, new) => (front? word old).map (·, new) with
  | some (front, new) => if isAllowed front then front ++ new.toList else word
  | none => word

/-- The ending of the plural goes. -/
def plural (word : List Char) : List Char :=
  match word.reverse with
  | 's' :: 'e' :: 's' :: 's' :: _ :: _ => word.dropLast.dropLast
  | 's' :: 'e' :: 'i' :: _ :: _ => word.dropLast.dropLast
  | 's' :: 's' :: _ => word
  | 's' :: _ => word.dropLast
  | _ => word

/-- A word that has lost an ending is made whole. -/
def mended (word : List Char) : List Char :=
  let isOpen : Bool := ["at", "bl", "iz"].any fun e => (front? word e).isSome
  if isOpen then word ++ ['e']
  else if endsDouble word && !(word.getLast?.any
    fun c => ['l', 's', 'z'].contains c) then word.dropLast
  else if measure word = 1 && isShort word then word ++ ['e']
  else word

/-- The endings of the past and of what goes on go. -/
def past (word : List Char) : List Char :=
  match front? word "eed" with
  | some front => if 0 < measure front then front ++ ['e', 'e'] else word
  | none =>
    match (front? word "ed").or (front? word "ing") with
    | some front => if hasVowel front then mended front else word
    | none => word

/-- A last `y` behind a vowel somewhere becomes `i`. -/
def softened (word : List Char) : List Char :=
  match front? word "y" with
  | some front => if hasVowel front then front ++ ['i'] else word
  | none => word

/-- Endings that stand behind others. -/
def doubled : List (String × String) :=
  [("ational", "ate"), ("tional", "tion"), ("enci", "ence"), ("anci", "ance"),
    ("izer", "ize"), ("logi", "log"),
    ("bli", "ble"), ("alli", "al"), ("entli", "ent"), ("eli", "e"),
    ("ousli", "ous"), ("ization", "ize"), ("ation", "ate"), ("ator", "ate"),
    ("alism", "al"), ("iveness", "ive"), ("fulness", "ful"),
    ("ousness", "ous"), ("aliti", "al"), ("iviti", "ive"), ("biliti", "ble")]

/-- Endings that are left then. -/
def single : List (String × String) :=
  [("icate", "ic"), ("ative", ""), ("alize", "al"), ("iciti", "ic"),
    ("ical", "ic"), ("ful", ""), ("ness", "")]

/-- Endings that go altogether. -/
def last : List (String × String) :=
  ["al", "ance", "ence", "er", "ic", "able", "ible", "ant", "ement", "ment",
    "ent", "ou", "ism", "ate", "iti", "ous", "ive", "ize"].map (·, "")

/-- The last endings go. -/
def bare (word : List Char) : List Char :=
  match front? word "ion" with
  | some front =>
    if 1 < measure front &&
        (front.getLast?.any fun c => c = 's' || c = 't') then front else word
  | none => swap (1 < measure ·) last word

/-- A last `e` goes, and one of two `l`. -/
def trimmed (word : List Char) : List Char :=
  let word := match front? word "e" with
    | some front =>
        if 1 < measure front || (measure front = 1 && !isShort front) then front
        else word
    | none => word
  match word.reverse with
  | 'l' :: 'l' :: _ => if 1 < measure word.dropLast then word.dropLast else word
  | _ => word

/-- The stem of a word in lower case. -/
def ofWord (word : List Char) : List Char :=
  if word.length < 3 || 64 < word.length then word
  else
    let word := softened (past (plural word))
    trimmed
      (bare (swap (0 < measure ·) single (swap (0 < measure ·) doubled word)))

end Stem

/-! ### Words -/

/-- A word of a text. -/
structure Word where
  /-- What it is compared by. -/
  key : String
  /-- The places of its first character, and behind its last one. -/
  start : Nat
  stop : Nat
  deriving DecidableEq, Repr, Inhabited

/-- What counts as a word. -/
inductive WordForm where
  | plain
  /-- Only letters of the smallest alphabet have cases. -/
  | simple
  | stemmed
  /-- Every three characters in a row. -/
  | triples
  deriving DecidableEq, Repr, Inhabited

namespace Word

/-- Ranges of characters beyond the smallest set that are no letters or digits,
both ends included. -/
def others : List (Nat × Nat) :=
  [(0x80, 0xa9), (0xab, 0xb1), (0xb4, 0xb4), (0xb6, 0xb8), (0xbb, 0xbb),
    (0xbf, 0xbf), (0xd7, 0xd7), (0xf7, 0xf7), (0x2c2, 0x2c5), (0x2d2, 0x2df),
    (0x37e, 0x37e), (0x387, 0x387), (0x589, 0x58f), (0x2000, 0x206f),
    (0x20a0, 0x20cf), (0x2100, 0x2101), (0x2103, 0x2106), (0x2190, 0x245f),
    (0x249c, 0x24e9), (0x2500, 0x2775), (0x2794, 0x2bff), (0x2e00, 0x2fff),
    (0x3000, 0x3004), (0x3008, 0x3020), (0x3030, 0x3030), (0xfe10, 0xfe6f),
    (0xff00, 0xff0f), (0xff1a, 0xff20), (0xff3b, 0xff40), (0xff5b, 0xff65),
    (0xffe0, 0xffff), (0x1f000, 0x1faff)]

/-- Whether a character is a part of a word. -/
def isPart (c : Char) : Bool :=
  let n := c.toNat
  if n < 0x80 then c.isAlphanum else !(others.any fun (a, b) => a ≤ n && n ≤ b)

/-- Whether a character only adds an accent to the one in front. -/
def isAccent (c : Char) : Bool := 0x300 ≤ c.toNat && c.toNat ≤ 0x36f

/-- The small letter for a capital one. -/
def lowered (c : Char) : Char :=
  let n := c.toNat
  if n < 0x80 then c.toLower
  else if (0xc0 ≤ n && n ≤ 0xde && n ≠ 0xd7) || (0x391 ≤ n &&
    n ≤ 0x3a9) || (0x410 ≤ n && n ≤ 0x42f) then
    Char.ofNat (n + 32)
  else if 0x400 ≤ n && n ≤ 0x40f then Char.ofNat (n + 80)
  else if ((0x100 ≤ n && n ≤ 0x137) ||
    (0x14a ≤ n && n ≤ 0x177)) && n % 2 = 0 then Char.ofNat (n + 1)
  else if ((0x139 ≤ n && n ≤ 0x148) ||
    (0x179 ≤ n && n ≤ 0x17e)) && n % 2 = 1 then Char.ofNat (n + 1)
  else c

/-- Ranges of small letters with accents, both ends included, and the letters
without. -/
def accented : List (Nat × Nat × Char) :=
  [(0xe0, 0xe5, 'a'), (0xe7, 0xe7, 'c'), (0xe8, 0xeb, 'e'), (0xec, 0xef, 'i'),
    (0xf1, 0xf1, 'n'), (0xf2, 0xf6, 'o'), (0xf9, 0xfc, 'u'), (0xfd, 0xfd, 'y'),
    (0xff, 0xff, 'y'), (0x100, 0x105, 'a'), (0x106, 0x10d, 'c'),
    (0x10e, 0x10f, 'd'), (0x112, 0x11b, 'e'), (0x11c, 0x123, 'g'),
    (0x124, 0x125, 'h'), (0x128, 0x130, 'i'), (0x134, 0x135, 'j'),
    (0x136, 0x137, 'k'), (0x139, 0x13e, 'l'), (0x143, 0x148, 'n'),
    (0x14c, 0x151, 'o'), (0x154, 0x159, 'r'), (0x15a, 0x161, 's'),
    (0x162, 0x165, 't'), (0x168, 0x173, 'u'),
    (0x174, 0x175, 'w'), (0x176, 0x178, 'y'), (0x179, 0x17e, 'z')]

/-- A character as it is compared. -/
def folded (c : Char) : Char :=
  let c := lowered c
  ((accented.find? fun (a, b, _) => a ≤ c.toNat && c.toNat ≤ b).map
    fun (_, _, base) => base).getD c

/-- The words of a text from a place on; `front` is the word that is being read,
its last character first, and the place where it began. -/
def split (isPart : Char → Bool) :
    Nat → Option (List Char × Nat) → List Char → List (List Char × Nat × Nat)
  | n, front, [] => front.toList.map fun (cs, start) => (cs.reverse, start, n)
  | n, none, c :: rest =>
      split isPart (n + 1) (if isPart c then some ([c], n) else none) rest
  | n, some (cs, start), c :: rest =>
    if isPart c then split isPart (n + 1) (some (c :: cs, start)) rest
    else (cs.reverse, start, n) :: split isPart (n + 1) none rest

/-- Every three characters in a row from a place on. -/
def triples : Nat → List Char → List Word
  | n, a :: b :: c :: rest =>
    { key := String.ofList ([a, b, c].map lowered), start := n,
      stop := n + 3 } :: triples (n + 1) (b :: c :: rest)
  | _, _ => []

/-- The words of a text. -/
def all (form : WordForm) (text : String) : List Word :=
  let cut (isPart : Char → Bool) (key : List Char → List Char) : List Word :=
    (split isPart 0 none text.toList).map fun (cs, start, stop) =>
      { key := String.ofList (key cs), start, stop }
  let plainKey (cs : List Char) : List Char :=
    (cs.filter (!isAccent ·)).map folded
  match form with
  | .plain => cut isPart plainKey
  | .simple =>
      cut (fun c => c.isAlphanum || 0x80 ≤ c.toNat) (·.map Char.toLower)
  | .stemmed => cut isPart fun cs => Stem.ofWord (plainKey cs)
  | .triples => triples 0 text.toList

end Word

/-! ### Requests -/

/-- Words that follow each other. -/
structure Needle where
  /-- The words, and whether each may also be only the beginning of one. -/
  words : List (String × Bool) := []
  /-- Whether they stand at the beginning of a column. -/
  isFirst : Bool := false
  deriving DecidableEq, Repr, Inhabited

/-- Needles near to each other. -/
structure Nearby where
  needles : List Needle
  /-- How many words may stand between them. -/
  distance : Nat := 10
  /-- The columns that are looked at, if not all are. -/
  columns : Option (List Nat) := none
  deriving DecidableEq, Repr, Inhabited

/-- What a search asks for. -/
inductive Request where
  | near (n : Nearby)
  | both (a b : Request)
  | either (a b : Request)
  | without (a b : Request)
  deriving Inhabited

/-- A place where a needle is found. -/
structure Hit where
  /-- The place of the needle in the request. -/
  needle : Nat
  column : Nat
  /-- The first word, and how many there are. -/
  start : Nat
  length : Nat
  deriving DecidableEq, Repr, Inhabited

namespace Needle

/-- Whether words stand at the head of others. -/
def isAhead : List (String × Bool) → List String → Bool
  | [], _ => true
  | _ :: _, [] => false
  | (w, isOpen) :: ws, x :: xs =>
    (if isOpen then w.toList.isPrefixOf x.toList else w = x) && isAhead ws xs

/-- The places where the words of a needle begin among those of a column. -/
def places (n : Needle) (words : List String) : List Nat :=
  if n.words.isEmpty then []
  else (List.range (if n.isFirst then min 1 words.length else
      words.length)).filter fun k =>
    isAhead n.words (words.drop k)

end Needle

namespace Nearby

/-- All ways to take one place for each needle. -/
def choices : List (List Nat) → List (List Nat)
  | [] => [[]]
  | ps :: rest => ps.flatMap fun p => (choices rest).map (p :: ·)

/-- Whether places of needles are near to each other. -/
def isNear (n : Nearby) (places : List Nat) : Bool :=
  let last := places.foldl max 0
  (places.zip n.needles).all fun (p, x) =>
    last ≤ p + x.words.length + n.distance

/-- The places of needles in a row, by columns; the first needle has a given
number. -/
def hits (n : Nearby) (first : Nat) (row : List (List String)) : List Hit :=
  row.zipIdx.flatMap fun (words, column) =>
    if n.columns.any (!·.contains column) then []
    else
      let all := n.needles.map (·.places words)
      let kept := if n.needles.length = 1 then all
        else
          let fine := (choices all).filter n.isNear
          (List.range n.needles.length).map fun k =>
            (fine.map fun c => c.getD k 0).eraseDups
      (kept.zip n.needles).zipIdx.flatMap fun ((ps, x), k) =>
        ps.map fun start =>
          { needle := first + k, column, start, length := x.words.length }

end Nearby

namespace Request

/-- How many needles there are. -/
def count : Request → Nat
  | .near n => n.needles.length
  | .both a b | .either a b | .without a b => a.count + b.count

/-- All needles with the columns that they are looked for in. -/
def needles : Request → List (Needle × Option (List Nat))
  | .near n => n.needles.map (·, n.columns)
  | .both a b | .either a b | .without a b => a.needles ++ b.needles

/-- The places in a row, if it is what is asked for; the first needle has a
given number. -/
def hits? (first : Nat) (row : List (List String)) : Request → Option (List Hit)
  | .near n =>
    let found := n.hits first row
    if found.isEmpty then none else some found
  | .both a b => do return (← a.hits? first row) ++ (← b.hits?
      (first + a.count) row)
  | .either a b =>
    match a.hits? first row, b.hits? (first + a.count) row with
    | none, none => none
    | x, y => some (x.getD [] ++ y.getD [])
  | .without a b =>
    if (b.hits? (first + a.count) row).isSome then none else a.hits? first row

/-- The same in some columns only. -/
def within (columns : List Nat) : Request → Request
  | .near n => .near { n with columns := some (match n.columns with
      | some old => old.filter columns.contains
      | none => columns) }
  | .both a b => .both (a.within columns) (b.within columns)
  | .either a b => .either (a.within columns) (b.within columns)
  | .without a b => .without (a.within columns) (b.within columns)

/-- A piece of the text of a request. -/
inductive Piece where
  | mark (c : Char)
  | text (s : String)
  | and
  | or
  | not
  deriving DecidableEq, Repr

namespace Piece

/-- A piece as it is written. -/
def spelling : Piece → String
  | .mark c => String.singleton c
  | .text s => s
  | .and => "AND"
  | .or => "OR"
  | .not => "NOT"

/-- Whether a character can be a part of a text without quotes. -/
def isBare (c : Char) : Bool :=
  c.isAlphanum || c = '_' || c.toNat = 0x1a || 0x80 ≤ c.toNat

/-- The letters up to a closing quote, with what follows; a doubled quote is
one. -/
def quoted? : List Char → Option (List Char × List Char)
  | [] => none
  | '"' :: '"' :: rest => (quoted? rest).map fun (s, more) => ('"' :: s, more)
  | '"' :: rest => some ([], rest)
  | c :: rest => (quoted? rest).map fun (s, more) => (c :: s, more)

/-- The pieces of a text; there are no more than characters. -/
def all : Nat → List Char → Except String (List Piece)
  | 0, _ => .ok []
  | _, [] => .ok []
  | fuel + 1, c :: rest =>
    if [' ', '\t', '\n', '\r'].contains c then all fuel rest
    else if ['(', ')', '\x7b', '\x7d', ':', ',', '+', '*', '-',
      '^'].contains c then do
      return .mark c :: (← all fuel rest)
    else if c = '"' then
      match quoted? rest with
      | some (s, more) => do return .text (String.ofList s) :: (← all fuel more)
      | none => .error "unterminated string"
    else if isBare c then do
      let word := String.ofList ((c :: rest).takeWhile isBare)
      let piece : Piece := if word = "AND" then .and
        else if word = "OR" then .or else if word = "NOT" then .not
        else .text word
      return piece :: (← all fuel ((c :: rest).dropWhile isBare))
    else .error ("fts5: syntax error near \"" ++ String.singleton c ++ "\"")

end Piece

/-- What is known about the columns when a request is read. -/
structure Columns where
  names : List String
  form : WordForm

/-- Reads something from pieces. -/
abbrev Taking := StateT (List Piece) (Except String)

namespace Taking

/-- The next piece stands where it may not. -/
def refuse {α : Type} : Taking α := do
  throw ("fts5: syntax error near \"" ++
    (((← get).head?).map Piece.spelling).getD "" ++ "\"")

/-- Takes a mark, if it is next. -/
def accept (p : Piece) : Taking Bool := do
  match ← get with
  | x :: rest => if x = p then set rest; return true else return false
  | [] => return false

/-- Takes a mark, which must be next. -/
def expect (p : Piece) : Taking Unit := do
  if !(← accept p) then refuse

/-- Takes a text, which must be next. -/
def text : Taking String := do
  match ← get with
  | .text s :: rest =>
    set rest
    return s
  | _ => refuse

/-- The words of a text, of which the last may be the beginning of one. -/
def words (cs : Columns) (s : String) : Taking (List (String × Bool)) := do
  let isOpen ← accept (.mark '*')
  let all := (Word.all cs.form s).map (·.key)
  return all.zipIdx.map fun (w, k) => (w, isOpen && k + 1 = all.length)

/-- Takes what follows the first text of a needle. -/
def needleRest (cs : Columns) :
    Nat → List (String × Bool) → Taking (List (String × Bool))
  | 0, ws => return ws
  | fuel + 1, ws => do
    if ← accept (.mark '+') then
      let s ← text
      needleRest cs fuel (ws ++ (← words cs s))
    else return ws

/-- Takes a needle whose first text is given. -/
def needle (cs : Columns) (s : String) (isFirst : Bool) : Taking Needle := do
  let first ← words cs s
  return { words := ← needleRest cs (← get).length first, isFirst }

/-- Takes needles up to a comma or the end of the list. -/
def needles (cs : Columns) : Nat → List Needle → Taking (List Needle)
  | 0, ns => return ns
  | fuel + 1, ns => do
    match ← get with
    | .text s :: rest =>
      set rest
      needles cs fuel (ns ++ [← needle cs s false])
    | _ => return ns

/-- Takes needles that are near to each other. -/
def nearby (cs : Columns) : Taking Nearby := do
  if ← accept (.mark '^') then
    let s ← text
    return { needles := [← needle cs s true] }
  let before ← get
  let s ← text
  if ← accept (.mark '(') then
    let ns ← needles cs (← get).length []
    if ns.isEmpty then refuse
    let distance ← if ← accept (.mark ',') then do
        let d ← text
        if d.toList.all Token.isDigit then
          pure (d.toList.foldl (fun n c => 10 * n + (c.toNat - '0'.toNat)) 0)
        else throw ("expected integer, got \"" ++ d ++ "\"")
      else pure 10
    expect (.mark ')')
    if s ≠ "NEAR" then
      set before
      refuse
    return { needles := ns, distance }
  else return { needles := [← needle cs s false] }

/-- The place of a column. -/
def column (cs : Columns) (name : String) : Taking Nat := do
  match cs.names.findIdx? fun n => Token.lowered n = Token.lowered name with
  | some k => return k
  | none => throw ("no such column: " ++ name)

/-- Takes names of columns up to the closing brace. -/
def columnList (cs : Columns) : Nat → List Nat → Taking (List Nat)
  | 0, ns => return ns
  | fuel + 1, ns => do
    if ← accept (.mark '\x7d') then return ns
    let name ← text
    columnList cs fuel (ns ++ [← column cs name])

/-- Takes the columns in front of a wish, if there are any. -/
def columns? (cs : Columns) : Taking (Option (List Nat)) := do
  let start ← get
  let isOthers ← accept (.mark '-')
  let found ← if ← accept (.mark '\x7b') then
      some <$> columnList cs (start.length + 1) []
    else match ← get with
      | .text name :: .mark ':' :: rest =>
        set (Piece.mark ':' :: rest)
        some <$> (do return [← column cs name])
      | _ => if isOthers then refuse else pure none
  match found with
  | none => return none
  | some ns =>
    expect (.mark ':')
    return some
      (if isOthers then (List.range cs.names.length).filter (!ns.contains ·)
      else ns)

/-- Whether a wish can begin with the next piece. -/
def isWishAhead : Taking Bool := do
  return match (← get).head? with
    | some (.text _) | some (.mark '^') | some (.mark '-')
        | some (.mark '\x7b') => true
    | _ => false

mutual

/-- Takes a request: the weakest word combines last. -/
def request (cs : Columns) : Nat → Taking Request
  | 0 => refuse
  | fuel + 1 => do chain cs fuel .or .either 0 (← level cs fuel 1)

/-- Takes a request of a level: those behind stronger words come first. -/
def level (cs : Columns) : Nat → Nat → Taking Request
  | 0, _ => refuse
  | fuel + 1, n => do
    if n = 1 then chain cs fuel .and .both 1 (← level cs fuel 2)
    else if n = 2 then chain cs fuel .not .without 2 (← level cs fuel 3)
    else group cs fuel

/-- Takes what follows behind a word, as often as it comes. -/
def chain (cs : Columns) :
    Nat → Piece → (Request → Request → Request) → Nat → Request → Taking Request
  | 0, _, _, _, _ => refuse
  | fuel + 1, word, combine, n, a => do
    if ← accept word then
      let b ← level cs fuel (n + 1)
      chain cs fuel word combine n (combine a b)
    else return a

/-- Takes wishes one after the other, or a request between parentheses. -/
def group (cs : Columns) : Nat → Taking Request
  | 0 => refuse
  | fuel + 1 => do
    if ← accept (.mark '(') then
      let r ← request cs fuel
      expect (.mark ')')
      return r
    let ns ← columns? cs
    if ns.isSome && (← accept (.mark '(')) then
      let r ← request cs fuel
      expect (.mark ')')
      return r.within (ns.getD [])
    let n ← nearby cs
    wishes cs fuel (.near { n with columns := ns })

/-- Takes more wishes that all must be met; one without words does not count. -/
def wishes (cs : Columns) : Nat → Request → Taking Request
  | 0, _ => refuse
  | fuel + 1, a => do
    if !(← isWishAhead) then return a
    let ns ← columns? cs
    let n ← nearby cs
    let b : Nearby := { n with columns := ns }
    let isEmpty (x : Nearby) : Bool := x.needles.all (·.words.isEmpty)
    wishes cs fuel (if isEmpty b then a
      else match a with
        | .near x => if isEmpty x then .near b else .both a (.near b)
        | a => .both a (.near b))

end

end Taking

/-- The request that a text is. -/
def ofText (cs : Columns) (s : String) : Except Failure Request :=
  let result : Except String Request := do
    let pieces ← Piece.all s.length s.toList
    let (r, rest) ← (Taking.request cs (8 * pieces.length + 8)).run pieces
    if !rest.isEmpty then
      let _ ← (Taking.refuse (α := Unit)).run rest
    return r
  match result with
  | .ok r => .ok r
  | .error text => .error (.refused (.said text))

end Request

end Bytecode.Database
