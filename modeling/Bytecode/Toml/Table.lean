import Bytecode.Toml.Value

/-!
# Statements and tables

A document is a sequence of statements, one a line: a table header, the header
of one more table in an array, or an assignment.  Keys may be dotted.

The statements, one after the other, fill a tree of tables.  A table that only
came about because something inside it was named is implicit: it may still be
given a header of its own, once.  Everything else is defined once.
-/

namespace Bytecode.Toml

/-! ### Statements -/

/-- A key, outermost part first. -/
abbrev Key := List String

/-- A value as it is written. -/
inductive Literal where
  | text (s : String)
  | integer (n : Int)
  | float (digits : String)
  | boolean (b : Bool)
  | moment (digits : String)
  | array (items : List Literal)
  | inlineTable (entries : List (Key × Literal))

/-- A statement of a document. -/
inductive Statement where
  | table (key : Key)
  | tableInArray (key : Key)
  | assign (key : Key) (value : Literal)

namespace Reader

/-- Characters that keys may have without quotes. -/
def isBareKeyChar (c : Char) : Bool :=
  isDigit c || ('a' ≤ c && c ≤ 'z') || ('A' ≤ c && c ≤ 'Z') ||
    c = '_' || c = '-'

/-- Takes one part of a key. -/
def keyPart : Reader String := do
  match ← peek with
  | none => failure
  | some c =>
    if c = '"' || c = '\x27' then
      let _ ← next
      lineText c
    else
      let chars ← run isBareKeyChar
      guard (!chars.isEmpty)
      return String.ofList chars

/-- Takes a key of at most `fuel` parts. -/
def keyParts : Nat → Reader Key
  | 0 => failure
  | fuel + 1 => do
    blanks
    let k ← keyPart
    blanks
    if ← accept '.' then
      return k :: (← keyParts fuel)
    else
      return [k]

/-- Takes a key.  A part takes a character at least, unless it is the last. -/
def key : Reader Key := do
  keyParts ((← get).length + 1)

/-- Takes digits that a point or an exponent mark may follow. -/
def decimalLiteral : Reader Literal := do
  let sign ← run fun c => c = '+' || c = '-'
  let front ← run fun c => isDigit c || c = '_'
  let more ← match ← peek with
    | some c =>
      if c = '.' || c = 'e' || c = 'E' then
        run fun c => isDigit c || c = '_' || c = '.' || c = '-' || c = '+' ||
          c = 'e' || c = 'E'
      else pure []
    | none => pure []
  let s := sign ++ front ++ more
  guard (sign.length ≤ 1 && front.head?.any isDigit)
  if more.isEmpty then
    return .integer (← decimal? s)
  else
    guard (isFloat s)
    return .float (String.ofList s)

/-- Takes digits of another base. -/
def basedLiteral (base : Nat) : Reader Literal := do
  let s ← run fun c => (Text.hexDigit? c).any (· < base) || c = '_'
  return .integer (← based? base s)

/-- Takes a date or a time. -/
def momentLiteral : Reader Literal := do
  let s ← run fun c => isDigit c || "-:Tt .Zz+".toList.contains c
  guard (Moment.isMoment s)
  return .moment (String.ofList s)

/-- Takes a number that starts with a sign. -/
def signedLiteral : Reader Literal := do
  let s ← get
  let rest := s.tail
  if rest.head? = some 'i' then
    modify List.tail
    word "inf"
    return .float (String.ofList (s.take 4))
  else if rest.head? = some 'n' then
    modify List.tail
    word "nan"
    return .float (String.ofList (s.take 4))
  else decimalLiteral

/-- Takes a number, a date or a time that starts with a digit. -/
def digitLiteral : Reader Literal := do
  let s ← get
  let (front, rest) := s.span isDigit
  match rest with
  | [] => decimalLiteral
  | c :: rest =>
    if c = '-' || c = ':' then momentLiteral
    else if front = ['0'] && c = 'x' then
      set rest
      basedLiteral 16
    else if front = ['0'] && c = 'o' then
      set rest
      basedLiteral 8
    else if front = ['0'] && c = 'b' then
      set rest
      basedLiteral 2
    else decimalLiteral

/-- Takes a value that has no values inside. -/
def scalar (c : Char) : Reader Literal := do
  if c = '"' || c = '\x27' then
    let _ ← next
    return .text (← quotedText c)
  else if c = 't' then
    word "true"
    return .boolean true
  else if c = 'f' then
    word "false"
    return .boolean false
  else if c = 'i' then
    word "inf"
    return .float "inf"
  else if c = 'n' then
    word "nan"
    return .float "nan"
  else if c = '+' || c = '-' then signedLiteral
  else if isDigit c then digitLiteral
  else failure

mutual

/-- Takes a value, with at most `fuel` steps into its parts. -/
def valueWithin : Nat → Reader Literal
  | 0 => failure
  | fuel + 1 => do
    match ← peek with
    | none => failure
    | some c =>
      if c = '[' then
        let _ ← next
        return .array (← itemsWithin fuel)
      else if c = '\x7b' then
        let _ ← next
        return .inlineTable (← entriesWithin fuel)
      else scalar c

/-- Takes the items of an array and its closing bracket. -/
def itemsWithin : Nat → Reader (List Literal)
  | 0 => failure
  | fuel + 1 => do
    gap
    if ← accept ']' then return []
    let v ← valueWithin fuel
    gap
    if ← accept ']' then return [v]
    expect ','
    return v :: (← itemsWithin fuel)

/-- Takes the entries of an inline table and its closing brace. -/
def entriesWithin : Nat → Reader (List (Key × Literal))
  | 0 => failure
  | fuel + 1 => do
    gap
    if ← accept '\x7d' then return []
    let k ← key
    expect '='
    blanks
    let v ← valueWithin fuel
    gap
    if ← accept '\x7d' then return [(k, v)]
    expect ','
    return (k, v) :: (← entriesWithin fuel)

end

/-- Takes a value.  Any two steps into its parts take a character at least. -/
def value : Reader Literal := do
  valueWithin (2 * (← get).length + 2)

/-- Takes a table header, from behind its first bracket. -/
def header : Reader Statement := do
  if ← accept '[' then
    let k ← key
    expect ']'
    expect ']'
    return .tableInArray k
  else
    let k ← key
    expect ']'
    return .table k

/-- Takes an assignment. -/
def assignment : Reader Statement := do
  let k ← key
  expect '='
  blanks
  return .assign k (← value)

/-- Takes a statement and what follows it on its line. -/
def statement : Reader Statement := do
  let s ← if ← accept '[' then header else assignment
  lineEnd
  return s

/-- Takes the statements of a text, at most `fuel` of them. -/
def statements : Nat → Reader (List Statement)
  | 0 => failure
  | fuel + 1 => do
    gap
    if (← peek).isNone then return []
    let s ← statement
    return s :: (← statements fuel)

end Reader

/-- Characters that no document has. -/
def isForbidden (c : Char) : Bool :=
  (c.toNat < 0x20 && !isBlank c && !isNewline c) || c.toNat = 0x7f

/-- Whether a text has no forbidden character and no carriage return but in
front of a line feed. -/
def isPlain : List Char → Bool
  | [] => true
  | c :: rest =>
      !isForbidden c && (c ≠ '\r' || rest.head? = some '\n') && isPlain rest

/-- The bytes of a document without a byte order mark. -/
def withoutMark : List UInt8 → List UInt8
  | 0xff :: 0xfe :: rest => rest
  | 0xfe :: 0xff :: rest => rest
  | 0xef :: 0xbb :: 0xbf :: rest => rest
  | bytes => bytes

/-- The statements of a document. -/
def Statement.ofBytes? (bytes : List UInt8) : Option (List Statement) := do
  let text ← Text.ofUtf8? (withoutMark bytes)
  let chars := text.toList
  guard (isPlain chars)
  let (statements, _) ← Reader.statements (chars.length + 1) chars
  return statements

/-! ### Tables -/

/-- A value in a table. -/
inductive Value where
  | text (s : String)
  | integer (n : Int)
  | float (digits : String)
  | boolean (b : Bool)
  | moment (digits : String)
  | array (items : List Value)
  | table (entries : List (String × Value))
  /-- An array of tables, the latest last, that headers can add to. -/
  | tables (all : List (List (String × Value)))

/-- A table. -/
abbrev Table := List (String × Value)

namespace Table

/-- The value under a name. -/
def get? (t : Table) (name : String) : Option Value := List.lookup name t

/-- Puts a value under a name. -/
def put (t : Table) (name : String) (v : Value) : Table :=
  match t with
  | [] => [(name, v)]
  | (k, w) :: rest =>
      if k = name then (k, v) :: rest else (k, w) :: put rest name v

/-- Changes the table that a key leads to.  In an array of tables the way goes
through the latest one. -/
def change {α : Type} (f : Table → Option (α × Table)) :
    Key → Table → Option (α × Table)
  | [], t => f t
  | k :: rest, t => do
    match ← t.get? k with
    | .table inner =>
      let (a, inner) ← change f rest inner
      return (a, t.put k (.table inner))
    | .tables all =>
      let latest ← all.getLast?
      let (a, latest) ← change f rest latest
      return (a, t.put k (.tables (all.dropLast ++ [latest])))
    | _ => none

end Table

/-- A document under construction. -/
structure Draft where
  root : Table := []
  /-- Where tables came about without being defined. -/
  implicit : List Key := []
  /-- Where arrays have been written. -/
  arrays : List Key := []
  /-- The table that assignments go to. -/
  here : Key := []

/-- Changes a document under construction, or fails. -/
abbrev Drafting := StateT Draft Option

namespace Drafting

/-- Changes the table that a key leads to. -/
def changeAt {α : Type} (key : Key) (f : Table → Option (α × Table)) :
    Drafting α := fun d => do
  let (a, root) ← Table.change f key d.root
  return (a, { d with root })

/-- Marks a key as implicit. -/
def markImplicit (key : Key) : Drafting Unit := modify fun d =>
  { d with implicit := key :: d.implicit }

/-- Marks a key as defined. -/
def markDefined (key : Key) : Drafting Unit := modify fun d =>
  { d with implicit := d.implicit.filter (· ≠ key) }

/-- Notes whether an array is what has been written under a name here.  The
empty name stands for the table itself, unless that is the root. -/
def noteArray (name : String) (isArray : Bool) : Drafting Unit :=
  modify fun d =>
  let key := if name ≠ "" then d.here ++ [name] else if d.here.isEmpty then [""]
    else d.here
  let others := d.arrays.filter (· ≠ key)
  { d with arrays := if isArray then key :: others else others }

/-- Defines a name in the current table.  What is there already stays if it was
implicit, and gives way if it was an implicit array. -/
def define (name : String) (v : Value) : Drafting Unit := do
  let d ← get
  let key := d.here ++ [name]
  let isImplicit := d.implicit.contains key
  let present ← changeAt d.here fun t => some ((t.get? name).isSome, t)
  if present then
    guard isImplicit
    markDefined key
    if d.arrays.contains key then
      changeAt d.here fun t => some ((), t.put name v)
  else
    changeAt d.here fun t => some ((), t.put name v)

/-- Goes down to a table from the one at `above`, making implicit tables on the
way. -/
def goDown (above : Key) : List String → Drafting Unit
  | [] => modify fun d => { d with here := above }
  | k :: rest => do
    let key := above ++ [k]
    if ← changeAt above fun t => some ((t.get? k).isNone, t) then
      markImplicit key
      changeAt above fun t => some ((), t.put k (.table []))
    match ← changeAt above fun t => some (t.get? k, t) with
    | some (.table _) | some (.tables _) => goDown key rest
    | _ => failure

/-- Adds a table to the array of tables with a name in the current table. -/
def addTable (name : String) : Drafting Unit := do
  changeAt (← get).here fun t =>
    match t.get? name with
    | none => some ((), t.put name (.tables [[]]))
    | some (.tables all) => some ((), t.put name (.tables (all ++ [[]])))
    | some _ => none

/-- Opens the table that a key names, or one more in the array it names. -/
def openTable (key : Key) (inArray : Bool) : Drafting Unit := do
  let name ← key.getLast?
  goDown [] key.dropLast
  if inArray then addTable name else define name (.table [])
  modify fun d => { d with here := d.here ++ [name] }

/-- Opens the table inside the current one that the front parts of a dotted key
lead to. -/
def openDotted (parts : List String) : Drafting Unit :=
  parts.forM fun k => do
    let key := (← get).here ++ [k]
    markImplicit key
    openTable key false

/-- Puts a value into a table of its own under a dotted key. -/
def collect (v : Value) : Key → Table → Option Table
  | [], _ => none
  | [k], t => some (t.put k v)
  | k :: rest, t => do
    let inner ← match t.get? k with
      | none => some []
      | some (.table inner) => some inner
      | some _ => none
    return t.put k (.table (← collect v rest inner))

mutual

/-- The value of a literal that is being assigned to a name in the current
table, perhaps inside an array. -/
def evaluate (name : String) (inArray : Bool) : Literal → Drafting Value
  | .text s => return .text s
  | .integer n => return .integer n
  | .float s => return .float s
  | .boolean b => return .boolean b
  | .moment s => return .moment s
  | .array items => do
    noteArray name true
    return .array (← evaluateItems name items)
  | .inlineTable entries => do
    let outer := (← get).here
    let key := outer ++ [name]
    markImplicit key
    openTable key inArray
    let t ← evaluateEntries key [] entries
    modify fun d => { d with here := outer }
    return .table t

/-- The values of the items of an array. -/
def evaluateItems (name : String) : List Literal → Drafting (List Value)
  | [] => return []
  | l :: rest => do
    let v ← evaluate name true l
    return v :: (← evaluateItems name rest)

/-- The table that the entries of an inline table make, `t` holding the ones
before; they are also assigned in the document. -/
def evaluateEntries (home : Key) (t : Table) :
    List (Key × Literal) → Drafting Table
  | [] => return t
  | (key, l) :: rest => do
    let name ← key.getLast?
    openDotted key.dropLast
    let v ← evaluate name false l
    define name v
    noteArray name (l matches .array _)
    modify fun d => { d with here := home }
    let t ← collect v key t
    evaluateEntries home t rest

end

/-- Carries out a statement. -/
def perform : Statement → Drafting Unit
  | .table key => do
    openTable key false
    noteArray "" false
  | .tableInArray key => do
    openTable key true
    noteArray "" false
  | .assign key l => do
    let outer := (← get).here
    let name ← key.getLast?
    openDotted key.dropLast
    let v ← evaluate name false l
    define name v
    noteArray name (l matches .array _)
    modify fun d => { d with here := outer }

end Drafting

/-- The root table of a document. -/
def Table.ofBytes? (bytes : List UInt8) : Option Table := do
  let statements ← Statement.ofBytes? bytes
  let (_, d) ← (statements.forM Drafting.perform).run {}
  return d.root

/-- What finds the root table of a document. -/
class Parser where
  parse : List UInt8 → Option Table

instance : Parser := ⟨Table.ofBytes?⟩

end Bytecode.Toml
