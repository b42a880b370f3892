import Bytecode.Database.Directive
import Bytecode.Path
import Bytecode.Quicksort
import Bytecode.Text.Lower
import Bytecode.Text.Quoted

/-!
# Where a journal is kept

A journal is named by a text: the name of a file, or an address that begins with
`file:`.  A question mark ends either of them; the query behind it holds
settings of the connection, and in an address it also says how the file is
opened.

A query is a list of fields between ampersands, each a key and a value around an
equals sign.  In both a plus sign stands for a blank and `%41` for a byte.  A
semicolon may not stand in a query as it is.
-/

namespace Bytecode.Text

/-- The byte of an ASCII character. -/
def byte (c : Char) : UInt8 := UInt8.ofNat c.toNat

/-- The byte that two hexadecimal digits stand for. -/
def hexByte? (high low : UInt8) : Option UInt8 := do
  let x ← hexDigit? (Char.ofNat high.toNat)
  let y ← hexDigit? (Char.ofNat low.toNat)
  return UInt8.ofNat (16 * x + y)

namespace Query

/-- What is wrong with a query. -/
inductive Defect where
  | semicolon
  /-- A percent sign without two digits; the bytes are what stands there. -/
  | escape (bytes : List UInt8)
  deriving DecidableEq, Repr

/-- The wording of a defect. -/
def Defect.message : Defect → String
  | .semicolon => "invalid semicolon separator in query"
  | .escape bytes => "invalid URL escape " ++ quotedBytes bytes

/-- A field: a key and its value. -/
abbrev Field := List UInt8 × List UInt8

/-- What bytes with escapes stand for. -/
def unescape (s : List UInt8) : Except Defect (List UInt8) :=
  match s with
  | [] => .ok []
  | c :: rest =>
    if c = byte '%' then
      match rest with
      | high :: low :: more =>
        match hexByte? high low with
        | some b => (b :: ·) <$> unescape more
        | none => .error (.escape [c, high, low])
      | _ => .error (.escape (c :: rest))
    else ((if c = byte '+' then byte ' ' else c) :: ·) <$> unescape rest
termination_by s.length
decreasing_by
  · simp only [List.length_cons]
    omega
  · simp

/-- The field that a piece of a query spells. -/
def field (piece : List UInt8) : Except Defect Field := do
  let (key, value) := cut (byte '=') piece
  return (← unescape key, ← unescape value)

/-- The fields of a query, in order; empty ones do not count.  A semicolon is
reported before any other defect. -/
def fields (query : List UInt8) : Except Defect (List Field) :=
  let all := (pieces (byte '&') query).filter (! ·.isEmpty)
  if query.contains (byte ';') then .error .semicolon else all.mapM field

/-- The values of a key, in order. -/
def valuesOf (fields : List Field) (key : String) : List (List UInt8) :=
  (fields.filter fun f => f.1 = utf8 key).map (·.2)

/-- The first value of a key; a key that is not there has the empty value. -/
def valueOf (fields : List Field) (key : String) : List UInt8 :=
  ((valuesOf fields key).head?).getD []

end Query

end Bytecode.Text

namespace Bytecode.Journal

open Text (byte cut utf8)

/-- The fault of a connection that cannot be set up. -/
def unusable (reason : String) : Fault :=
  .failed ["setting busy timeout"] (.other reason)

/-- The fault of a file or an address that cannot be opened; nothing more is
known of it than a code. -/
def unopened (what : String) (code : Nat) : Fault :=
  .failed ["setting busy timeout", what]
    (.other ("out of memory (" ++ Text.decimal 1 code ++ ")"))

/-- The fault of an address that makes no sense. -/
def badAddress : Fault := unopened "SQL logic error" 1

/-- The fault of an address that asks for more than it may. -/
def notPermitted : Fault := unopened "access permission denied" 3

/-- The fault of a file that can be opened and cannot be read. -/
def unreadable : Fault := unopened "disk I/O error" 10

/-- The fault of a file that can neither be read nor made. -/
def cannotOpen : Fault := unopened "unable to open database file" 14

/-- What may be done with the file of a journal. -/
inductive Mode where
  | readOnly
  | readWrite
  /-- The file is made if it is not there. -/
  | create
  /-- There is no file. -/
  | memory
  deriving DecidableEq, Repr

namespace Mode

/-- The mode with a given name. -/
def ofName? (name : List UInt8) : Option Mode :=
  if name = utf8 "ro" then some .readOnly
  else if name = utf8 "rw" then some .readWrite
  else if name = utf8 "rwc" then some .create
  else if name = utf8 "memory" then some .memory
  else none

/-- How much a mode asks for. -/
def asks : Mode → Nat
  | .memory => 0
  | .readOnly => 1
  | .readWrite => 2
  | .create => 3

/-- How much may be asked for once a mode has been named. -/
def grants : Mode → Nat
  | .memory => 4
  | m => m.asks

end Mode

/-- The kinds of storage there are. -/
def storages : List String :=
  ["unix", "unix-none", "unix-dotfile", "unix-excl", "memdb"]

/-- Where a journal is kept and how it is opened. -/
structure Location where
  /-- The name of the file; the journal without a name is private. -/
  name : String
  mode : Mode := .create
  storage : String := "unix"
  /-- Whether the file is said never to change. -/
  isFixed : Bool := false
  /-- Whether nobody is kept from the file. -/
  isUnlocked : Bool := false
  /-- A file that must be there for this one to be made like it. -/
  likeness : Option String := none
  /-- The settings of the connection. -/
  settings : List Text.Query.Field := []

namespace Location

/-- What bytes of an address stand for: `%41` is a byte, and `%00` hides what
follows. -/
def plain (s : List UInt8) : List UInt8 :=
  match s with
  | [] => []
  | c :: rest =>
    match if c = byte '%' then escaped? rest else none with
    | some b => if b = 0 then [] else b :: plain (rest.drop 2)
    | none => c :: plain rest
termination_by s.length
decreasing_by
  all_goals
    simp only [List.length_drop, List.length_cons]
    omega
where
  /-- The byte that two digits at the head stand for. -/
  escaped? : List UInt8 → Option UInt8
    | high :: low :: _ => Text.hexByte? high low
    | _ => none

/-- An address without the host in front of its path; only this host will do. -/
def withoutHost (s : List UInt8) : Except Fault (List UInt8) :=
  if s.take 2 = utf8 "//" then
    let host := (s.drop 2).takeWhile (· ≠ byte '/')
    if host.isEmpty || host = utf8 "localhost" then
      .ok (s.drop (2 + host.length))
    else .error badAddress
  else .ok s

/-- The options in the query of an address; those without a name do not
count. -/
def optionsOf (query : List UInt8) : List Text.Query.Field :=
  let option (piece : List UInt8) : Text.Query.Field :=
    let (key, value) := cut (byte '=') piece
    (plain key, plain value)
  ((Text.pieces (byte '&') query).map option).filter fun f => !f.1.isEmpty

/-- Follows an option of an address.  A mode may not ask for more than the one
before it grants. -/
def follow (l : Location) (option : Text.Query.Field) : Except Fault Location :=
  let (key, value) := option
  if key = utf8 "vfs" then
    .ok { l with storage := (Text.ofUtf8? value).getD "" }
  else if key = utf8 "cache" then
    if value = utf8 "shared" || value = utf8 "private" then .ok l
    else .error badAddress
  else if key = utf8 "mode" then
    match Mode.ofName? value with
    | none => .error badAddress
    | some mode =>
      if mode.asks ≤ l.mode.grants then .ok { l with mode }
      else .error notPermitted
  else .ok l

/-- The text of bytes; what is no text in them is shown as such. -/
def textOf (bytes : List UInt8) : String := Text.legible bytes

/-- Whether the first option of a name turns something on. -/
def turnsOn (options : List Text.Query.Field) (key : String) : Bool :=
  Database.Directive.isOn (textOf (Text.Query.valueOf options key))

/-- A location with the given name. -/
def named (l : Location) (name : List UInt8) : Location :=
  { l with name := Text.decode name }

/-- The location that an address leads to, from behind `file:`. -/
def ofAddress (l : Location) (address : List UInt8) :
    Except Fault Location := do
  let body := (← withoutHost address).takeWhile (· ≠ byte '#')
  let (path, query) := cut (byte '?') body
  let options := optionsOf query
  let l ← options.foldlM follow l
  let l := { l with
    isFixed := turnsOn options "immutable"
    isUnlocked := turnsOn options "nolock"
    likeness := (Text.Query.valuesOf options "modeof").head?.map textOf }
  return l.named (plain path)

/-- Bytes up to a NUL. -/
def upToNul (bytes : List UInt8) : List UInt8 := bytes.takeWhile (· ≠ 0)

/-- The storage that settings name; they may not name two. -/
def storageOf (settings : List Text.Query.Field) :
    Except Fault (Option String) :=
  let names := Text.Query.valuesOf settings "vfs"
  match (names.dropWhile (·.isEmpty)).eraseDups with
  | [] => .ok none
  | [name] => .ok (some (textOf (upToNul name)))
  | _ => .error (unusable ("conflicting vfs query parameters: [" ++
      String.intercalate " " (names.map textOf) ++ "]"))

/-- The settings in the query behind a name. -/
def settingsOf (query : List UInt8) : Except Fault (List Text.Query.Field) :=
  (Text.Query.fields query).mapError fun d => unusable d.message

/-- The location that a text names.  A question mark at its head belongs to the
name, and a NUL ends it. -/
def ofText (text : String) : Except Fault Location := do
  let bytes := utf8 text
  let (front, query) := cut (byte '?') bytes
  let hasQuery := !front.isEmpty
  let settings ← if hasQuery then settingsOf query else pure []
  let storage := (← storageOf settings).getD "unix"
  let start : Location := { name := "", storage, settings }
  let scheme := utf8 "file:"
  let l ←
    if scheme.isPrefixOf bytes then
      ofAddress start (upToNul (bytes.drop scheme.length))
    else pure (start.named (upToNul (if hasQuery then front else bytes)))
  if storages.contains l.storage then return l else throw badAddress

/-- Whether a journal is kept by nobody but its connection. -/
def isPrivate (l : Location) : Bool :=
  l.name = "" || l.name = ":memory:" || l.mode = .memory

/-- Whether a journal is in memory only, and empty whenever it is opened. -/
def isVolatile (l : Location) : Bool := l.isPrivate || l.storage = "memdb"

/-- Whether a journal can be written to at all.  What nobody else keeps can be,
whatever is said about it. -/
def isWritable (l : Location) : Bool :=
  l.mode ≠ .readOnly && (l.isPrivate || !l.isFixed)

/-- What a connection to a location knows of its database at first. -/
def holding (l : Location) : Database.Holding where
  isWritable := l.isWritable
  isVolatile := l.isVolatile
  canLog := !(l.isFixed || l.isUnlocked ||
    ["unix-none", "unix-dotfile"].contains l.storage)
  isKnown := l.isVolatile

/-- What the order of directives goes by. -/
def rank (directive : List UInt8) : String :=
  Text.trimmed (Text.lowered (textOf directive))

/-- Whether a directive sets the busy timeout. -/
def isTimeout (directive : List UInt8) : Bool :=
  (rank directive).startsWith "busy_timeout"

/-- Whether a directive is to come before another: a busy timeout before
anything, and the others in order of the alphabet. -/
def comesFirst (a b : List UInt8) : Bool :=
  isTimeout a || (!isTimeout b && rank a < rank b)

/-- The texts of the directives among the settings, in the order in which they
are carried out. -/
def directives (l : Location) : List String :=
  (Quicksort.sorted comesFirst (Text.Query.valuesOf l.settings "_pragma")).map
    (Text.decode ∘ upToNul)

/-- Fails unless a setting is empty or has one of the values it can have. -/
def checkSetting (l : Location) (key : String) (isValue : String → Bool) :
    Except Fault Unit :=
  let value := Text.Query.valueOf l.settings key
  if value.isEmpty || isValue (textOf value) then .ok ()
  else .error (unusable ("unknown " ++ key ++ " " ++ Text.quotedBytes value))

/-- The script that opens a transaction.  Who chooses a form of times chooses no
kind of transaction. -/
def opening (l : Location) : Except Fault String := do
  l.checkSetting "_time_format" (· = "sqlite")
  if !(Text.Query.valueOf l.settings "_time_format").isEmpty then return "begin"
  l.checkSetting "_txlock" fun v =>
    ["deferred", "immediate", "exclusive"].contains (Text.lowered v)
  return "begin " ++ textOf (upToNul (Text.Query.valueOf l.settings "_txlock"))

end Location

end Bytecode.Journal
