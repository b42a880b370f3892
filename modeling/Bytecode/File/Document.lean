import Bytecode.Bytes
import Bytecode.Cbor
import Bytecode.Program

/-!
# The document of an assembly file

The module tree, the tables of strings and references, and the bodies with
their code still packed.  A document is a map with small integer keys.  Writing
leaves out what is empty; reading takes fields in any order, skips keys it does
not know, takes the first of several equal keys, and reads a missing or null
field as empty.
-/

namespace Bytecode.File

/-- A body as it is stored. -/
structure StoredBody where
  maxStack : Int := 0
  initLocals : Bool := false
  /-- Type and name of each slot. -/
  locals : List (String × String) := []
  code : List UInt8 := []

/-- A method as it is stored. -/
structure StoredMethod where
  name : String
  params : List Param := []
  /-- Empty for a method that returns nothing. -/
  returnType : String := ""
  attrs : UInt32 := 0
  body : Option StoredBody := none

/-- A type as it is stored. -/
structure StoredType where
  name : TypeName
  methods : List StoredMethod := []

/-- A module as it is stored. -/
structure StoredModule where
  name : String
  types : List StoredType := []

/-- A whole assembly as it is stored. -/
structure Document where
  name : String
  version : String := ""
  kind : UInt8 := 0
  strings : List String := []
  methods : List MethodRef := []
  fields : List FieldRef := []
  modules : List StoredModule := []

open Cbor (Item)

/-! ### Writing -/

namespace Write

/-- A map of the fields that are there. -/
def record (fields : List (Nat × Option Item)) : Item :=
  .map (fields.flatMap fun (k, x) => match x with
    | some x => [.unsigned k, x]
    | none => [])

/-- A text that is left out when it is empty. -/
def optionalText (s : String) : Option Item :=
  if s = "" then none else some (.ofString s)

/-- A list that is left out when it is empty. -/
def optionalList {α : Type} (f : α → Item) (xs : List α) : Option Item :=
  if xs.isEmpty then none else some (.array (xs.map f))

def methodRef (r : MethodRef) : Item :=
  record [(1, some (.ofString r.type)), (2, some (.ofString r.name)),
    (3, optionalList .ofString r.params), (4, optionalText r.returnType)]

def fieldRef (r : FieldRef) : Item :=
  record [(1, some (.ofString r.type)), (2, some (.ofString r.name)),
    (3, optionalText r.kind)]

def slot (l : String × String) : Item :=
  record [(1, some (.ofString l.1)), (2, optionalText l.2)]

def body (b : StoredBody) : Item :=
  record [(1, some (.ofInt b.maxStack)), (2, some (.bool b.initLocals)),
    (3, optionalList slot b.locals), (4, some (.bytes b.code))]

def param (x : Param) : Item :=
  record [(1, optionalText x.name), (2, some (.ofString x.type))]

def method (m : StoredMethod) : Item :=
  record [(1, some (.ofString m.name)), (2, optionalList param m.params),
    (3, optionalText m.returnType), (4, some (.unsigned m.attrs.toNat)),
    (5, m.body.map body)]

def type (t : StoredType) : Item :=
  record [(1, optionalText t.name.ns), (2, some (.ofString t.name.name)),
    (3, optionalList method t.methods)]

def module (m : StoredModule) : Item :=
  record [(1, some (.ofString m.name)), (2, optionalList type m.types)]

end Write

/-- The item of a document; the absence of modules is written as null. -/
def Document.toItem (d : Document) : Item :=
  Write.record [(1, some (.ofString d.name)), (2, Write.optionalText d.version),
    (3, some (.unsigned d.kind.toNat)),
    (4, Write.optionalList .ofString d.strings),
    (5, Write.optionalList Write.methodRef d.methods),
    (6, Write.optionalList Write.fieldRef d.fields),
    (7, some (if d.modules.isEmpty then .null else
        .array (d.modules.map Write.module)))]

/-! ### Reading -/

namespace Read

/-- The content of tagged items.  Tags for times and big numbers must have
content of their kind, and big numbers stay tagged. -/
def untag? : Item → Option Item
  | .tag n x =>
    match n, x with
    | 0, .text cs => some (.text cs)
    | 0, _ => none
    | 1, .unsigned k => some (.unsigned k)
    | 1, .negative k => some (.negative k)
    | 1, .float => some .float
    | 1, _ => none
    | 2, .bytes b => some (.tag 2 (.bytes b))
    | 2, _ => none
    | 3, .bytes b => some (.tag 3 (.bytes b))
    | 3, _ => none
    | _, x => untag? x
  | x => some x

/-- The text spelled by chunks, each of which must be UTF-8. -/
def chunkText? (chunks : List (List UInt8)) : Option String :=
  (chunks.mapM Text.ofUtf8?).map String.join

def text? (x : Item) : Option String := do
  match ← untag? x with
  | .text chunks => chunkText? chunks
  | y => if y.isNull then some "" else none

/-- An integer of any size; unassigned simple values count as numbers. -/
def integer? (x : Item) : Option Int := do
  match ← untag? x with
  | .unsigned n => some n
  | .negative n => some (-1 - n)
  | .tag 2 (.bytes b) => some (Bytes.ofBig b)
  | .tag 3 (.bytes b) => some (-1 - Bytes.ofBig b)
  | .simple n => if n = 20 || n = 21 then none else
      some (if n = 22 || n = 23 then 0 else n)
  | _ => none

/-- An integer between two bounds. -/
def bounded? (low high : Int) (x : Item) : Option Int :=
  (integer? x).filter fun n => low ≤ n && n ≤ high

/-- An integer below `limit` and not negative. -/
def below? (limit : Nat) (x : Item) : Option Nat :=
  (bounded? 0 (limit - 1) x).map Int.toNat

def bool? (x : Item) : Option Bool := do
  match ← untag? x with
  | .simple 20 => some false
  | .simple 21 => some true
  | y => if y.isNull then some false else none

/-- A list of items of one kind. -/
def list? {α : Type} (f : Item → Option α) (x : Item) : Option (List α) := do
  match ← untag? x with
  | .array xs => xs.mapM f
  | y => if y.isNull then some [] else none

/-- Bytes, also as a list of numbers. -/
def code? (x : Item) : Option (List UInt8) := do
  match ← untag? x with
  | .bytes b => some b
  | .tag _ (.bytes b) => some b
  | .array xs => xs.mapM fun y => (below? 256 y).map UInt8.ofNat
  | y => if y.isNull then some [] else none

/-- The field number a key names: `none` for a key that can be no name, `some
none` for an unknown one.  A negative key must fit in a signed word of 64
bits. -/
def key? : Item → Option (Option Nat)
  | .unsigned n => some (some n)
  | .negative n => if n ≤ Word.maxSigned64 then some none else none
  | .text chunks => do
    let s ← chunkText? chunks
    return (List.range 8).find? fun k => Text.utf8 s = [UInt8.ofNat (0x30 + k)]
  | _ => none

/-- The known fields of a map whose keys and values take turns. -/
def entries? : List Item → Option (List (Nat × Item))
  | k :: x :: rest => do
    let name ← key? k
    let others ← entries? rest
    return match name with
      | some n => (n, x) :: others
      | none => others
  | _ => some []

/-- The fields of a record. -/
def fields? (x : Item) : Option (List (Nat × Item)) := do
  match ← untag? x with
  | .map items => entries? items
  | y => if y.isNull then some [] else none

/-- The first field with number `k`; null if there is none. -/
def field (fs : List (Nat × Item)) (k : Nat) : Item := (fs.lookup k).getD .null

def methodRef? (x : Item) : Option MethodRef := do
  let fs ← fields? x
  return { type := ← text? (field fs 1), name := ← text? (field fs 2), params :=
             ← list? text? (field fs 3), returnType := ← text? (field fs 4) }

def fieldRef? (x : Item) : Option FieldRef := do
  let fs ← fields? x
  return { type := ← text? (field fs 1), name := ← text? (field fs 2),
           kind := ← text? (field fs 3) }

def slot? (x : Item) : Option (String × String) := do
  let fs ← fields? x
  return (← text? (field fs 1), ← text? (field fs 2))

def body? (x : Item) : Option StoredBody := do
  let fs ← fields? x
  return { maxStack := ← bounded? Word.minSigned64 Word.maxSigned64
             (field fs 1), initLocals := ← bool? (field fs 2),
           locals := ← list? slot? (field fs 3), code := ← code? (field fs 4) }

def param? (x : Item) : Option Param := do
  let fs ← fields? x
  return { name := ← text? (field fs 1), type := ← text? (field fs 2) }

/-- A body that is there unless its item is null itself. -/
def optionalBody? (x : Item) : Option (Option StoredBody) :=
  if x.isNull then some none else (body? x).map some

def method? (x : Item) : Option StoredMethod := do
  let fs ← fields? x
  return { name := ← text? (field fs 1), params := ← list? param? (field fs 2),
           returnType := ← text? (field fs 3), attrs := (← below? Word.size32
             (field fs 4)).toUInt32, body := ← optionalBody? (field fs 5) }

def type? (x : Item) : Option StoredType := do
  let fs ← fields? x
  return { name := ⟨← text? (field fs 1), ← text? (field fs 2)⟩,
           methods := ← list? method? (field fs 3) }

def module? (x : Item) : Option StoredModule := do
  let fs ← fields? x
  return { name := ← text? (field fs 1), types := ← list? type? (field fs 2) }

end Read

/-- The document an item describes. -/
def Document.ofItem? (x : Item) : Option Document := do
  let fs ← Read.fields? x
  return { name := ← Read.text? (Read.field fs 1),
           version := ← Read.text? (Read.field fs 2),
           kind := (← Read.below? 256 (Read.field fs 3)).toUInt8,
           strings := ← Read.list? Read.text? (Read.field fs 4),
           methods := ← Read.list? Read.methodRef? (Read.field fs 5),
           fields := ← Read.list? Read.fieldRef? (Read.field fs 6),
           modules := ← Read.list? Read.module? (Read.field fs 7) }

/-! ### As bytes -/

/-- What turns documents into bytes, and bytes into documents. -/
class Codec where
  marshal : Document → List UInt8
  unmarshal : List UInt8 → Option Document

instance : Codec where
  marshal d := d.toItem.encode
  unmarshal data := (Item.decode? data).bind Document.ofItem?

end Bytecode.File
