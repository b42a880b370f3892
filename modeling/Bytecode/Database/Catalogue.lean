import Bytecode.Database.Definition
import Bytecode.Database.Reader.Statement

/-!
# The list of what is in a database

The tree at the first page has a row for each table, index, view and rule: its
kind, its name, the name of the table it belongs to, the page where its own tree
begins, and the statement that made it.  The list is read from the beginning,
and everything in it must make sense after what stands before it.
-/

namespace Bytecode.Database

/-- A row of the list of what is in a database. -/
structure Listing where
  kind : String
  name : Option String
  table : String
  root : Value
  text : Option String

namespace Listing

/-- The row of the list with given values. -/
def ofValues (e : Encoding) (values : Nat → Value) : Listing :=
  let text (n : Nat) : Option String :=
    match values n with
    | .null => none
    | v => some (v.shown e)
  { kind := (text 0).getD "", name := text 1, table := (text 2).getD "",
    root := values 3, text := text 4 }

/-- The values of a row of the list. -/
def values (x : Listing) : List Value :=
  [.text x.kind, .text (x.name.getD ""), .text x.table, x.root,
    ((x.text.map Value.text).getD .null)]

/-- What is wrong with something in the list. -/
def bad {α : Type} (x : Listing) (reason : String) : Except Failure α :=
  .error (.badPart (x.name.getD "?") reason)

/-- The page where something begins, which must be there. -/
def page (x : Listing) (count : Nat) : Except Failure Nat :=
  let number? : Option Int := match x.root with
    | .integer n => some n
    | .text s =>
        if s ≠ "" && s.toList.all Token.isDigit then
          some ((Value.leading s).toWhole .utf8)
        else none
    | _ => none
  match number? with
  | some n =>
      if 0 ≤ n && n.toNat ≤ count then .ok n.toNat else x.bad "invalid rootpage"
  | none => x.bad "invalid rootpage"

/-- Fails unless a statement makes what the list says. -/
def check (x : Listing) (kind name table : String) : Except Failure Unit :=
  if isSame x.kind kind && x.name.any (isSame name) && isSame x.table table then
    .ok ()
  else x.bad ""

/-- Tells a failure as one of something in the list. -/
def during {α : Type} (x : Listing) (r : Except Failure α) : Except Failure α :=
  match r with
  | .ok a => .ok a
  | .error (.refused r) => x.bad r.message
  | .error (.noCollation name) => x.bad ("no such collation sequence: " ++ name)
  | .error f => .error f

end Listing

/-- A database whose list is being read. -/
structure Loading where
  definition : Definition
  /-- How many pages there are. -/
  pages : Nat
  schema : Schema := {}

namespace Loading

/-- The name of the database. -/
def name (l : Loading) : String :=
  (l.definition.world.store l.definition.store).name

/-- The table with a name, which must be there. -/
def table (l : Loading) (name : String) : Except Failure Table :=
  match l.schema.table? name with
  | some t => .ok t
  | none => .error (.refused (.noSuchTable (l.name ++ "." ++ name)))

/-- Fails if a name is taken already. -/
def checkName (l : Loading) (name : String) : Except Failure Unit := do
  if (l.schema.table? name).isSome then throw (.refused (.taken "table" name))
  if (l.schema.view? name).isSome then throw (.refused (.taken "view" name))
  if (l.schema.index? name).isSome then throw (.refused (.indexNamed name))

/-- Adds a table. -/
def addTable (l : Loading) (x : Listing) (name : String) (text : TableText) :
    Except Failure Loading := do
  let root ← x.page l.pages
  x.check "table" name name
  x.during (l.checkName name)
  let t ← x.during (l.definition.table name text)
  return { l with
    schema := { l.schema with tables := l.schema.tables ++ [{ t with root }] } }

/-- Adds a table that is kept in others; one that nobody knows how to keep is
passed over. -/
def addVirtual (l : Loading) (x : Listing) (name : String)
    (text : VirtualText) : Except Failure Loading := do
  x.check "table" name name
  x.during (l.checkName name)
  match Virtual.table name text with
  | .error _ => return l
  | .ok t =>
    return { l with
      schema := { l.schema with
        tables := l.schema.tables ++
          [{ t with store := l.definition.store }] } }

/-- Adds an index to its table. -/
def addIndex (l : Loading) (x : Listing) (name : String) (text : IndexText) :
    Except Failure Loading := do
  let root ← x.page l.pages
  let t ← x.during (l.table text.table)
  x.check "index" name t.name
  if (l.schema.index? name).isSome then
    x.bad ("index " ++ name ++ " already exists")
  let i ← x.during (l.definition.index t name text)
  if t.indexes.any fun j => j.root = root then x.bad "invalid rootpage"
  return { l with
    schema := l.schema.replace { t with
      indexes := Index.arrange { i with root } t.indexes } }

/-- Adds a view. -/
def addView (l : Loading) (x : Listing) (name : String) (columns : List String)
    (query : Query) : Except Failure Loading := do
  let root ← x.page l.pages
  x.check "view" name name
  x.during (l.checkName name)
  if root ≠ 0 then x.bad ""
  let v : View := { name, store := l.definition.store, columns, query }
  return { l with schema := { l.schema with views := l.schema.views ++ [v] } }

/-- Adds a rule.  A temporary one may be about something in another database. -/
def addRule (l : Loading) (x : Listing) (name : String) (text : RuleText) :
    Except Failure Loading := do
  let _ ← x.page l.pages
  let found : Option String := ((l.schema.table? text.table.name).map
    (·.name)).or ((l.schema.view? text.table.name).map (·.name))
  let elsewhere : Option String :=
    if l.definition.store ≠ 1 then none
    else (l.definition.world.relation? text.table).map fun
      | .inl t => t.name
      | .inr v => v.name
  match found.or elsewhere with
  | none =>
    if l.definition.store = 1 then return l
    x.bad ("no such table: " ++ l.name ++ "." ++ text.table.name)
  | some table =>
    x.check "trigger" name table
    if (l.schema.rule? name).isSome then
      x.bad ("trigger " ++ name ++ " already exists")
    let r : Rule := { name, store := l.definition.store, text }
    return { l with schema := { l.schema with rules := l.schema.rules ++ [r] } }

/-- Adds what a statement makes. -/
def addMade (l : Loading) (x : Listing) (text : String) :
    Except Failure Loading :=
  match Statement.next (Token.all text) with
  | .ok (some (.createTable _ _ name table _, _)) =>
      l.addTable x name.name table
  | .ok (some (.createIndex _ name index _, _)) => l.addIndex x name.name index
  | .ok (some (.createView _ _ name columns query _, _)) =>
      l.addView x name.name columns query
  | .ok (some (.createRule _ _ name rule _, _)) => l.addRule x name.name rule
  | .ok (some (.broken (.table _ _ name) r, _)) => do
    x.check "table" name.name name.name
    x.bad r.message
  | .ok (some (.broken _ r, _)) => x.bad r.message
  | .ok (some (.createVirtual _ name table _, _)) =>
      l.addVirtual x name.name table
  | .ok _ => x.bad ""
  | .error r => x.bad r.message

/-- Adds the tree of an index that belongs to a clause of its table. -/
def addOwnIndex (l : Loading) (x : Listing) : Except Failure Loading :=
  match x.name with
  | none => x.bad ""
  | some name =>
    match l.schema.index? name with
    | none => x.bad "orphan index"
    | some (t, i) => do
      let root ← x.page l.pages
      if root < 2 || t.indexes.any fun j => j.name ≠ i.name &&
          j.root = root then x.bad "invalid rootpage"
      let indexes :=
        t.indexes.map fun j => if j.name = i.name then { j with root } else j
      return { l with schema := l.schema.replace { t with indexes } }

/-- Adds what a row of the list describes. -/
def add (l : Loading) (x : Listing) : Except Failure Loading := do
  if x.root = .null then x.bad ""
  match x.text with
  | some text =>
    if Token.lowered (String.ofList (text.toList.take 2)) = "cr" then
      l.addMade x text
    else if text = "" then l.addOwnIndex x
    else x.bad ""
  | none => l.addOwnIndex x

end Loading

namespace World

/-- The newest form of databases. -/
def newestForm : Nat := 4

/-- The row of the list in an entry of its tree, with its number. -/
def listed (w : World) (entry : Entry) : Except Failure (Int × Listing) := do
  let fields := Record.fields w.encoding entry.payload
  let values ← (List.range 5).mapM fun k => fields.get k .null
  return (entry.number, .ofValues w.encoding fun k => values.getD k .null)

/-- The tree of the list of what is in a database. -/
def listWalk (w : World) (n : Nat) : Tree.Walk :=
  let pages := (w.store n).pages
  if pages.isBlank then {} else Tree.walk pages .table 1 none

/-- The rows of the list of what is in a database, with their numbers. -/
def listing (w : World) (n : Nat) :
    Except Failure (List (Int × Listing)) × Option Failure :=
  let walk := w.listWalk n
  (walk.entries.toList.mapM w.listed, walk.failure)

/-- What is in a database, by its list. -/
def load (w : World) (n : Nat) : Except Failure Schema := do
  let pages := (w.store n).pages
  let form := pages.header 44 % 256
  if newestForm < form then throw (.refused .unknownFormat)
  let d : Definition :=
    { world := w, store := n, isLoading := true, hasDirections := 4 ≤ form }
  let walk := w.listWalk n
  let l ← walk.entries.foldlM (fun (l : Loading) entry => do
    l.add (← w.listed entry).2) { definition := d, pages := pages.count }
  match walk.failure with
  | some f => throw f
  | none => return l.schema

/-- The databases with what is in one of them read again. -/
def reload (w : World) (n : Nat) : Except Failure World := do
  return w.setSchema n (← w.load n)

end World

end Bytecode.Database
