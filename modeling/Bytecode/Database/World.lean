import Bytecode.Database.Aggregate
import Bytecode.Database.Schema
import Bytecode.Database.Tree.Edit

/-!
# Databases of a connection

A connection has a database of its own, one for what is gone when it is closed,
and perhaps others beside them.  Work on them goes on until it is done or stops;
what it has changed stays in either case, and who asked for it decides what to
undo.
-/

namespace Bytecode.Database

/-- Why work stops. -/
inductive Stop where
  /-- What is being done with a row is left. -/
  | skip
  /-- A failure, and what is undone because of it. -/
  | failed (f : Failure) (extent : Refusing)
  deriving Inhabited

namespace Stop

/-- A failure that undoes the statement. -/
def ofFailure (f : Failure) : Stop := .failed f .abort

/-- A refusal in words. -/
def said (text : String) : Stop := .ofFailure (.refused (.said text))

end Stop

/-- A database among those of a connection. -/
structure Store where
  name : String
  /-- The path of its file, if it has one. -/
  file : String := ""
  pages : Pages := {}
  schema : Schema := {}
  deriving Inhabited

/-- What a connection has been told about its work. -/
structure Switches where
  isQueryOnly : Bool := false
  /-- Whether rows must find what they depend on. -/
  checksDependences : Bool := false
  /-- Whether that is looked at only when the transaction ends. -/
  defersDependences : Bool := false
  /-- Whether questions of tables are not asked. -/
  ignoresChecks : Bool := false
  /-- Whether rules may bring about themselves. -/
  recursesRules : Bool := false
  /-- Whether letters of either case differ in patterns. -/
  distinguishesCase : Bool := false
  /-- Whether the list of what is in a database may be written to. -/
  opensCatalogue : Bool := false
  /-- Whether rules are not to be carried out. -/
  ignoresRules : Bool := false
  /-- Whether rows come in an order that nobody asked for, from the end. -/
  reversesRows : Bool := false
  /-- Whether renaming leaves other definitions alone. -/
  renamesLittle : Bool := false
  deriving Inhabited

/-- The databases of a connection. -/
structure World where
  stores : Array Store := #[{ name := "main" }, { name := "temp" }]
  encoding : Encoding := .utf8
  switches : Switches := {}
  lastRow : Int := 0
  /-- How many rows the last statement changed, and all. -/
  changes : Int := 0
  allChanges : Int := 0
  /-- How many rows the statement at work has changed so far. -/
  count : Int := 0
  /-- How many rows do not find what they depend on: those that this statement
  must make up for, and those that the transaction must. -/
  pending : Int := 0
  deferred : Int := 0
  /-- The values that directives were given last, by the place of the database
  and the name. -/
  directed : List ((Nat × String) × String) := []
  deriving Inhabited

/-- Work on the databases of a connection. -/
abbrev Work := ExceptT Stop (StateM World)

namespace World

/-- A database. -/
def store (w : World) (n : Nat) : Store := w.stores.getD n default

/-- The place of the database with a name. -/
def storeNamed? (w : World) (name : String) : Option Nat :=
  if isSame name "main" then some 0
  else w.stores.toList.findIdx? fun s => isSame s.name name

/-- A world with other pages of a database. -/
def setPages (w : World) (n : Nat) (pages : Pages) : World :=
  { w with stores := w.stores.modify n fun s => { s with pages } }

/-- A world in which one more row has changed. -/
def counting (w : World) : World := { w with count := w.count + 1 }

/-- A world in which the statement at work has come to its end. -/
def settled (w : World) : World :=
  { w with
    changes := w.count, allChanges := w.allChanges + w.count, count := 0 }

/-- A world with another schema of a database. -/
def setSchema (w : World) (n : Nat) (schema : Schema) : World :=
  { w with stores := w.stores.modify n fun s => { s with schema } }

/-- The databases in the order in which a name is looked up: what is temporary
comes first. -/
def lookupOrder (w : World) : List Nat :=
  1 :: 0 :: (List.range w.stores.size).drop 2

/-- The databases that a name can be looked up in. -/
def candidates (w : World) (database : Option String) : List Nat :=
  match database with
  | none => w.lookupOrder
  | some d => (w.storeNamed? d).toList

/-- The names of the list of what is in a database. -/
def isCatalogue (name : String) : Bool :=
  ["sqlite_master", "sqlite_schema", "sqlite_temp_master",
    "sqlite_temp_schema"].contains (Token.lowered name)

/-- The list of what is in a database, as a table. -/
def catalogue (store : Nat) : Table where
  name := if store = 1 then "sqlite_temp_master" else "sqlite_master"
  store
  root := 1
  columns := #[{ name := "type", type := "TEXT", affinity := .text },
    { name := "name", type := "TEXT", affinity := .text },
    { name := "tbl_name", type := "TEXT", affinity := .text },
    { name := "rootpage", type := "INT", affinity := .integer },
    { name := "sql", type := "TEXT", affinity := .text }]

/-- The list of what is in a database that a name stands for. -/
def catalogue? (w : World) (name : TableName) : Option Table :=
  let key := Token.lowered name.name
  if !isCatalogue name.name then none
  else
    let isTemporary := key = "sqlite_temp_master" || key = "sqlite_temp_schema"
    match name.database with
    | none => some (catalogue (if isTemporary then 1 else 0))
    | some d => (w.storeNamed? d).bind fun n =>
      if isTemporary && n ≠ 1 then none else some (catalogue n)

/-- The table with a name. -/
def table? (w : World) (name : TableName) : Option Table :=
  (w.catalogue? name).or ((w.candidates name.database).findSome?
    fun n => (w.store n).schema.table? name.name)

/-- The view with a name. -/
def view? (w : World) (name : TableName) : Option View :=
  (w.candidates name.database).findSome? fun n =>
    (w.store n).schema.view? name.name

/-- The table or the view with a name, whichever is found first. -/
def relation? (w : World) (name : TableName) : Option (Table ⊕ View) :=
  ((w.catalogue? name).map .inl).or
    ((w.candidates name.database).findSome? fun n =>
      (((w.store n).schema.table? name.name).map .inl).or
        (((w.store n).schema.view? name.name).map .inr))

/-- What functions look at. -/
def setting (w : World) (c : Collation) : Setting :=
  { encoding := w.encoding, collation := c, lastRow := w.lastRow,
    changes := w.changes, allChanges := w.allChanges,
    distinguishesCase := w.switches.distinguishesCase }

end World

/-- A row as it is looked at.  A value that cannot be read is a failure only for
who asks for it. -/
structure Row where
  /-- The number of the row, if it has one. -/
  number : Value := .null
  values : Array (Except Stop Value) := #[]
  /-- What a search has found in it, if it comes from one. -/
  found : Option Finding := none
  deriving Inhabited

namespace Row

/-- A row of nothing but null. -/
def blank (columns : Nat) : Row :=
  { values := Array.replicate columns (.ok .null) }

/-- A row with given values. -/
def ofValues (number : Value) (values : Array Value) : Row :=
  { number, values := values.map .ok }

/-- The value of a column. -/
def value (r : Row) (n : Nat) : Except Stop Value := r.values.getD n (.ok .null)

/-- All values, if they can be read. -/
def all (r : Row) : Except Stop (Array Value) := r.values.mapM id

end Row

/-- Things one after the other, perhaps up to a failure. -/
structure Flow (α : Type) where
  items : Array α := #[]
  stop : Option Stop := none
  deriving Inhabited

namespace Flow

variable {α β : Type}

/-- Nothing but a failure. -/
def failed (s : Stop) : Flow α := { stop := some s }

/-- What a computation gives, if it does. -/
def ofExcept : Except Stop (Flow α) → Flow α
  | .ok f => f
  | .error s => failed s

/-- Puts a flow behind another, unless that ends with a failure. -/
def append (f g : Flow α) : Flow α :=
  if f.stop.isSome then f else { items := f.items ++ g.items, stop := g.stop }

/-- What comes of all things, one after the other, up to a failure. -/
def bind (f : Flow α) (g : α → Flow β) : Flow β :=
  let out := f.items.foldl (fun (out : Flow β) x =>
    if out.stop.isSome then out else out.append (g x)) {}
  if out.stop.isSome then out else { out with stop := f.stop }

/-- What is computed from each thing, up to a failure. -/
def mapExcept (f : Flow α) (g : α → Except Stop β) : Flow β :=
  let out := f.items.foldl (fun (out : Flow β) x =>
    if out.stop.isSome then out
    else match g x with
      | .ok y => { out with items := out.items.push y }
      | .error s => { out with stop := some s }) {}
  if out.stop.isSome then out else { out with stop := f.stop }

/-- The things that satisfy a condition, up to a failure. -/
def filter (f : Flow α) (p : α → Except Stop Bool) : Flow α :=
  let out := f.items.foldl (fun (out : Flow α) x =>
    if out.stop.isSome then out
    else match p x with
      | .ok true => { out with items := out.items.push x }
      | .ok false => out
      | .error s => { out with stop := some s }) {}
  if out.stop.isSome then out else { out with stop := f.stop }

/-- The things that are there. -/
def somes (f : Flow (Option α)) : Flow α :=
  { items := f.items.filterMap id, stop := f.stop }

/-- All things, if there is no failure. -/
def all (f : Flow α) : Except Stop (Array α) :=
  match f.stop with
  | none => .ok f.items
  | some s => .error s

/-- Some of the things from a place on; a failure behind them does not count. -/
def slice (f : Flow α) (start : Nat) (count : Option Nat) : Flow α :=
  match count with
  | none => { f with items := f.items.extract start f.items.size }
  | some n =>
    if start + n ≤ f.items.size then
      { items := f.items.extract start (start + n) }
    else { f with items := f.items.extract start f.items.size }

/-- The first thing, if there is one before a failure. -/
def first (f : Flow α) : Except Stop (Option α) :=
  match f.items[0]?, f.stop with
  | some x, _ => .ok (some x)
  | none, none => .ok none
  | none, some s => .error s

/-- What is made of all things together; nothing comes of them if there is a
failure. -/
def whole (f : Flow α) (g : Array α → Flow β) : Flow β :=
  match f.stop with
  | none => g f.items
  | some s => failed s

end Flow

end Bytecode.Database
