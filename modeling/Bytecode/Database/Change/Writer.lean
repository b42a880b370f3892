import Bytecode.Database.Definition

/-!
# Writing rows

A row is written to the tree of its table, and an entry for it to the tree of
every index.  Before that its computed columns get their values, and each value
becomes what its column holds.
-/

namespace Bytecode.Database

namespace Work

/-- A result as work. -/
def ofExcept {α : Type} (r : Except Stop α) : Work α := ExceptT.mk (pure r)

/-- A result that may be a failure as work. -/
def ofFailing {α : Type} (r : Except Failure α) : Work α :=
  ofExcept (r.mapError .ofFailure)

/-- Fails. -/
def fail {α : Type} (f : Failure) : Work α := throw (.ofFailure f)

/-- Changes the pages of a database, which begins with that if it has not
begun. -/
def onPages {α : Type} (store : Nat) (f : Pages → Except Failure (α × Pages)) :
    Work α := do
  let w ← get
  let (a, pages) ← ofFailing (f (w.store store).pages.begun)
  modify fun w => w.setPages store pages
  return a

/-- Changes the pages of a database and gives nothing back. -/
def editPages (store : Nat) (f : Pages → Except Failure Pages) : Work Unit :=
  onPages store fun p => (f p).map ((), ·)

/-- Changes the databases. -/
def revise (f : World → Except Failure World) :
    Work Unit := do set (← ofFailing (f (← get)))

end Work

/-- A row all of whose values are known. -/
structure WholeRow where
  /-- The number of the row; it does not count if rows have none. -/
  number : Int := 0
  values : Array Value := #[]
  deriving Inhabited

namespace WholeRow

/-- A value of a row. -/
def value (r : WholeRow) (n : Nat) : Value := r.values.getD n .null

/-- The row as it is looked at. -/
def row (r : WholeRow) : Row := Row.ofValues (.integer r.number) r.values

/-- A row that has been read, if all of it can be. -/
def ofRow (r : Row) : Except Stop WholeRow := do
  return { number := match r.number with
             | .integer n => n
             | _ => 0
           values := ← r.all }

end WholeRow

/-- How entries of an index are written. -/
structure KeyWriter where
  index : Index
  /-- The values of its parts, from the row. -/
  parts : List Meaning := []
  condition : Option Meaning := none
  deriving Inhabited

/-- How rows of a table are written. -/
structure Writer where
  plan : TablePlan
  /-- The values of columns that are not given any. -/
  fallbacks : Array Meaning := #[]
  /-- The values of computed columns. -/
  computed : List (Nat × Meaning) := []
  checks : List (Check × Meaning) := []
  /-- The indexes with trees of their own, in the order in which they are looked
  at. -/
  keys : List KeyWriter := []
  /-- The primary key of a table without numbers. -/
  primary : Option KeyWriter := none
  deriving Inhabited

namespace Writer

/-- The table. -/
def table (w : Writer) : Table := w.plan.table

/-- All indexes in the order in which they are looked at, the tree of the rows
among them if it is one. -/
def allKeys (w : Writer) : List KeyWriter :=
  w.table.indexes.filterMap fun i =>
    (w.keys.find? fun k => k.index.name = i.name).or
      (w.primary.filter fun k => k.index.name = i.name)

/-- How entries of an index are made. -/
def keyOf (world : World) (t : Table) (i : Index) : Build KeyWriter := do
  let cx := Access.own world t .index
  let parts ← (t.keyParts i).mapM fun p => do
    match p.column with
    | some n => return Lookup.column cx.scope 0 0 n
    | none => return (← Build.inside (meanings.expr cx p.value)).1
  let condition ← i.condition.mapM fun e => do
    return (← Build.inside
      (meanings.expr (Access.own world t .partialIndex) e)).1
  return { index := i, parts, condition }

/-- How rows of a table are written. -/
def ofTable (world : World) (t : Table) : Build Writer := do
  let plan ← Access.plan meanings world t
  let fallbacks ← t.columns.mapM fun c => do
    return (← Build.inside (Access.fallback meanings world c)).1
  let computed ← (t.places.filter fun n => (t.column n).computed.isSome).mapM
    fun n => do
    let (m, _) ← Build.inside (meanings.expr (Access.own world t .computed)
      ((t.column n).computed.getD (.literal .null)))
    return (n, m)
  let checks ← t.checks.mapM fun c => do
    return (c,
      (← Build.inside (meanings.expr (Access.own world t .check) c.question)).1)
  let keys ← t.ownIndexes.mapM (keyOf world t)
  let primary ← if t.isNumbered then pure none else
      t.primaryIndex?.mapM (keyOf world t)
  return { plan, fallbacks, computed, checks, keys, primary }

/-- What an expression about a row sees. -/
def env (world : World) (r : WholeRow) : Env :=
  { Env.ofWorld world with levels := [{ rows := #[r.row] }] }

/-- Values as the columns hold them. -/
def fitted (w : Writer) (values : Array Value) : Array Value :=
  if w.table.isVirtual then values
  else values.mapIdx fun n v => (w.table.column n).affinity.apply v

/-- A row with its computed columns; they may speak of each other. -/
def completed (w : Writer) (world : World) (r : WholeRow) :
    Except Stop WholeRow := do
  let r := { r with values := w.fitted r.values }
  let step (r : WholeRow) : Except Stop WholeRow :=
    w.computed.foldlM (fun (r : WholeRow) (n, m) => do
      let v := (w.table.column n).affinity.apply (← m.eval (env world r))
      return { r with values := r.values.setIfInBounds n v }) r
  w.computed.foldlM (fun r _ => step r) r

/-- A value as a record has it: a double that is whole takes less room as a
whole number. -/
def packed (c : Column) (v : Value) : Value :=
  match c.affinity, v with
  | .real, .real bits =>
    match Value.whole? bits with
    | some n =>
        if n.natAbs < 0x800000000000 && !(n = 0 && bits ≠ 0) then .integer n
        else v
    | none => v
  | _, v => v

/-- The record of a row in the tree of its table. -/
def record (w : Writer) (e : Encoding) (r : WholeRow) : List UInt8 :=
  let t := w.table
  Record.encode e (t.written.map fun n =>
    if t.numberColumn = some n then .null else packed (t.column n) (r.value n))

/-- The values of the entry that an index has for a row, if it has one. -/
def entry (w : Writer) (k : KeyWriter) (world : World) (r : WholeRow) :
    Except Stop (Option (List Value)) := do
  let env := env world r
  let isIn ← match k.condition with
    | some c => c.holds env
    | none => pure true
  if !isIn then return none
  let own ← Meaning.evalAll k.parts env
  return some (if w.table.isNumbered then own ++ [.integer r.number] else own)

/-- How entries of an index are ordered. -/
def order (w : Writer) (k : KeyWriter) : List SortKey :=
  (w.table.keyParts k.index).map IndexPart.key ++
    (if w.table.isNumbered then [({} : SortKey)] else [])

/-- Values of an entry as they are written. -/
def packedEntry (w : Writer) (k : KeyWriter) (values : List Value) :
    List Value :=
  let parts := w.table.keyParts k.index
  values.zipIdx.map fun (v, n) =>
    match (parts[n]?).bind (·.column) with
    | some c =>
        if w.table.numberColumn = some c then v else packed (w.table.column c) v
    | none => v

/-- Writes the entry of an index for a row. -/
def putEntry (w : Writer) (k : KeyWriter) (r : WholeRow) : Work Unit := do
  let world ← get
  match ← Work.ofExcept (w.entry k world r) with
  | none => return
  | some values =>
    let e := world.encoding
    let record := Record.encode e (w.packedEntry k values)
    Work.editPages w.table.store fun p =>
      Tree.insertKey p k.index.root (positionOf e (w.order k) values) record

/-- Takes the entry of an index for a row away. -/
def removeEntry (w : Writer) (k : KeyWriter) (r : WholeRow) : Work Unit := do
  let world ← get
  match ← Work.ofExcept (w.entry k world r) with
  | none => return
  | some values =>
    Work.editPages w.table.store fun p =>
      Tree.deleteKey p k.index.root
        (positionOf world.encoding (w.order k) values)

/-- The values by which a row of a table without numbers is found. -/
def primaryValues (w : Writer) (r : WholeRow) : List Value :=
  w.table.primary.map r.value

/-- Where a row of a table without numbers stands. -/
def primaryPosition (w : Writer) (e : Encoding) (r : WholeRow) :
    Entry → Except Failure Ordering :=
  positionOf e (TablePlan.primaryKeys w.table) (w.primaryValues r)

/-- Writes a row to the tree of its table. -/
def putRow (w : Writer) (r : WholeRow) : Work Unit := do
  let e := (← get).encoding
  let t := w.table
  if t.isVirtual then
    return ← Work.revise fun world =>
      Shadow.put world t r.number r.values.toList
  let record := w.record e r
  Work.editPages t.store fun p =>
    if t.isNumbered then Tree.insertRow p t.root r.number record
    else Tree.insertKey p t.root (w.primaryPosition e r) record

/-- Takes a row out of the tree of its table. -/
def removeRow (w : Writer) (r : WholeRow) : Work Unit := do
  let e := (← get).encoding
  let t := w.table
  if t.isVirtual then
    return ← Work.revise fun world => Shadow.remove world t r.number
  Work.editPages t.store fun p =>
    if t.isNumbered then Tree.deleteRow p t.root r.number
    else Tree.deleteKey p t.root (w.primaryPosition e r)

/-- Writes a row with its entries. -/
def put (w : Writer) (isAffected : KeyWriter → Bool) (r : WholeRow) :
    Work Unit := do
  (w.keys.filter isAffected).forM fun k => w.putEntry k r
  w.putRow r

/-- Takes a row away with its entries. -/
def remove (w : Writer) (r : WholeRow) : Work Unit := do
  w.keys.forM fun k => w.removeEntry k r
  w.removeRow r

/-- A row as it is now, if it is still there. -/
def current? (w : Writer) (r : WholeRow) : Work (Option WholeRow) := do
  let env : Env := .ofWorld (← get)
  let found ← Work.ofExcept <|
    if w.table.isNumbered then w.plan.byNumber env r.number
    else (w.plan.byPrimary env (w.primaryValues r)).first
  match found with
  | some row => return some (← Work.ofExcept (WholeRow.ofRow row))
  | none => return none

/-- The first row that an index has with given values of its parts, if there is
one; nothing is equal to null. -/
def holder? (w : Writer) (k : KeyWriter) (values : List Value) :
    Work (Option WholeRow) := do
  let world ← get
  let wanted := values.take k.index.parts.length
  if wanted.contains .null then return none
  let t := w.table
  let env : Env := .ofWorld world
  if !t.isNumbered && k.index.origin = .primary then
    match ← Work.ofExcept (w.plan.byPrimary env wanted).first with
    | some row => return some (← Work.ofExcept (WholeRow.ofRow row))
    | none => return none
  let keys := (t.keyParts k.index).map IndexPart.key
  let walk := Tree.walk (world.store t.store).pages .index k.index.root
    (some (positionOf world.encoding keys wanted))
  match walk.entries[0]?, walk.failure with
  | none, some f => Work.fail f
  | none, none => return none
  | some entry, _ =>
    if t.isNumbered then
      let fields := Record.fields world.encoding entry.payload
      match fields.get k.index.parts.length .null with
      | .ok (.integer number) => return some { number }
      | .ok _ => Work.fail .malformed
      | .error f => Work.fail f
    else
      let row ← Work.ofExcept (w.plan.rowBehind env k.index entry)
      return some (← Work.ofExcept (WholeRow.ofRow row))

/-- Whether two rows of a table are one. -/
def isSameRow (w : Writer) (e : Encoding) (a b : WholeRow) : Bool :=
  if w.table.isNumbered then a.number = b.number
  else SortKey.orderAll e (TablePlan.primaryKeys w.table) (w.primaryValues a)
         (w.primaryValues b) = .eq

/-- The largest number of a row; there may be none. -/
def lastNumber (w : Writer) : Work (Option Int) := do
  let pages := ((← get).store w.table.store).pages
  if pages.isBlank then return none
  if w.table.isVirtual then
    return ← Work.ofFailing (Shadow.lastNumber (← get) w.table)
  let last ← Work.ofFailing (Tree.last? pages .table w.table.root)
  return last.map (·.number)

/-- Takes all rows out of a table at once. -/
def clear (w : Writer) : Work Unit := do
  let t := w.table
  Work.editPages t.store fun p => Tree.clear p t.root
  w.keys.forM fun k => Work.editPages t.store fun p => Tree.clear p k.index.root

/-- The names of the types of values. -/
def typeName : Value → String
  | .integer _ => "INT"
  | v => String.ofList (v.kindName.toList.map Char.toUpper)

/-- Whether a value is of a type. -/
def isOfType (type : String) : Value → Bool
  | .null => true
  | .integer _ => ["any", "int", "integer"].contains type
  | .real _ => ["any", "real"].contains type
  | .text _ => ["any", "text"].contains type
  | .blob _ => ["any", "blob"].contains type

/-- Fails if a value is not of the type of its column, where that counts. -/
def checkTypes (w : Writer) (r : WholeRow) : Except Failure Unit :=
  let t := w.table
  if !t.isStrict then .ok ()
  else t.places.forM fun n =>
    let c := t.column n
    let v := r.value n
    if !c.isStored || t.numberColumn = some n ||
        isOfType (Token.lowered c.type) v then .ok ()
    else .error (.wrongType (typeName v)
      (String.ofList (c.type.toList.map Char.toUpper)) (t.fullName n))

end Writer

end Bytecode.Database
