import Bytecode.Database.Meaning.Query

/-!
# Definitions

What a table, an index or a rule is said to be is checked piece by piece, in the
order in which it is written: names must be known and differ, and what is said
about rows must be something that a row alone decides.
-/

namespace Bytecode.Database

/-- Where a definition stands. -/
structure Definition where
  world : World := {}
  store : Nat := 0
  /-- Whether it has been made before and is only read again. -/
  isLoading : Bool := false
  /-- Whether the database knows of descending parts. -/
  hasDirections : Bool := true

/-- A table in the making. -/
structure Draft where
  table : Table
  hasPrimary : Bool := false
  /-- The name of the clauses to come. -/
  label : Option String := none
  /-- Whether the number of the row, if it were a key, would descend. -/
  descends : Bool := false

namespace Definition

/-- Refuses a definition in words. -/
def refuse {α : Type} (text : String) : Except Failure α :=
  .error (.refused (.said text))

/-- Fails if nobody knows how texts are to be compared. -/
def checkCollation (d : Definition) (c : Collation) : Except Failure Unit :=
  match c with
  | .unknown name => if d.isLoading then .ok () else .error (.noCollation name)
  | _ => .ok ()

/-- Whether an expression needs nothing around it: no column, no query, no
place; it may be nested so deep. -/
def isFixed : Nat → Expr → Bool
  | 0, _ => false
  | depth + 1, e =>
    let all (es : List Expr) : Bool := es.all (isFixed depth)
    match e with
    | .literal _ | .number _ => true
    | .name database table column isQuoted =>
      database.isNone && table.isNone && !isQuoted &&
        (isSame column "true" || isSame column "false")
    | .unary _ a | .isNull _ a | .cast a _ | .collate a _ => isFixed depth a
    | .binary _ a b => all [a, b]
    | .between _ a low high => all [a, low, high]
    | .amongValues _ a items => all (a :: items)
    | .pattern _ _ a b escape => all (a :: b :: escape.toList)
    | .choice subject cases otherwise =>
      all (subject.toList ++ cases.flatMap (fun (q, v) => [q, v]) ++
        otherwise.toList)
    | .call c => all c.args && c.window.isNone
    | .list items => all items
    | .place _ | .amongRows _ _ _ | .amongTable _ _ _ | .exists _ | .row _
        | .raise _ _ => false

/-- A text where a name is meant is that name. -/
def asName : Expr → Expr
  | .literal (.text s) => .name none none s false
  | .collate a name => .collate (asName a) name
  | e => e

/-- The place of the last column. -/
def lastPlace (t : Table) : Nat := t.columns.size - 1

/-- A draft with something else in its last column. -/
def changeLast (x : Draft) (f : Column → Column) : Draft :=
  { x with table := { x.table with
             columns := x.table.columns.modify (lastPlace x.table) f } }

/-- What is said about the rows of a table must be something that a row
decides. -/
def checkOwn (d : Definition) (t : Table) (ground : Ground) (e : Expr) :
    Except Failure Meaning :=
  Build.alone do
    let (m, _) ← Build.inside (meanings.expr (Access.own d.world t ground) e)
    m.scalar

/-- A part of an index.  Only the parts of an index that a statement makes can
be more than columns. -/
def part (d : Definition) (t : Table) (isFree : Bool) (p : PartText) :
    Except Failure IndexPart := do
  if p.saysNulls.isSome then
    refuse ("unsupported use of NULLS " ++
      (if p.saysNulls = some true then "FIRST" else "LAST"))
  let value := asName p.value
  let m ← d.checkOwn t .index value
  let column := m.spot.bind (·.column)
  if column.isNone && !isFree then
    refuse "expressions prohibited in PRIMARY KEY and UNIQUE constraints"
  let collation := match value, column with
    | .collate _ name, _ => Collation.named name
    | _, some n => (t.column n).collation
    | _, none => .binary
  d.checkCollation collation
  return { column, value, collation,
           isDescending := p.isDescending && d.hasDirections }

/-- The name of the next index that a table gets by itself. -/
def ownIndexName (t : Table) : String :=
  "sqlite_autoindex_" ++ t.name ++ "_" ++ Text.decimal 1 (t.indexes.length + 1)

/-- Whether two indexes have the same parts. -/
def isSameIndex (a b : Index) : Bool :=
  a.parts.length = b.parts.length && (a.parts.zip b.parts).all fun (p, q) =>
    p.column = q.column && p.collation = q.collation

/-- Adds an index that a clause asks for, unless there is one with the same
parts. -/
def addIndex (t : Table) (parts : List IndexPart) (onConflict : Option Policy)
    (origin : IndexOrigin) : Except Failure Table := do
  let new : Index :=
    { name := ownIndexName t, parts, isUnique := true, onConflict, origin }
  match t.indexes.find? (isSameIndex new) with
  | some old =>
    if old.onConflict ≠ onConflict && old.onConflict.isSome &&
        onConflict.isSome then
      refuse "conflicting ON CONFLICT clauses specified"
    let merged := { old with
      onConflict := old.onConflict.or onConflict
      origin := if origin = .primary then .primary else old.origin }
    return { t with indexes := t.indexes.map
                      fun i => if i.name = old.name then merged else i }
  | none => return { t with indexes := Index.arrange new t.indexes }

/-- Columns of a primary key cannot be computed. -/
def checkPrimary (t : Table) (columns : List Nat) : Except Failure Unit :=
  if columns.any fun n => (t.column n).computed.isSome then
    refuse "generated columns cannot be part of the PRIMARY KEY"
  else .ok ()

/-- Adds a primary key.  A single column of whole numbers is the number of the
row. -/
def addPrimary (d : Definition) (x : Draft) (parts : Option (List PartText))
    (isDescending isCounting : Bool) (onConflict : Option Policy) :
    Except Failure Draft := do
  let t := x.table
  if x.hasPrimary then throw (.refused (.twoPrimaryKeys t.name))
  let columns := match parts with
    | none => [lastPlace t]
    | some ps => ps.filterMap fun p =>
      match (Select.withoutCollation (asName p.value)).1 with
      | .name none none column _ => t.column? column
      | _ => none
  checkPrimary t columns
  let count := (parts.map (·.length)).getD 1
  let x := { x with hasPrimary := true }
  let isNumber (n : Nat) : Bool := Token.lowered (t.column n).type = "integer"
  match columns with
  | [n] =>
    if count = 1 && isNumber n && !(parts.isNone && isDescending) then
      let descends := parts.any fun ps => ps.any (·.isDescending)
      if let some ps := parts then
        if let some nulls := ps.findSome? (·.saysNulls) then
          refuse
            ("unsupported use of NULLS " ++ (if nulls then "FIRST" else "LAST"))
      return { x with
        table :=
          { t with numberColumn := some n, onNumber := onConflict, isCounting,
                   primary := [n] }, descends }
  | _ => pure ()
  if isCounting then
    refuse "AUTOINCREMENT is only allowed on an INTEGER PRIMARY KEY"
  let parts ← match parts with
    | some ps => ps.mapM (d.part t false)
    | none =>
      let c := t.column (lastPlace t)
      pure [{ column := some (lastPlace t),
              value := .name none none c.name false, collation := c.collation,
              isDescending := isDescending && d.hasDirections }]
  let t ← addIndex t parts onConflict .primary
  return { x with table := { t with primary := parts.filterMap (·.column) } }

/-- Adds a dependence on another table. -/
def addDependence (x : Draft) (columns : Option (List String)) (r : Reference) :
    Except Failure Draft := do
  let t := x.table
  let places ← match columns with
    | none =>
      if 1 < r.columns.length then
        refuse ("foreign key on " ++ (t.column (lastPlace t)).name ++
          " should reference only one column of table " ++ r.table)
      pure [lastPlace t]
    | some names =>
      if !r.columns.isEmpty && r.columns.length ≠ names.length then
        refuse
          ("number of columns in foreign key does not match the number of columns in " ++
            "the referenced table")
      names.mapM fun name =>
        match t.column? name with
        | some n => .ok n
        | none => refuse ("unknown column \"" ++ name ++
            "\" in foreign key definition")
  let new : Dependence :=
    { columns := places, table := r.table, targets := r.columns, onDelete :=
        r.onDelete, onUpdate := r.onUpdate, isDeferred := r.isDeferred }
  return { x with table := { t with dependences := new :: t.dependences } }

/-- Adds a question about rows. -/
def addCheck (x : Draft) (text : String) (question : Expr) : Draft :=
  { x with
    table := { x.table with
      checks := x.table.checks ++ [{ label := x.label.getD text, question }] } }

/-- Adds a computed column. -/
def addComputed (x : Draft) (e : Expr) (isStored : Option Bool) :
    Except Failure Draft := do
  let c := x.table.column (lastPlace x.table)
  match isStored with
  | none => refuse ("error in generated column \"" ++ c.name ++ "\"")
  | some isStored =>
    if c.fallback.isSome || c.computed.isSome then
      refuse ("error in generated column \"" ++ c.name ++ "\"")
    let x := changeLast x fun c => { c with computed := some e, isStored }
    if x.table.primary.contains (lastPlace x.table) then
      refuse "generated columns cannot be part of the PRIMARY KEY"
    return x

/-- A draft with what a clause says about its last column. -/
def columnClause (d : Definition) (x : Draft) :
    ColumnClause → Except Failure Draft
  | .label name => .ok { x with label := some name }
  | .fallback text e => do
    let c := x.table.column (lastPlace x.table)
    if !isFixed maxNesting e then
      refuse ("default value of column [" ++ c.name ++ "] is not constant")
    if c.computed.isSome then refuse "cannot use DEFAULT on a generated column"
    return changeLast x fun c =>
      { c with fallback := some e, fallbackText := some text }
  | .nullable => .ok x
  | .required onConflict => .ok (changeLast x
      fun c => { c with required := some (onConflict.getD .abort) })
  | .primary isDescending onConflict isCounting =>
      d.addPrimary x none isDescending isCounting onConflict
  | .unique onConflict => do
    let n := lastPlace x.table
    let c := x.table.column n
    let part : IndexPart :=
      { column := some n, value := .name none none c.name false,
        collation := c.collation }
    return { x with table := ← addIndex x.table [part] onConflict .unique }
  | .check text e => .ok (addCheck x text e)
  | .references r => addDependence x none r
  | .deferral isDeferred =>
    match x.table.dependences with
    | [] => .ok x
    | r :: rest => .ok { x with
        table := { x.table with dependences := { r with isDeferred } :: rest } }
  | .collation name => do
    let c := Collation.named name
    d.checkCollation c
    let n := lastPlace x.table
    let fix (i : Index) : Index :=
      { i with parts := i.parts.map fun p =>
                 if p.column = some n then { p with collation := c } else p }
    let x := changeLast x fun col => { col with collation := c }
    return { x with
      table := { x.table with indexes := x.table.indexes.map fix } }
  | .computed e isStored => addComputed x e isStored

/-- A draft with another column. -/
def addColumn (d : Definition) (x : Draft) (c : ColumnText) :
    Except Failure Draft := do
  if (x.table.column? c.name).isSome then throw (.refused (.columnTwice c.name))
  let new : Column :=
    { name := c.name, type := c.type, affinity := .ofType c.type }
  let x :=
    { x with table := { x.table with columns := x.table.columns.push new },
             label := none }
  c.clauses.foldlM d.columnClause x

/-- A draft with what a clause says about the table. -/
def tableClause (d : Definition) (x : Draft) :
    TableClause → Except Failure Draft
  | .label name => .ok { x with label := if name = "" then none else some name }
  | .primary parts isCounting onConflict =>
      d.addPrimary x (some parts) false isCounting onConflict
  | .unique parts onConflict => do
    let parts ← parts.mapM (d.part x.table false)
    return { x with table := ← addIndex x.table parts onConflict .unique }
  | .check text e => .ok (addCheck x text e)
  | .references columns r => addDependence x (some columns) r

/-- The types that columns can have if they hold values of their types only. -/
def strictTypes : List String :=
  ["any", "blob", "int", "integer", "real", "text"]

/-- A table whose columns hold values of their types only. -/
def makeStrict (t : Table) : Except Failure Table := do
  t.columns.toList.forM fun c =>
    if c.type = "" then throw (.refused (.noType (t.name ++ "." ++ c.name)))
    else if strictTypes.contains (Token.lowered c.type) then .ok ()
    else throw (.refused (.unknownType (t.name ++ "." ++ c.name) c.type))
  let columns := t.columns.mapIdx fun n c =>
    let c :=
      if Token.lowered c.type = "any" then { c with affinity := .plain } else c
    if t.primary.contains n && t.numberColumn ≠ some n && c.required.isNone then
      { c with required := some .abort }
    else c
  return { t with columns, isStrict := true }

/-- A table whose rows are found by the primary key. -/
def makeUnnumbered (d : Definition) (x : Draft) : Except Failure Table := do
  let t := x.table
  if t.isCounting then
    refuse "AUTOINCREMENT not allowed on WITHOUT ROWID tables"
  if !x.hasPrimary then throw (.refused (.noPrimaryKey t.name))
  let t ← match t.numberColumn with
    | some n =>
      let c := t.column n
      let part : IndexPart :=
        { column := some n, value := .name none none c.name false, collation :=
            c.collation, isDescending := x.descends && d.hasDirections }
      addIndex { t with numberColumn := none } [part] t.onNumber .primary
    | none => pure t
  let single (parts : List IndexPart) : List IndexPart :=
    parts.foldl (fun kept p =>
    if kept.any fun q => q.column = p.column && q.collation = p.collation then
      kept
    else kept ++ [p]) []
  let indexes := t.indexes.map fun i =>
    if i.origin = .primary then { i with parts := single i.parts } else i
  let primary := ((indexes.find? (·.origin = .primary)).map
    fun i => i.parts.filterMap (·.column)).getD []
  let columns := t.columns.mapIdx fun n c =>
    if primary.contains n && c.required.isNone then
      { c with required := some .abort }
    else c
  return { t with
    indexes, primary := primary.eraseDups, columns, isNumbered := false }

/-- What is said about rows is checked when all columns are known. -/
def checkRows (d : Definition) (t : Table) : Except Failure Unit := do
  t.checks.forM fun c => do
    let _ ← d.checkOwn t .check c.question
  t.columns.toList.forM fun c => do
    match c.computed with
    | some e =>
      let _ ← d.checkOwn t .computed e
    | none => pure ()
  if t.columns.all (·.computed.isSome) then
    refuse "must have at least one non-generated column"

/-- The table that a definition describes. -/
def table (d : Definition) (name : String) (text : TableText) :
    Except Failure Table := do
  let start : Draft := { table := { name, store := d.store } }
  let x ← text.columns.foldlM d.addColumn start
  let x ← text.clauses.foldlM d.tableClause { x with label := none }
  match text.options.findSome? fun | .unknown name => some name | _ => none with
  | some name => throw (.refused (.unknownOption name))
  | none => pure ()
  let t ← if text.options.contains .strict then makeStrict x.table else
      pure x.table
  let t ← if text.options.contains .unnumbered then d.makeUnnumbered { x with
    table := t } else pure t
  d.checkRows t
  return t

/-- The index that a definition describes. -/
def index (d : Definition) (t : Table) (name : String) (text : IndexText) :
    Except Failure Index := do
  match text.condition with
  | some e =>
    let _ ← d.checkOwn t .partialIndex e
  | none => pure ()
  let parts ← text.parts.mapM (d.part t true)
  return { name, parts, isUnique := text.isUnique, condition := text.condition }

end Definition

end Bytecode.Database
