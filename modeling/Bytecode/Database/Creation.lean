import Bytecode.Database.Catalogue.Edit
import Bytecode.Database.Mention

/-!
# Making tables, indexes, views and rules

A name must be free, and what is made must make sense.  A table begins with its
own tree and those of its keys; an index is filled with the rows that are there.
-/

namespace Bytecode.Database

namespace Creation

/-- The place of the database that something new is put into. -/
def place (w : World) (isTemporary : Bool) (name : TableName) :
    Except Failure Nat :=
  match name.database with
  | none => .ok (if isTemporary then 1 else 0)
  | some d =>
    match w.storeNamed? d with
    | none => .error (.refused (.unknownDatabase d))
    | some n =>
      if isTemporary && n ≠ 1 then
        .error (.refused (.said "temporary table name must be unqualified"))
      else .ok n

/-- Whether a name is kept for what is made without being asked for. -/
def isReserved (name : String) : Bool :=
  "sqlite_".toList.isPrefixOf (Token.lowered name).toList

/-- Fails if a name may not be given. -/
def checkName (w : World) (name : String) : Except Failure Unit :=
  if isReserved name && !w.switches.opensCatalogue then
    .error (.refused (.reservedName name))
  else .ok ()

/-- Whether a name is taken by a table or a view, where that is allowed. -/
def isTaken (w : World) (n : Nat) (ifMissing : Bool) (name : String) :
    Except Failure Bool := do
  let schema := (w.store n).schema
  let kind? : Option String := ((schema.table? name).map fun _ => "table").or
    ((schema.view? name).map fun _ => "view")
  match kind? with
  | some kind =>
      if ifMissing then return true else throw (.refused (.taken kind name))
  | none =>
    if (schema.index? name).isSome then throw (.refused (.indexNamed name))
    return false

/-- What a statement is about, and whether there is nothing to do. -/
def named (w : World) (isTemporary ifMissing : Bool) (name : TableName) :
    Except Failure (Nat × Bool) := do
  let n ← place w isTemporary name
  checkName w name.name
  return (n, ← isTaken w n ifMissing name.name)

/-- Fails if something that is not temporary speaks of another database than its
own. -/
def checkStrangers (w : World) (n : Nat) (kind name : String) (m : Mention) :
    Except Failure Unit :=
  match if n = 1 then none else
      m.stranger? fun d => w.storeNamed? d = some n with
  | some d => .error (.refused (.said
      (kind ++ " " ++ name ++ " cannot reference objects in database " ++ d)))
  | none => .ok ()

/-- Where a definition stands that is new. -/
def definition (w : World) (n : Nat) : Definition :=
  let form := (w.store n).pages.header Catalogue.formPosition
  { world := w, store := n, hasDirections := form = 0 || 4 ≤ form }

/-- Makes the trees of a table and its row in the list. -/
def makeTable (n : Nat) (t : Table) (text : String) : Work Nat := do
  Catalogue.start n
  let root ← Catalogue.tree n (if t.isNumbered then .table else .index)
  let number ← Catalogue.append n (List.replicate 5 .null)
  -- the oldest index comes first
  let own := t.ownIndexes.mergeSort fun a b =>
    a.name.length < b.name.length ||
      (a.name.length = b.name.length && a.name ≤ b.name)
  own.forM fun i => do
    let page ← Catalogue.tree n .index
    let _ ← Catalogue.append n [.text "index", .text i.name, .text t.name,
      .integer page, .null]
  Catalogue.put n number [.text "table", .text t.name, .text t.name,
    .integer root, .text ("CREATE TABLE " ++ text)]
  return root

/-- Makes a table. -/
def table (w : World) (n : Nat) (name : String) (t : TableText)
    (text : String) : Except Failure (Work Unit) := do
  let new ← (definition w n).table name t
  match new.unseen? with
  | some column => throw (.refused (.said (cycleWords column)))
  | none => pure ()
  return do
    let _ ← makeTable n new text
    if new.isCounting &&
        ((w.store n).schema.table? "sqlite_sequence").isNone then
      let counter : Table :=
        { name := "sqlite_sequence",
          columns := #[{ name := "name" }, { name := "seq" }] }
      let _ ← makeTable n counter "sqlite_sequence(name,seq)"
    Catalogue.finish n

/-- Makes a table that rows of another are kept in, with its first rows. -/
def part (n : Nat) (t : Table) (name definition : String)
    (rows : List (Int × List Value)) : Work Unit := do
  let w ← get
  let full := Virtual.partName t name
  if ((w.store n).schema.table? full).isSome ||
      ((w.store n).schema.view? full).isSome then
    throw (.said (match t.form with
      | .texts _ => "fts5: error creating shadow table " ++ full ++
                      ": table \x27" ++ full ++ "\x27 already exists"
      | _ => "table \"" ++ full ++ "\" already exists"))
  match Statement.next
    (Token.all ("CREATE TABLE " ++ Virtual.partText t name definition)) with
  | .ok (some (.createTable _ _ _ own text, _)) =>
      (← Work.ofFailing (table w n full own text))
  | _ => Work.fail .malformed
  let w ← get
  match (w.store n).schema.table? full with
  | none => Work.fail .malformed
  | some own =>
    let writer ← Work.ofFailing (Build.alone (Writer.ofTable w own))
    rows.forM fun (number, values) =>
      writer.putRow { number, values := values.toArray }

/-- Makes a table that is kept in others. -/
def virtual (w : World) (n : Nat) (name : String) (v : VirtualText)
    (text : String) : Except Failure (Work Unit) := do
  let t ← Virtual.table name v
  let t := { t with store := n }
  return do
    Catalogue.start n
    let _ ← Catalogue.append n [.text "table", .text name, .text name,
      .integer 0, .text ("CREATE VIRTUAL TABLE " ++ text)]
    Catalogue.finish n
    (Virtual.parts t (w.store n).pages.size).forM
      fun (part, definition, rows) => Creation.part n t part definition rows

/-- A name as it stands in a definition. -/
def quoted (name : String) : String :=
  let isPlain : Bool := match name.toList with
    | [] => false
    | c :: rest => Token.beginsWord c && c.toNat < 128 && rest.all (fun c =>
        Token.continuesWord c &&
        c ≠ '$') && !reserved.contains (Token.lowered name)
  if isPlain then name
  else "\"" ++ String.join (name.toList.map fun c => if c = '"' then "\"\"" else
      String.singleton c) ++ "\""

/-- The definition of a table with the columns of a query. -/
def definitionText (name : String) (columns : List ResultColumn) : String :=
  let size (name : String) : Nat :=
    Text.size name + (name.toList.filter (· = '"')).length + 2
  let type (c : ResultColumn) : String :=
    match c.affinity with
    | some .text => " TEXT"
    | some .numeric => " NUM"
    | some .integer => " INT"
    | some .real => " REAL"
    | _ => ""
  let length := columns.foldl (fun n c => n + size c.name + 5) (size name)
  let (front, between, behind) :=
    if length < 50 then ("", ",", ")") else ("\n  ", ",\n  ", "\n)")
  quoted name ++ "(" ++ front ++ String.intercalate between
    (columns.map fun c => quoted c.name ++ type c) ++ behind

/-- Makes a table with the rows of a query. -/
def tableOfQuery (w : World) (n : Nat) (name : String) (q : Query) :
    Except Failure (Work Unit) := do
  let p ← Build.alone (meanings.query { world := w } q)
  let columns := From.renamed p.columns []
  let text := definitionText name columns
  return do
    let t : Table :=
      { name, columns :=
          (columns.map fun c => ({ name := c.name } : Column)).toArray }
    let _ ← makeTable n t text
    Catalogue.finish n
    let w ← get
    match (w.store n).schema.table? name with
    | none => Work.fail .malformed
    | some t =>
      let writer ← Work.ofFailing (Build.alone (Writer.ofTable w t))
      let rows ← Work.ofExcept (p.run (.ofWorld w)).all
      rows.toList.zipIdx.forM fun (values, k) => do
        writer.putRow { number := k + 1, values := writer.fitted values }

/-- The table that an index is made for, with the place of its database. -/
def indexed (w : World) (name : TableName) (table : String) :
    Except Failure (Nat × Table) := do
  let database ← match name.database with
    | none => pure none
    | some d =>
      match w.storeNamed? d with
      | none => throw (.refused (.unknownDatabase d))
      | some n => pure (some n)
  let n :=
    database.getD (if ((w.store 1).schema.table? table).isSome then 1 else 0)
  let store := w.store n
  if database = some 1 then
    match w.relation? { name := table } with
    | none => throw (.refused (.noSuchTable table))
    | some x =>
      let (own, full) := match x with
        | .inl t => (t.store, t.name)
        | .inr v => (v.store, v.name)
      if own ≠ 1 then
        throw (.refused (.said
          ("cannot create a TEMP index on non-TEMP table \"" ++ full ++ "\"")))
  if World.isCatalogue table then
    throw (.refused (.internalTable "indexed" "sqlite_master"))
  match store.schema.table? table, store.schema.view? table with
  | some t, _ =>
    if isReserved t.name then throw (.refused (.internalTable "indexed" t.name))
    if t.isVirtual then
      throw (.refused (.said "virtual tables may not be indexed"))
    return (n, t)
  | none, some _ => throw (.refused (.said "views may not be indexed"))
  | none, none => throw (.refused (.noSuchTable (store.name ++ "." ++ table)))

/-- Fills an index with the rows of its table. -/
def fill (w : Writer) (k : KeyWriter) : Work Unit := do
  let world ← get
  let e := world.encoding
  let rows ← Work.ofExcept (w.plan.rows (.ofWorld world)).all
  let entries ← rows.toList.filterMapM fun row => do
    let whole ← Work.ofExcept (WholeRow.ofRow row)
    Work.ofExcept (w.entry k world whole)
  let order := w.order k
  let sorted := entries.mergeSort fun a b => SortKey.orderAll e order a b ≠ .gt
  let keys := k.index.parts.map IndexPart.key
  if k.index.isUnique then
    (sorted.zip sorted.tail).forM fun (a, b) => do
      let own := a.take keys.length
      if SortKey.orderAll e keys a b = .eq && !own.contains .null then
        Work.fail (.notUnique false (w.keyNames k.index))
  Work.editPages w.table.store fun p => do
    let p ← sorted.foldlM (fun p values =>
      Tree.insertKey p k.index.root (positionOf e order values)
        (Record.encode e (w.packedEntry k values)))
      { p with isFilling := true }
    return { p with isFilling := false }

/-- Fills the tree of the index of a table that has a name. -/
def fillNamed (n : Nat) (name : String) : Work Unit := do
  let w ← get
  match (w.store n).schema.index? name with
  | none => Work.fail .malformed
  | some (t, i) =>
    let writer ← Work.ofFailing (Build.alone (Writer.ofTable w t))
    match writer.keys.find? fun k => k.index.name = i.name with
    | some k => fill writer k
    | none => Work.fail .malformed

/-- Makes an index, unless there is nothing to do. -/
def index (w : World) (ifMissing : Bool) (name : TableName) (x : IndexText)
    (text : String) : Except Failure (Option (Nat × Work Unit)) := do
  let (n, t) ← indexed w name x.table
  checkName w name.name
  let schema := (w.store n).schema
  if (schema.table? name.name).isSome || (schema.view? name.name).isSome then
    throw (.refused (.tableNamed name.name))
  if (schema.index? name.name).isSome then
    if ifMissing then return none
    else throw (.refused (.taken "index" name.name))
  let _ ← (definition w n).index t name.name x
  return some (n, do
    let page ← Catalogue.tree n .index
    let _ ← Catalogue.append n [.text "index", .text name.name, .text t.name,
      .integer page, .text
      ("CREATE" ++ (if x.isUnique then " UNIQUE" else "") ++ " INDEX " ++ text)]
    Catalogue.finish n
    fillNamed n name.name)

/-- Makes a view. -/
def view (n : Nat) (name text : String) : Work Unit := do
  Catalogue.start n
  let _ ← Catalogue.append n [.text "view", .text name, .text name, .integer 0,
    .text ("CREATE VIEW " ++ text)]
  Catalogue.finish n

/-- Makes a rule, unless there is nothing to do. -/
def rule (w : World) (isTemporary ifMissing : Bool) (name : TableName)
    (r : RuleText) (text : String) :
    Except Failure (Option (Nat × Work Unit)) := do
  let refuse {α : Type} (text : String) : Except Failure α :=
    .error (.refused (.said text))
  if isTemporary && name.database.isSome then
    refuse "temporary trigger may not have qualified name"
  let asked ← if isTemporary then pure 1 else place w false name
  let isOwn : Bool := match w.relation? r.table with
    | some (.inl t) => t.store = 1
    | some (.inr v) => v.store = 1
    | none => false
  let n := if name.database.isNone && isOwn then 1 else asked
  checkStrangers w n "trigger" name.name { tables := [r.table] }
  let located : TableName := if n = 1 then r.table else
      { r.table with database := some (w.store n).name }
  let relation ← match w.relation? located with
    | none => throw (.refused (.noSuchTable located.text))
    | some x => pure x
  checkName w name.name
  if ((w.store n).schema.rule? name.name).isSome then
    if ifMissing then return none
    else throw (.refused (.taken "trigger" name.name))
  let shown := if n = 1 then r.table.text else r.table.name
  let table ← match relation with
    | .inl t =>
      if t.isVirtual then refuse "cannot create triggers on virtual tables"
      if isReserved t.name then refuse "cannot create trigger on system table"
      if r.time = .instead then
        refuse ("cannot create INSTEAD OF trigger on table: " ++ shown)
      pure t.name
    | .inr v =>
      if r.time ≠ .instead then
        refuse ("cannot create " ++ (if r.time = .before then "BEFORE" else
            "AFTER") ++ " trigger on view: " ++ shown)
      pure v.name
  let mentioned := Mention.ofRule r
  if !mentioned.places.isEmpty then refuse "trigger cannot use variables"
  checkStrangers w n "trigger" name.name mentioned
  return some (n, do
    Catalogue.start n
    let _ ← Catalogue.append n [.text "trigger", .text name.name, .text table,
      .integer 0, .text ("CREATE TRIGGER " ++ text)]
    Catalogue.finish n)

end Creation

end Bytecode.Database
