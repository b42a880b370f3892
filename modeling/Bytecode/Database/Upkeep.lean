import Bytecode.Database.Catalogue.Edit
import Bytecode.Database.Change
import Bytecode.Database.Removal

/-!
# Looking after a database

Indexes can be made anew from the rows of their tables, rows can be counted for
later, and the whole database can be written anew.
-/

namespace Bytecode.Database

/-! ### Counting the entries of an index

How many entries an index has, and how many of them agree in their first values
on the average, is written down for later.  Some entries are written down
themselves, with how many agree with them, come before them, and differ among
those before: some at equal distances, and beside these those that stand for the
most others.
-/

/-- An entry of an index that may be written down. -/
structure Sample where
  values : List Value := []
  /-- For each number of first values: how many entries agree with this one in
  them. -/
  equal : Array Nat := #[]
  /-- How many come before all those. -/
  less : Array Nat := #[]
  /-- How many different ones come before. -/
  distinct : Array Nat := #[]
  /-- Whether it is one of those at equal distances. -/
  isPeriodic : Bool := false
  /-- The place in whose values it is frequent. -/
  column : Nat := 0
  /-- Decides between entries that are otherwise alike. -/
  lot : Nat := 0
  deriving Inhabited

namespace Sample

/-- Decides between two entries that are equally frequent. -/
def beatsEqual (a b : Sample) : Bool :=
  match (List.range a.equal.size).find? fun i => a.column < i &&
    a.equal.getD i 0 ≠ b.equal.getD i 0 with
  | some i => b.equal.getD i 0 < a.equal.getD i 0
  | none => b.lot < a.lot

/-- Whether an entry stands for more others than another one. -/
def beats (a b : Sample) : Bool :=
  let n := a.equal.getD a.column 0
  let k := b.equal.getD b.column 0
  k < n ||
    (n = k && (a.column < b.column || (a.column = b.column && beatsEqual a b)))

end Sample

/-- What has been counted so far. -/
structure Census where
  /-- How many values an entry has. -/
  width : Nat
  /-- The distance between entries that are written down in any case. -/
  period : Nat
  /-- A number without any order, to draw lots by. -/
  lot : Nat
  rows : Nat := 0
  /-- The entry that was seen last. -/
  current : Sample := {}
  /-- For each place the best entry of those that agree with the last one in its
  values. -/
  best : Array Sample := #[]
  samples : Array Sample := #[]
  deriving Inhabited

namespace Census

/-- How many entries are written down. -/
def room : Nat := 24

/-- The place of the entry that stands for the fewest others. -/
def weakest (samples : Array Sample) : Option Nat :=
  samples.toList.zipIdx.foldl (fun (least : Option Nat) (s, i) =>
    if s.isPeriodic then least
    else match least.bind fun k => samples[k]? with
      | some l => if l.beats s then some i else least
      | none => some i) none

/-- Takes a new entry in; how often its first values occur is not known yet. -/
def add (samples : Array Sample) (new : Sample) (unknown : Nat) :
    Array Sample :=
  let new := { new with
    equal := new.equal.mapIdx fun i n => if i < unknown then 0 else n }
  let kept := if samples.size < room then samples
    else match weakest samples with
      | some k => samples.eraseIdxIfInBounds k
      | none => samples
  kept.push new

/-- Takes an entry in that is frequent, unless one that agrees with it is in
already: that one then counts for more. -/
def takeIn (samples : Array Sample) (new : Sample) : Array Sample :=
  let alike := samples.toList.zipIdx.reverse.filter fun (s, _) =>
    s.equal.getD new.column 1 = 0
  if alike.any fun (s, _) => s.isPeriodic then samples
  else
    let chosen := alike.foldl (fun (best : Option (Sample × Nat)) x =>
      match best with
      | some b => if x.1.beats b.1 then some x else best
      | none => some x) none
    match chosen with
    | some (_, k) => samples.modify k fun s =>
        { s with column := new.column, equal := s.equal.setIfInBounds new.column
                   (new.equal.getD new.column 0) }
    | none => add samples new new.column

/-- Takes the best entries in, when another value follows in a place, and notes
how often values have occurred. -/
def close (c : Census) (changed : Nat) : Census :=
  let places := ((List.range (c.width - 1)).filter (changed ≤ ·)).reverse
  let c := places.foldl (fun (c : Census) i =>
    let best := c.best.getD i default
    let best := { best with
      equal := best.equal.setIfInBounds i (c.current.equal.getD i 0) }
    let c := { c with best := c.best.setIfInBounds i best }
    let isWorthy : Bool := c.samples.size < room ||
      ((weakest c.samples).bind fun k => c.samples[k]?).any best.beats
    if isWorthy then { c with samples := takeIn c.samples best } else c) c
  { c with
    samples := c.samples.map fun s =>
      { s with
        equal := s.equal.mapIdx fun i n =>
          if n = 0 && changed ≤ i then c.current.equal.getD i 0 else n } }

/-- Counts an entry, from the first place in which it differs from the one
before. -/
def count (c : Census) (values : List Value) (changed : Nat) : Census :=
  let c := if c.rows = 0 then
      { c with current := { c.current with
          equal := Array.replicate c.width 1, less := Array.replicate c.width 0
          distinct := Array.replicate c.width 0 } }
    else
      let c := c.close changed
      let s := c.current
      { c with current := { s with
          equal := s.equal.mapIdx fun i n => if i < changed then n + 1 else 1
          less := s.less.mapIdx fun i n => if i < changed then n else
              n + s.equal.getD i 0
          distinct :=
            s.distinct.mapIdx fun i n => if i < changed then n else n + 1 } }
  let lot := (c.lot * 1103515245 + 12345) % 0x100000000
  let current := { c.current with values, lot }
  let before := current.less.getD (c.width - 1) 0
  let samples := if before / c.period ≠ (before + 1) / c.period then
      add c.samples { current with isPeriodic := true, column := 0 }
        (c.width - 1)
    else c.samples
  let best := (List.range (c.width - 1)).foldl (fun (best : Array Sample) i =>
    let new := { current with column := i }
    match best[i]? with
    | some old =>
        if changed ≤ i || new.beatsEqual old then best.setIfInBounds i new
        else best
    | none => best.push new) c.best
  { c with rows := c.rows + 1, lot, current, samples, best }

/-- The first place in which two entries differ, as far as that is looked at. -/
def difference (e : Encoding) (keys : List SortKey) (looked : Nat)
    (a b : List Value) : Nat :=
  ((List.range looked).find? fun i =>
    (keys.getD i {}).order e (a.getD i .null) (b.getD i .null) ≠
      .eq).getD looked

/-- Counts all entries of an index. -/
def ofEntries (e : Encoding) (keys : List SortKey) (looked : Nat)
    (entries : List (List Value)) : Census :=
  let width := keys.length
  let rows := entries.length
  let lot :=
    Nat.xor (0x689e962d * width % 0x100000000) (0xd0944565 * rows % 0x100000000)
  let c := entries.foldl (fun (c : Census) values =>
    c.count values (if c.rows = 0 then 0 else
        difference e keys looked c.current.values values))
    { width, period := rows / (room / 3 + 1) + 1, lot }
  c.close 0

/-- Numbers with blanks between them. -/
def spaced (ns : List Nat) : String :=
  String.intercalate " " (ns.map (Text.decimal 1))

/-- How many entries there are, and how many of them agree in their first
values. -/
def summary (c : Census) (parts : Nat) : String :=
  let average (i : Nat) : Nat :=
    let different := c.current.distinct.getD i 0 + 1
    let n := (c.rows + different - 1) / different
    if n = 2 && c.rows * 10 ≤ different * 11 then 1 else n
  spaced (c.rows :: (List.range parts).map average)

end Census

/-! ### Writing a database anew

All rows are copied to fresh pages, one tree after the other, so that nothing is
left of what has been removed.  First everything is listed that has a tree, then
the trees are filled, and at last the rest is listed.
-/

namespace Vacuum

/-- The order of the entries of a tree with a page where it begins. -/
def orderOf (t : Table) (root : Nat) : List SortKey :=
  if !t.isNumbered && t.root = root then TablePlan.primaryKeys t
  else match t.indexes.find? fun i => i.root = root with
    | some i => (t.keyParts i).map IndexPart.key ++
                  (if t.isNumbered then [({} : SortKey)] else [])
    | none => []

/-- Fills a tree with the entries of another one.  Rows are numbered anew, or
keep their numbers. -/
def copyTree (e : Encoding) (source : Pages) (kind : TreeKind) (root : Nat)
    (keys : List SortKey) (isRenumbered : Bool) (new : Nat) (p : Pages) :
    Except Failure Pages := do
  let walk := Tree.walk source kind root none
  match walk.failure with
  | some f => throw f
  | none => pure ()
  let p ← walk.entries.toList.zipIdx.foldlM (fun p (entry, n) =>
    let bytes := entry.payload.bytes.toList
    match kind with
    | .table => Tree.insertRow p new (if isRenumbered then (n : Int) + 1 else
        entry.number) bytes
    | .index => do
      let values ← (Record.fields e entry.payload).all
      Tree.insertKey p new (positionOf e keys values) bytes) { p with
        isFilling := kind = .index }
  return { p with isFilling := false }

/-- The header of a database written anew. -/
def header (source p : Pages) : Pages :=
  let cookie := (source.header Catalogue.cookiePosition + 1) % Word.size32
  let copied := [44, 48, 56, 60, 68].foldl
    (fun (p : Pages) k => p.setHeader k (source.header k)) p
  let counted := [24, 92, 96].foldl
    (fun (p : Pages) k => p.setHeader k (source.header k)) copied
  (counted.setHeader Catalogue.cookiePosition cookie).write 1
    (((counted.setHeader Catalogue.cookiePosition cookie).first).put 18
      (source.first.slice 18 2))

/-- Whether something in the list has a tree. -/
def hasTree (x : Listing) : Bool :=
  match x.root with
  | .integer k => 0 < k
  | _ => false

/-- What has a tree, in the order in which it is made anew: each table with the
indexes that come with it, the counter of rows behind the first table that needs
it, then the other indexes. -/
def withTrees (schema : Schema) (rows : List Listing) : List Listing :=
  let isCounter (x : Listing) : Bool := x.name.any (isSame "sqlite_sequence")
  let isCounting (x : Listing) : Bool :=
    (schema.table? x.table).any (·.isCounting)
  let tables :=
    rows.filter fun x => x.kind = "table" && hasTree x && !isCounter x
  let front := tables.takeWhile (!isCounting ·)
  let group (x : Listing) : List Listing :=
    x :: rows.filter fun i => i.kind = "index" && i.text.isNone &&
      isSame i.table x.table
  front.flatMap group ++
    (match tables.drop front.length with
      | [] => []
      | x :: rest => group x ++ rows.filter isCounter ++ rest.flatMap group) ++
    rows.filter fun x => x.kind = "index" && x.text.isSome

/-- The trees of a table in the order in which they are filled, each with the
page where it begins: its rows, then its indexes. -/
def trees (t : Table) : List (TreeKind × Nat) :=
  (if t.isNumbered then [(.table, t.root)] else []) ++ t.indexes.map fun i =>
    (.index, if !t.isNumbered && i.origin = .primary then t.root else i.root)

/-- Writes a row of the list. -/
def list (e : Encoding) (p : Pages) (number : Nat) (x : Listing) (root : Nat) :
    Except Failure Pages :=
  Tree.insertRow p 1 number
    (Record.encode e { x with root := .integer root }.values)

/-- Writes a database anew, on pages of a given size, and tells the number of
the last row of its list that has no tree.  A copy keeps the numbers of rows;
otherwise rows that nothing refers to by their number are numbered anew. -/
def rebuilt (w : World) (n : Nat) (size : Nat) (isCopy : Bool) :
    Except Failure (Pages × Option Nat) := do
  let store := w.store n
  let source := store.pages
  let e := w.encoding
  if source.isBlank then return (source, none)
  let (rows, failure) := w.listing n
  match failure with
  | some f => throw f
  | none => pure ()
  let rows := (← rows).map (·.2)
  let blank : Pages := { size, spare := source.spare, limit := source.limit }
  let rooted := withTrees store.schema rows
  let others := rows.filter fun x => x.kind = "view" || x.kind = "trigger" ||
    (x.kind = "table" && !hasTree x)
  let kindOf (x : Listing) : TreeKind :=
    if x.kind = "table" && (store.schema.table? x.table).all (·.isNumbered) then
      .table
    else .index
  let (p, roots) ← rooted.zipIdx.foldlM (fun (p, roots) (x, k) => do
    let (root, p) ← Tree.create p (kindOf x)
    let old : Nat := match x.root with
      | .integer r => r.toNat
      | _ => 0
    return (← list e p (k + 1) x root, (old, root) :: roots))
      (header source blank.begun, ([] : List (Nat × Nat)))
  let tables := (rooted.filter (·.kind = "table")).filterMap fun x =>
    store.schema.table? x.table
  let p ← tables.foldlM (fun p t =>
    let isRenumbered : Bool :=
      !isCopy && t.numberColumn.isNone && t.indexes.isEmpty
    (trees t).foldlM (fun p (kind, root) =>
      match roots.lookup root with
      | some new =>
          copyTree e source kind root (orderOf t root) isRenumbered new p
      | none => .ok p) p) p
  let p ← others.zipIdx.foldlM
    (fun p (x, k) => list e p (rooted.length + k + 1) x 0) p
  return (p,
    if others.isEmpty then none else some (rooted.length + others.length))

/-- Writes a database anew. -/
def run (n : Nat) (size : Nat) : Work Unit := do
  let w ← get
  let (pages, last) ← Work.ofFailing (rebuilt w n size false)
  let w ← Work.ofFailing ((w.setPages n pages).reload n)
  set { w with lastRow := (last.map Int.ofNat).getD w.lastRow }

end Vacuum

/-! ### Making indexes anew -/

namespace Upkeep

/-- Makes an index anew. -/
def refill (n : Nat) (i : Index) : Work Unit := do
  Work.editPages n fun p => Tree.clear p i.root
  Creation.fillNamed n i.name

/-- All tables of the connection with the databases they are in. -/
def tables (w : World) : List (Nat × Table) :=
  (List.range w.stores.size).flatMap fun n =>
    (w.store n).schema.tables.map (n, ·)

/-- Makes indexes anew. -/
def refillAll (found : List (Nat × Index)) : List Nat × Work Unit :=
  ((found.map (·.1)).eraseDups, found.forM fun (n, i) => refill n i)

/-- The indexes that a name is about: those that compare texts in a way, those
of a table, or one of them. -/
def indexesOf (w : World) (name : TableName) :
    Except Failure (List (Nat × Index)) :=
  let collation := if name.database.isSome then none else
      Collation.ofName? (Token.lowered name.name)
  match collation with
  | some c => .ok ((tables w).flatMap fun (n, t) =>
      (t.ownIndexes.filter fun i => i.parts.any fun p => p.collation = c).map
        (n, ·))
  | none =>
    match name.database.map w.storeNamed? with
    | some none => .error (.refused (.unknownDatabase (name.database.getD "")))
    | _ =>
      let places := w.candidates name.database
      match places.findSome? fun n =>
        ((w.store n).schema.table? name.name).map (n, ·) with
      | some (n, t) => .ok (t.ownIndexes.map (n, ·))
      | none =>
        match places.findSome? fun n =>
          ((w.store n).schema.index? name.name).map (n, ·) with
        | some (n, _, i) => .ok [(n, i)]
        | none =>
          if (w.relation? name).isSome then .ok []
          else .error (.refused
            (.said "unable to identify the object to be reindexed"))

/-- Makes indexes anew; all of them, unless a name says which. -/
def reindex (w : World) (name : Option TableName) :
    Except Failure (List Nat × Work Unit) := do
  match name with
  | none => return refillAll ((tables w).flatMap
      fun (n, t) => t.ownIndexes.map (n, ·))
  | some name => return refillAll (← indexesOf w name)

/-- The tables that counts are kept in. -/
def countTables : List (String × List String) :=
  [("sqlite_stat1", ["tbl", "idx", "stat"]),
    ("sqlite_stat4", ["tbl", "idx", "neq", "nlt", "ndlt", "sample"])]

/-- Makes the tables that counts are kept in, unless they are there. -/
def makeCountTables (n : Nat) : Work Unit := do
  countTables.forM fun (name, columns) => do
    if (((← get).store n).schema.table? name).isNone then
      let t : Table :=
        { name,
          columns := (columns.map fun c => ({ name := c } : Column)).toArray }
      let _ ← Creation.makeTable n t
        (name ++ "(" ++ String.intercalate "," columns ++ ")")
  Catalogue.finish n

/-- What is counted: the tables of a database, or one of them, or an index of
it. -/
structure Counted where
  store : Nat
  tables : List Table
  index : Option Index := none
  /-- Whether only some rows of the counts are made anew: the column that tells,
  and its value. -/
  only : Option (Nat × String) := none

/-- Everything in a database is counted, the newest table first. -/
def wholeStore (w : World) (n : Nat) : Counted :=
  { store := n, tables := (w.store n).schema.tables.reverse }

/-- What a name asks to count. -/
def countedBy (w : World) (name : Option TableName) :
    Except Failure (List Counted) :=
  match name with
  | none => .ok (((List.range w.stores.size).filter (· ≠ 1)).map (wholeStore w))
  | some name =>
    match if name.database.isNone then w.storeNamed? name.name else none with
    | some n => .ok [wholeStore w n]
    | none =>
      match name.database.map w.storeNamed? with
      | some none =>
          .error (.refused (.unknownDatabase (name.database.getD "")))
      | _ =>
        let places := w.candidates name.database
        match places.findSome? fun n =>
          ((w.store n).schema.index? name.name).map (n, ·) with
        | some (store, t, i) =>
            .ok [{ store, tables := [t], index := some i,
                   only := some (1, i.name) }]
        | none =>
          match places.findSome? fun n =>
            ((w.store n).schema.table? name.name).map (n, ·) with
          | some (store, t) =>
              .ok [{ store, tables := [t], only := some (0, t.name) }]
          | none =>
            match places.findSome? fun n =>
              ((w.store n).schema.view? name.name).map (n, ·) with
            | some (store, v) =>
                .ok [{ store, tables := [], only := some (0, v.name) }]
            | none =>
              match w.catalogue? name with
              | some t =>
                  .ok [{ store := t.store, tables := [],
                         only := some (0, t.name) }]
              | none => .error (.refused (.noSuchTable name.text))

/-- Adds a row to a table of counts. -/
def note (n : Nat) (table : String) (values : List Value) : Work Unit := do
  let w ← get
  match (w.store n).schema.table? table with
  | none => return
  | some t =>
    let writer ← Work.ofFailing (Build.alone (Writer.ofTable w t))
    let last ← writer.lastNumber
    writer.put (fun _ => true)
      { number := last.getD 0 + 1, values := values.toArray }

/-- The entries of an index, or the rows of a table that is its own index, and
what they are ordered by. -/
def entries (t : Table) (i : Index) :
    Work (List SortKey × List (List Value)) := do
  let w ← get
  let isOwn : Bool := !t.isNumbered && i.origin = .primary
  let keys := if isOwn then i.parts.map IndexPart.key
    else (t.keyParts i).map IndexPart.key ++
           (if t.isNumbered then [({} : SortKey)] else [])
  let walk := Tree.walk (w.store t.store).pages .index
    (if isOwn then t.root else i.root) none
  match walk.failure with
  | some f => Work.fail f
  | none =>
    let found ← Work.ofFailing (walk.entries.toList.mapM fun entry => do
      return (← (Record.fields w.encoding entry.payload).all).take keys.length)
    return (keys, found)

/-- Whether no two rows can agree in the parts of an index. -/
def tellsApart (t : Table) (i : Index) : Bool :=
  i.isUnique &&
    i.parts.all fun p => p.column.any fun n => (t.column n).required.isSome

/-- Counts the entries of an index. -/
def countIndex (n : Nat) (t : Table) (i : Index) : Work Unit := do
  let (keys, found) ← entries t i
  if found.isEmpty && i.condition.isNone then return
  let isOwn : Bool := !t.isNumbered && i.origin = .primary
  let looked :=
    if isOwn || !tellsApart t i then keys.length - 1 else i.parts.length - 1
  let name : List Value :=
    [.text t.name, .text (if isOwn then t.name else i.name)]
  let e := (← get).encoding
  let census := Census.ofEntries e keys looked found
  note n "sqlite_stat1" (name ++ [.text (census.summary i.parts.length)])
  census.samples.toList.forM fun s =>
    let numbers (ns : Array Nat) : Value := .text (Census.spaced ns.toList)
    note n "sqlite_stat4" (name ++ [numbers s.equal, numbers s.less,
      numbers s.distinct, .blob (Record.encode e s.values)])

/-- Counts the rows of a table, by its indexes if it has any. -/
def countTable (n : Nat) (t : Table) (only : Option Index) : Work Unit := do
  if (Token.lowered t.name).startsWith "sqlite_" || t.isVirtual then return
  let chosen := t.indexes.filter fun i => only.all fun o => o.name = i.name
  chosen.forM (countIndex n t)
  if only.isNone && chosen.all (·.condition.isSome) then
    let rows :=
      Tree.walk ((← get).store t.store).pages (TablePlan.kind t) t.root none
    if !rows.entries.isEmpty then
      note n "sqlite_stat1" [.text t.name, .null,
        .text (Text.decimal 1 rows.entries.size)]

/-- Counts rows and entries anew. -/
def count (c : Counted) : Work Unit := do
  countTables.forM fun (name, _) => Removal.forget c.store name fun r =>
    c.only.all fun (column, value) => r.value column = .text value
  makeCountTables c.store
  c.tables.forM fun t => countTable c.store t c.index

/-- Counts rows. -/
def analyze (w : World) (name : Option TableName) :
    Except Failure (List Nat × Work Unit) := do
  let all ← countedBy w name
  return (all.map (·.store), all.forM count)

end Upkeep

end Bytecode.Database
