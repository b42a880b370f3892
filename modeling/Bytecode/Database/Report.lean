import Bytecode.Database.Function.Listing
import Bytecode.Database.Link
import Bytecode.Database.Undo
import Bytecode.Database.Virtual
import Bytecode.Database.World

/-!
# Reports

A report shows rows about the databases of a connection: what is in them, how
they are set up, and what can be done with them.  It may be asked about one
thing by its name, and about one database.

What a report is asked about is given as a text, as is the value of a directive.
Many take it for a number or for a switch, and are content with whatever stands
at its head.
-/

namespace Bytecode.Database

namespace Directive

/-- The number of 32 bits at the head of a text, in decimal or hexadecimal
digits; there is none if it does not fit. -/
def int32? (s : String) : Option Int :=
  match s.toList with
  | '-' :: rest => (decimal? 2147483648 rest).map fun n => -(n : Int)
  | '+' :: rest => (decimal? 2147483647 rest).map (·)
  | '0' :: x :: d :: rest =>
    if (x = 'x' || x = 'X') && Token.isHexDigit d then
      let digits := ((d :: rest).dropWhile (· = '0')).takeWhile Token.isHexDigit
      let n := digits.foldl (fun n c => 16 * n + (Text.hexDigit? c).getD 0) 0
      if digits.length ≤ 8 && n < 0x80000000 then some n else none
    else (decimal? 2147483647 ('0' :: x :: d :: rest)).map (·)
  | cs => (decimal? 2147483647 cs).map (·)
where
  /-- The number of the digits at the head, if it is at most `most`. -/
  decimal? (most : Nat) (cs : List Char) : Option Nat :=
    if !cs.head?.any Token.isDigit then none
    else
      let digits := (cs.dropWhile (· = '0')).takeWhile Token.isDigit
      let n := digits.foldl (fun n c => 10 * n + (c.toNat - '0'.toNat)) 0
      if digits.length ≤ 10 && n ≤ most then some n else none

/-- The same, with zero for what is no such number. -/
def int32 (s : String) : Int := (int32? s).getD 0

/-- The number of 64 bits that a whole text spells, in decimal or hexadecimal
digits. -/
def int64? (s : String) : Option Int :=
  let trimmed :=
    ((s.toList.dropWhile Value.isSpace).reverse.dropWhile Value.isSpace).reverse
  match s.toList with
  | '0' :: x :: d :: rest =>
    if x = 'x' || x = 'X' then
      let digits := (d :: rest).dropWhile (· = '0')
      if (d :: rest).all Token.isHexDigit && digits.length ≤ 16 then
        some (Int.bmod (digits.foldl
          (fun n c => 16 * n + (Text.hexDigit? c).getD 0) 0) Word.size64)
      else none
    else whole? trimmed
  | _ => whole? trimmed
where
  /-- The whole number that a decimal literal stands for. -/
  whole? (cs : List Char) : Option Int :=
    match Value.literal? cs with
    | some (.integer n) => some n
    | _ => none

/-- Whether the text of a switch turns it on. -/
def isOn (s : String) : Bool :=
  if s.toList.head?.any Token.isDigit then int32 s % 256 ≠ 0
  else ["on", "yes", "true"].contains (Token.lowered s)

end Directive

/-! ### Rows of reports -/

/-- What a report looks like. -/
structure ReportForm where
  columns : List String
  /-- Whether it can be asked about something by its name. -/
  takesName : Bool := false
  /-- Whether it can be asked about a database. -/
  takesStore : Bool := false

/-- What reports see only if expressions and queries can be made sense of. -/
structure Insight where
  /-- The columns that a view shows. -/
  shownBy : View → Except Failure (List (String × String))
  /-- The rows of a table that do not find what they depend on: their numbers,
  with the places of the dependences. -/
  strays : Table → Except Failure (List (Value × Nat))
  /-- What is wrong with the rows of a table. -/
  faults : Table → Except Failure (List String)

/-- What a report is asked about. -/
structure Inquiry where
  world : World
  name : Option String := none
  /-- The database by its name. -/
  database : Option String := none
  insight : Insight

namespace Report

/-- Reports with columns of their own. -/
def forms : List (String × ReportForm) :=
  let about (columns : List String) : ReportForm :=
    { columns, takesName := true, takesStore := true }
  [("busy_timeout", { columns := ["timeout"] }),
    ("collation_list", { columns := ["seq", "name"] }),
    ("database_list", { columns := ["seq", "name", "file"] }),
    ("default_cache_size", { columns := ["cache_size"], takesStore := true }),
    ("foreign_key_check", about ["table", "rowid", "parent", "fkid"]),
    ("foreign_key_list", about
      ["id", "seq", "table", "from", "to", "on_update", "on_delete", "match"]),
    ("function_list",
      { columns := ["name", "builtin", "type", "enc", "narg", "flags"] }),
    ("index_info", about ["seqno", "cid", "name"]),
    ("index_list", about ["seq", "name", "unique", "origin", "partial"]),
    ("index_xinfo", about ["seqno", "cid", "name", "desc", "coll", "key"]),
    ("module_list", { columns := ["name"] }),
    ("pragma_list", { columns := ["name"] }),
    ("table_info", about
      ["cid", "name", "type", "notnull", "dflt_value", "pk"]),
    ("table_list",
      { columns := ["schema", "name", "type", "ncol", "wr", "strict"],
        takesName := true }),
    ("table_xinfo", about
      ["cid", "name", "type", "notnull", "dflt_value", "pk", "hidden"])]

/-- Reports of one value about a database. -/
def ofStores : List String :=
  ["auto_vacuum", "cache_size", "cache_spill", "journal_mode",
    "journal_size_limit", "locking_mode",
    "max_page_count", "page_count", "page_size", "synchronous"]

/-- Reports of one value that can be asked about a table. -/
def ofChecks : List String := ["integrity_check", "quick_check"]

/-- Reports of one value about a connection. -/
def ofConnections : List String :=
  ["analysis_limit", "application_id", "automatic_index", "cell_size_check",
    "checkpoint_fullfsync", "compile_options", "count_changes", "data_version",
    "defer_foreign_keys", "empty_result_callbacks", "encoding", "foreign_keys",
    "freelist_count", "full_column_names", "fullfsync", "hard_heap_limit",
    "ignore_check_constraints", "legacy_alter_table", "query_only",
    "read_uncommitted", "recursive_triggers", "reverse_unordered_selects",
    "schema_version", "secure_delete", "short_column_names", "soft_heap_limit",
    "temp_store", "threads", "trusted_schema", "user_version",
    "writable_schema"]

/-- Directives that show nothing. -/
def silent : List String :=
  ["case_sensitive_like", "incremental_vacuum", "mmap_size", "shrink_memory",
    "temp_store_directory", "wal_autocheckpoint", "wal_checkpoint"]

/-- What the report with a name looks like. -/
def form? (name : String) : Option ReportForm :=
  if name = "optimize" then some { columns := [name], takesName := true }
  else if ofStores.contains name then
    some { columns := [name], takesStore := true }
  else if ofChecks.contains name then
    some { columns := [name], takesName := true, takesStore := true }
  else if ofConnections.contains name then some { columns := [name] }
  else forms.lookup name

/-- The names of all directives in their order. -/
def names : List String :=
  (ofStores ++ ofChecks ++ ofConnections ++ silent ++
    "optimize" :: forms.map (·.1)).mergeSort (· ≤ ·)

/-- The text that a directive was given last. -/
def directed? (w : World) (n : Nat) (key : String) : Option String :=
  w.directed.lookup (n, key)

/-- The number that a directive was given last, or else another one. -/
def number (w : World) (n : Nat) (key : String) (otherwise : Int) : Value :=
  .integer (((directed? w n key).map Directive.int32).getD otherwise)

/-- The switch that a directive was given last, or else another one. -/
def switch (w : World) (key : String) (otherwise : Bool) : Value :=
  .ofBool (((directed? w 0 key).map Directive.isOn).getD otherwise)

/-- How changes of a database can be undone. -/
def undoName (w : World) (n : Nat) : String :=
  let s := w.store n
  let told := (directed? w n "journal_mode").bind UndoMode.ofText?
  if s.pages.isLogged then "wal"
  else if s.file = "" then if told = some .off then "off" else "memory"
  else match told with
    | none | some .log => "delete"
    | some mode =>
        ((UndoMode.names.find? fun (_, m) => m = mode).map (·.1)).getD "delete"

/-- How safe what is written has to be. -/
def safety (w : World) (n : Nat) : Int :=
  match directed? w n "synchronous" with
  | none => 2
  | some value =>
    let v := Token.lowered value
    let level : Int :=
      if v.toList.head?.any Token.isDigit then Directive.int32 v % 256
      else if ["on", "yes", "true"].contains v then 1
      else if v = "full" then 2
      else if v = "extra" then 3
      else 0
    if level = 7 then 0 else (level + 1) % 8 - 1

/-- The one value that a report about a database shows. -/
def storeValue (w : World) (n : Nat) (key : String) : Value :=
  let pages := (w.store n).pages
  match key with
  | "auto_vacuum" => .integer (if pages.header 52 = 0 then 0
    else if pages.header 64 = 0 then 1 else 2)
  | "cache_size" => number w n key (-2000)
  | "cache_spill" => .integer 483
  | "journal_mode" => .text (undoName w n)
  | "journal_size_limit" => number w n key (-1)
  | "locking_mode" =>
    .text (if (directed? w n key).any
          fun v => Token.lowered v = "exclusive" then "exclusive" else "normal")
  | "max_page_count" => .integer pages.limit
  | "page_count" => .integer pages.count
  | "page_size" => .integer pages.size
  | "synchronous" => .integer (safety w n)
  | "default_cache_size" =>
    let size := pages.header 48
    .integer (if size = 0 then -2000 else
        Int.natAbs (Int.bmod size Word.size32))
  | _ => .null

/-- The one value that a report about a connection shows. -/
def value (w : World) (key : String) : Value :=
  let pages := (w.store 0).pages
  let signed (position : Nat) : Value :=
    .integer (Int.bmod (pages.header position) Word.size32)
  match key with
  | "application_id" => signed 68
  | "data_version" => .integer 1
  | "freelist_count" => .integer (pages.header 36)
  | "schema_version" => signed 40
  | "user_version" => signed 60
  | "encoding" => .text (match w.encoding with
      | .utf8 => "UTF-8"
      | .utf16le => "UTF-16le"
      | .utf16be => "UTF-16be")
  | "defer_foreign_keys" => .ofBool w.switches.defersDependences
  | "foreign_keys" => .ofBool w.switches.checksDependences
  | "ignore_check_constraints" => .ofBool w.switches.ignoresChecks
  | "legacy_alter_table" => .ofBool w.switches.renamesLittle
  | "query_only" => .ofBool w.switches.isQueryOnly
  | "recursive_triggers" => .ofBool w.switches.recursesRules
  | "reverse_unordered_selects" => .ofBool w.switches.reversesRows
  | "writable_schema" => .ofBool w.switches.opensCatalogue
  | "automatic_index" | "short_column_names" | "trusted_schema" =>
      switch w key true
  | "temp_store" =>
    match (directed? w 0 key).map Token.lowered with
    | some "1" | some "file" => .integer 1
    | some "2" | some "memory" => .integer 2
    | _ => .integer 0
  | "busy_timeout" => number w 0 key 10000
  | "analysis_limit" | "hard_heap_limit" | "secure_delete" | "soft_heap_limit"
      | "threads" => number w 0 key 0
  | key => switch w key false

/-- A declared type as reports show it: the usual ones in capitals. -/
def typeName (type : String) : String :=
  (["ANY", "BLOB", "INT", "INTEGER", "REAL", "TEXT"].find?
    (isSame type)).getD type

/-- The rows about the columns of a table. -/
def tableColumns (t : Table) (isFull : Bool) : List (Array Value) :=
  let shown := t.places.filter fun n => isFull ||
    ((t.column n).computed.isNone && !(t.column n).isHidden)
  shown.zipIdx.map fun (n, k) =>
    let c := t.column n
    let key : Nat := ((t.primary.findIdx? (· = n)).map (· + 1)).getD 0
    let isRequired : Bool :=
      c.required.isSome || (!t.isNumbered && t.primary.contains n)
    let fallback := (c.fallbackText.map Value.text).getD .null
    let kind : Int := if c.isHidden then 1 else if c.computed.isNone then 0
      else if c.isStored then 3 else 2
    #[.integer k, .text c.name, .text (typeName c.type), .ofBool isRequired,
      fallback, .integer (key : Int)] ++
      if isFull then #[Value.integer kind] else #[]

/-- The rows about the columns that a view shows. -/
def viewColumns (columns : List (String × String)) (isFull : Bool) :
    List (Array Value) :=
  columns.zipIdx.map fun ((name, type), k) =>
    #[.integer k, .text name, .text (typeName type), .integer 0, .null,
      .integer 0] ++ if isFull then #[Value.integer 0] else #[]

/-- The name of what happens to rows that depend on others. -/
def followingName : Following → String
  | .nothing => "NO ACTION"
  | .restrict => "RESTRICT"
  | .setNull => "SET NULL"
  | .setDefault => "SET DEFAULT"
  | .cascade => "CASCADE"

/-- The rows about what a table depends on. -/
def dependences (t : Table) : List (Array Value) :=
  t.dependences.zipIdx.flatMap fun (d, id) =>
    d.columns.zipIdx.map fun (c, k) =>
      #[.integer id, .integer k, .text d.table, .text (t.column c).name,
        ((d.targets[k]?).map Value.text).getD .null,
        .text (followingName d.onUpdate),
        .text (followingName d.onDelete), .text "NONE"]

/-- The rows about the indexes of a table. -/
def indexes (t : Table) : List (Array Value) :=
  t.indexes.zipIdx.map fun (i, k) =>
    let origin := match i.origin with
      | .statement => "c"
      | .unique => "u"
      | .primary => "pk"
    #[.integer k, .text i.name, .ofBool i.isUnique, .text origin,
      .ofBool i.condition.isSome]

/-- The name of a collation. -/
def collationName : Collation → String
  | .binary => "BINARY"
  | .caseless => "NOCASE"
  | .trimmed => "RTRIM"
  | .unknown name => name

/-- The rows about the parts of an index. -/
def indexParts (t : Table) (i : Index) (isFull : Bool) : List (Array Value) :=
  let number : IndexPart := { value := .literal .null }
  let isRows : Bool := !t.isNumbered && i.origin = .primary
  let rest : List (IndexPart × Bool) :=
    if t.isNumbered then [(number, true)]
    else if isRows then
      (t.written.filter fun n => !t.primary.contains n).map fun n =>
        ({ column := some n, value := .literal .null }, false)
    else ((t.keyParts i).drop i.parts.length).map fun p => (p, false)
  let all := i.parts.map (fun p => (p, true, false)) ++
    if isFull then rest.map fun (p, isNumber) => (p, false, isNumber) else []
  all.zipIdx.map fun ((p, isKey, isNumber), k) =>
    let isNumber := isNumber || (p.column.isSome && p.column = t.numberColumn)
    let place : Int :=
      if isNumber then -1 else (p.column.map Int.ofNat).getD (-2)
    let name : Value := match p.column with
      | some n => if isNumber then .null else .text (t.column n).name
      | none => .null
    #[.integer k, .integer place, name] ++
      if isFull then #[.ofBool (isKey && p.isDescending),
        .text (collationName p.collation), .ofBool isKey] else #[]

end Report

namespace Inquiry

/-- The databases that are looked at, in order. -/
def stores (q : Inquiry) : List Nat := q.world.candidates q.database

/-- The database that is asked about, the main one if none is. -/
def store (q : Inquiry) : Nat := ((q.database.bind q.world.storeNamed?)).getD 0

/-- The name of the thing asked about as that of a table. -/
def tableName (q : Inquiry) : TableName :=
  { database := q.database, name := q.name.getD "" }

/-- The rows about the columns of what is asked about. -/
def columns (q : Inquiry) (isFull : Bool) :
    Except Failure (List (Array Value)) :=
  match q.world.relation? q.tableName with
  | some (.inl t) => .ok (Report.tableColumns t isFull)
  | some (.inr v) => do return Report.viewColumns (← q.insight.shownBy v) isFull
  | none => .ok []

/-- The rows about a part of the table that is asked about. -/
def onTable (q : Inquiry) (f : Table → List (Array Value)) :
    List (Array Value) :=
  ((q.world.table? q.tableName).map f).getD []

/-- The rows about the index that is asked about; a table whose rows are in an
index can be meant as well. -/
def onIndex (q : Inquiry) (isFull : Bool) : List (Array Value) :=
  let name := q.name.getD ""
  let found := q.stores.findSome? fun n => (q.world.store n).schema.index? name
  let rows : Option (Table × Index) := do
    let t ← q.world.table? q.tableName
    if t.isNumbered then none else return (t, ← t.primaryIndex?)
  ((found.or rows).map fun (t, i) => Report.indexParts t i isFull).getD []

/-- The rows about the databases. -/
def databases (q : Inquiry) : List (Array Value) :=
  q.world.stores.toList.zipIdx.filterMap fun (s, n) =>
    if s.name = "" || (n = 1 && s.pages.isBlank) then none
    else some #[.integer n, .text s.name, .text s.file]

/-- The rows about tables and views. -/
def relations (q : Inquiry) : Except Failure (List (Array Value)) := do
  let row (s : Store) (name kind : String) (count : Nat)
    (isSorted isStrict : Bool) : Array Value :=
    #[.text s.name, .text name, .text kind, .integer count, .ofBool isSorted,
      .ofBool isStrict]
  let all ← q.world.stores.toList.zipIdx.mapM fun (s, n) => do
    if s.name = "" then return []
    let isPart (t : Table) : Bool := s.schema.tables.any fun x =>
      (Virtual.partsToDrop x).any fun part =>
        isSame (Virtual.partName x part) t.name
    let tables := s.schema.tables.map fun t =>
      let kind := if t.isVirtual then "virtual" else if isPart t then "shadow"
        else "table"
      row s t.name kind t.columns.size (!t.isNumbered) t.isStrict
    let views ← s.schema.views.mapM fun v => do
      return row s v.name "view" (← q.insight.shownBy v).length false false
    let own := row s (if n = 1 then "sqlite_temp_schema" else
        "sqlite_schema") "table" 5 false false
    return tables.reverse ++ views.reverse ++ [own]
  return all.flatten.filter fun r =>
    q.name.all fun name => (r.getD 1 .null) = .text name ||
      isSame name (match r.getD 1 .null with
      | .text s => s
      | _ => "")

/-- The tables of which something is asked: one that must be there, or all, the
newest of each database first. -/
def inspected (q : Inquiry) (stores : List Nat) : Except Failure (List Table) :=
  if q.name.isNone then
    .ok (stores.flatMap fun n => (q.world.store n).schema.tables.reverse)
  else match q.world.relation? q.tableName with
    | some (.inl t) => .ok [t]
    | some (.inr _) => .ok []
    | none => .error (.refused (.noSuchTable q.tableName.text))

/-- The rows about rows that do not find what they depend on. -/
def strays (q : Inquiry) : Except Failure (List (Array Value)) := do
  let tables ← q.inspected [q.store]
  tables.forM (Link.checkAll q.world)
  let all ← tables.mapM fun t => do
    return (← q.insight.strays t).map fun (number, place) =>
      #[.text t.name, number,
        .text ((t.dependences[place]?.map (·.table)).getD ""), .integer place]
  return all.flatten

/-- How much is said about what is wrong. -/
def maxFaults : Nat := 100

/-- The rows about what is wrong with the rows of tables. -/
def faults (q : Inquiry) : Except Failure (List (Array Value)) := do
  let stores :=
    (q.database.map fun _ => [q.store]).getD (List.range q.world.stores.size)
  let found ← (← q.inspected stores).mapM q.insight.faults
  return (if found.flatten.isEmpty then ["ok"] else
      found.flatten.take maxFaults).map fun text => #[.text text]

/-- The rows about functions. -/
def functions : List (Array Value) :=
  let rows (isBuiltin : Bool) (f : FunctionEntry) : List (Array Value) :=
    f.counts.map fun n =>
    #[.text f.name, .ofBool isBuiltin, .text f.reach.letter, .text "utf8",
      .integer n, .integer f.flags]
  FunctionEntry.builtin.flatMap (rows true) ++
    FunctionEntry.added.flatMap (rows false)

/-- The rows of the report with a name. -/
def rows (q : Inquiry) (key : String) :
    Except Failure (List (Array Value)) := do
  match q.database with
  | some d =>
    if (q.world.storeNamed? d).isNone then
      throw (.refused (.unknownDatabase (TextFunction.quoted (.text d))))
  | none => pure ()
  match key with
  | "collation_list" =>
    return ["RTRIM", "NOCASE", "BINARY"].zipIdx.map fun (name, n) =>
      #[.integer n, .text name]
  | "compile_options" => return Feature.all.map fun f => #[.text f]
  | "database_list" => return q.databases
  | "foreign_key_list" => return q.onTable Report.dependences
  | "foreign_key_check" => q.strays
  | "function_list" => return functions
  | "index_info" => return q.onIndex false
  | "index_xinfo" => return q.onIndex true
  | "index_list" => return q.onTable Report.indexes
  | "integrity_check" | "quick_check" => q.faults
  | "module_list" =>
    return ["dbstat", "fts5", "fts5vocab", "geopoly", "json_each", "json_tree",
      "rtree", "rtree_i32", "sqlite_dbpage"].map fun name => #[.text name]
  | "optimize" => return []
  | "pragma_list" => return Report.names.map fun name => #[.text name]
  | "table_info" => q.columns false
  | "table_xinfo" => q.columns true
  | "table_list" => q.relations
  | "busy_timeout" => return [#[Report.value q.world key]]
  | key =>
    if Report.ofStores.contains key || key = "default_cache_size" then
      return [#[Report.storeValue q.world q.store key]]
    return [#[Report.value q.world key]]

end Inquiry

end Bytecode.Database
