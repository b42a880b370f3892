import Bytecode.Database.Report
import Bytecode.Database.Session

/-!
# Directives

A directive reads or sets a switch of a session or a number in a database.  One
that nobody knows does nothing.  Most of those that are about the database look
at it even if they only set a switch; some look at its header only.
-/

namespace Bytecode.Database

namespace Directive

/-- The directives that look at what is in the database. -/
def readers : List String :=
  ["auto_vacuum", "cache_size", "default_cache_size", "foreign_key_check",
    "foreign_key_list", "incremental_vacuum", "index_info", "index_list",
    "index_xinfo", "integrity_check", "journal_mode",
    "max_page_count", "optimize", "page_count", "quick_check", "synchronous",
    "table_info", "table_list", "table_xinfo", "wal_checkpoint"]

/-- The directives that look at the header of the database. -/
def headerReaders : List String :=
  ["application_id", "data_version", "freelist_count", "schema_version",
    "user_version"]

/-- The name of a directive in lower case. -/
def key (d : Directive) : String := Token.lowered d.name

/-- The name of the database of a directive. -/
def databaseName (d : Directive) : Option String := d.database.map Reader.nameOf

/-- The database that a directive is about, if it is there. -/
def store? (d : Directive) (w : World) : Option Nat :=
  match d.databaseName with
  | none => some 0
  | some name => w.storeNamed? name

/-- Whether a directive looks at what is in the database. -/
def reads (d : Directive) : Bool :=
  readers.contains d.key || (d.key = "encoding" && d.value.isNone)

/-- Whether a directive looks at the header of the database. -/
def readsHeader (d : Directive) : Bool := headerReaders.contains d.key

/-- The number of a mode in which free pages are given back. -/
def vacuumMode (value : String) : Int :=
  let v := Token.lowered value
  if v = "none" then 0
  else if v = "full" then 1 else if v = "incremental" then 2
  else if 0 ≤ int32 value && int32 value ≤ 2 then int32 value else 0

/-- The number of a place where what is temporary is kept. -/
def temporaryPlace (value : String) : Int :=
  match value.toList with
  | c :: _ =>
    if '0' ≤ c && c ≤ '2' then c.toNat - '0'.toNat
    else if Token.lowered value = "file" then 1
    else if Token.lowered value = "memory" then 2
    else 0
  | [] => 0

end Directive

namespace Session

open Directive (int32 int32? int64? isOn)

/-- A session with a switch turned. -/
def turn (s : Session) (f : Switches → Switches) : Except Failure Session :=
  .ok { s with world := { s.world with switches := f s.world.switches } }

/-- Writes to a database, whatever the switches say. -/
def force (s : Session) (n : Nat) (f : Pages → Pages) :
    Except Failure Session := do
  if !s.canWrite n then throw .notWritable
  let pages := f (s.world.store n).pages.begun
  return { s with world := s.world.setPages n pages }

/-- Writes to a database. -/
def edit (s : Session) (n : Nat) (f : Pages → Pages) :
    Except Failure Session := do
  s.checkWritable [n]
  s.force n f

/-- Writes a number into the header of a database. -/
def editHeader (s : Session) (n position : Nat) (value : Int) :
    Except Failure Session :=
  s.edit n fun p => p.setHeader position (value % Word.size32).toNat

/-- Sets the mode in which changes can be undone.  The log is a property of the
database itself, so a transaction can neither begin nor end it. -/
def setUndo (s : Session) (n : Nat) (value : String) : Except Failure Session :=
  match UndoMode.ofText? value with
  | none => .ok s
  | some mode =>
    let h := s.holding n
    let isLog : Bool := mode = .log
    let isLogged := (s.world.store n).pages.isLogged
    if h.isVolatile || (isLog && !h.canLog) then .ok s
    else if isLog ≠ isLogged && s.inTransaction then
      .error (.refused (.logInTransaction isLog))
    else if s.inTransaction then .ok s
    else
      let s := if isLog then s else s.setHolding n ({ · with undo := mode })
      if isLog = isLogged then .ok s else s.force n (·.setLogged isLog)

/-- What has a name and is to be looked at; it must be there. -/
def inspected (s : Session) (name : TableName) :
    Except Failure (Table ⊕ View) :=
  match s.world.relation? name with
  | some found => .ok found
  | none => .error (.refused (.noSuchTable name.text))

/-- Looks whether dependences make sense: those of one table, or those of all in
a database, the newest first. -/
def inspectLinks (s : Session) (n : Nat) (database value : Option String) :
    Except Failure Session := do
  let tables ← match value with
    | some name => do
      match ← s.inspected { database, name } with
      | .inl t => pure [t]
      | .inr _ => pure []
    | none => pure (s.world.store n).schema.tables.reverse
  tables.forM (Link.checkAll s.world)
  return s

/-- Looks at one table, or at all. -/
def inspect (s : Session) (database value : Option String) :
    Except Failure Session := do
  match value with
  | some name =>
      if (int32? name).isNone then let _ ← s.inspected { database, name }
  | none => pure ()
  return s

/-- Keeps what is temporary in another place, where there is nothing yet. -/
def moveTemporary (s : Session) (place : Int) : Except Failure Session :=
  if place = s.temporaryPlace then .ok s
  else if (s.world.store 1).pages.isBlank then
    .ok { s with temporaryPlace := place }
  else if s.inTransaction then
    .error (.refused
      (.said "temporary storage cannot be changed from within a transaction"))
  else
    let stores :=
      s.world.stores.modify 1 fun t => { name := t.name, file := t.file }
    .ok { s with temporaryPlace := place, world := { s.world with stores } }

/-- Sets how texts are written, unless something is written already. -/
def setEncoding (s : Session) (value : String) : Except Failure Session :=
  let isFixed : Bool :=
    (s.world.store 0).pages.header Catalogue.encodingPosition ≠ 0 ||
    !(s.world.store 1).pages.isBlank
  if isFixed then .ok s
  else
    match Encoding.ofName? (Token.lowered value) with
    | none => .error (.refused (.unknownEncoding value))
    | some encoding => .ok { s with world := { s.world with encoding } }

/-- Sets how large pages are to be. -/
def setPageSize (s : Session) (n : Nat) (value : String) :
    Except Failure Session :=
  let size := (int32 value).toNat
  if !isPageSize size then .ok s
  else
    let s := { s with pageSize := some size }
    let pages := (s.world.store n).pages
    .ok (if pages.isBlank then { s with
      world := s.world.setPages n { pages with size } } else s)

/-- Sets how many pages there may be. -/
def setPageLimit (s : Session) (n : Nat) (value : String) :
    Except Failure Session :=
  match int64? value with
  | none => .ok s
  | some k =>
    .ok (if k ≤ 0 then s else s.mapWorlds fun w =>
      let pages := (w.store n).pages
      w.setPages n { pages with
        limit := min maxPages (max k.toNat pages.count) })

/-- What a directive with a value about a database does. -/
def assign (s : Session) (n : Nat) (key value : String) :
    Except Failure Session :=
  match key with
  | "query_only" => s.turn ({ · with isQueryOnly := isOn value })
  | "foreign_keys" =>
    if s.inTransaction then .ok s
    else s.turn ({ · with checksDependences := isOn value })
  | "defer_foreign_keys" => s.turn ({ · with defersDependences := isOn value })
  | "ignore_check_constraints" =>
      s.turn ({ · with ignoresChecks := isOn value })
  | "recursive_triggers" => s.turn ({ · with recursesRules := isOn value })
  | "case_sensitive_like" => s.turn ({ · with distinguishesCase := isOn value })
  | "writable_schema" => s.turn ({ · with opensCatalogue := isOn value })
  | "reverse_unordered_selects" =>
      s.turn ({ · with reversesRows := isOn value })
  | "legacy_alter_table" => s.turn ({ · with renamesLittle := isOn value })
  | "encoding" => s.setEncoding value
  | "page_size" => s.setPageSize n value
  | "max_page_count" => s.setPageLimit n value
  | "journal_mode" => s.setUndo n value
  | "synchronous" =>
      if s.inTransaction then .error (.refused .safetyInTransaction) else .ok s
  | "temp_store" => s.moveTemporary (Directive.temporaryPlace value)
  | "user_version" => s.editHeader n 60 (int32 value)
  | "application_id" => s.editHeader n 68 (int32 value)
  | "schema_version" => s.editHeader n Catalogue.cookiePosition (int32 value)
  | "default_cache_size" => s.editHeader n 48 (int32 value).natAbs
  | "auto_vacuum" =>
    if (s.world.store n).pages.isBlank && Directive.vacuumMode value ≠ 0 then
      s.edit n id
    else .ok s
  | _ => .ok s

/-- A session that knows the value which a directive was given last. -/
def noting (s : Session) (n : Nat) (key value : String) : Session :=
  let others := s.world.directed.filter fun (k, _) => k ≠ (n, key)
  { s with world := { s.world with directed := ((n, key), value) :: others } }

/-- What a directive does. -/
def direct (s : Session) (d : Directive) : Except Failure Session :=
  match d.store? s.world, d.database with
  | none, some t => .error (.refused (.unknownDatabase t.text))
  | none, none => .ok s
  | some n, _ =>
    if d.key = "incremental_vacuum" then s.checkWritable [n] |>.map fun _ => s
    else if d.key = "foreign_key_check" then
      s.inspectLinks n d.databaseName d.value
    else if Report.ofChecks.contains d.key then s.inspect d.databaseName d.value
    else
      match d.value with
      | some value =>
          (s.assign n d.key value).map fun s => s.noting n d.key value
      | none => .ok s

end Session

end Bytecode.Database
