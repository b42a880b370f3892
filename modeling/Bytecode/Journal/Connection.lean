import Bytecode.Database.Connection
import Bytecode.Journal
import Bytecode.Journal.Location

/-!
# Open journals

Opening a journal finds its file, connects to the database in it and makes the
tables that are not there.  A file that is not there is made, and one of at most
one byte counts as empty.  What a journal asks for is carried out by the
database.
-/

namespace Bytecode.Journal

open Database (Failure)

/-- An open journal. -/
structure Connection where
  /-- The text that names the journal. -/
  name : String
  link : Database.Connection
  /-- The script that opens a transaction. -/
  opening : String
  isOpen : Bool := true

/-- Something done with an open journal; what has happened to the connection
stays, also if it fails. -/
abbrev Task (m : Type → Type) := ExceptT Fault (StateT Connection m)

namespace Connection

section

variable {m : Type → Type} [Monad m] [Host m]

/-- The path of the file with a given name, from the root. -/
def locate (name : String) : ExceptT Fault m String := do
  match ← Database.Connection.locate? (m := m) name with
  | some path => return path
  | none => throw cannotOpen

/-- Fails unless there is something that a file is to be made like. -/
def checkLikeness (likeness : Option String) : ExceptT Fault m Unit := do
  match likeness with
  | none => return
  | some path =>
    match ← Host.find (m := m) path with
    | .file _ | .directory => return
    | .missing | .unavailable _ => throw unreadable

/-- Makes sure that there is a file at a path, which is made if it may be. -/
def provide (mode : Mode) (path : String) : ExceptT Fault m Unit := do
  match ← Host.find (m := m) path with
  | .file _ => return
  | .directory => throw (if mode = .readOnly then unreadable else cannotOpen)
  | .unavailable _ => throw cannotOpen
  | .missing =>
    if mode ≠ .create then throw cannotOpen
    match ← Host.store (m := m) path [] with
    | .ok _ => return
    | .error _ => throw cannotOpen

/-- A connection to the database at a location, on which nothing has been
done. -/
def connect (l : Location) : ExceptT Fault m Database.Connection := do
  let session : Database.Session := { holdings := #[l.holding, {}] }
  if l.isVolatile then return { session }
  let path ← locate l.name
  checkLikeness l.likeness
  provide l.mode path
  let file : Database.Backing :=
    { path, isFixed := l.isFixed, sharesLog := l.storage ≠ "unix-excl" }
  let world := { session.world with
    stores := session.world.stores.modify 0 ({ · with file := path }) }
  return { session := { session with world }, backings := [file] }

/-- Does something with the database of a journal. -/
def onDatabase {α : Type} (t : Database.Task m α) :
    StateT Connection m (Except Cause α) := do
  let c ← get
  if !c.isOpen then return .error closed
  let (result, link) ←
    (t.run.run c.link : m (Except Failure α × Database.Connection))
  set { c with link }
  return result.mapError Failure.cause

/-- What a database answers to a question of a journal. -/
def replyOf (a : Database.Answer) : Except Failure Reply :=
  let failure := match a.rows.stop with
    | some (.failed f _) => some f
    | _ => none
  match a.rows.items.isEmpty, failure with
  | true, some f => .error f
  | _, failure =>
    .ok { columns := a.columns.map fun c => { name := c.name, type := c.type }
          rows := a.rows.items.toList.map Array.toList
          failure := failure.map Failure.cause }

instance : Engine (StateT Connection m) where
  begin := do onDatabase (Database.Connection.script (← get).opening)
  commit := onDatabase (Database.Connection.script "commit")
  rollback := onDatabase (Database.Connection.script "rollback")
  change c := onDatabase do
    let _ ← Database.Connection.query c.statement c.values
  ask q := onDatabase do
    let a ← Database.Connection.query q.statement q.values
    ExceptT.mk (pure (replyOf a))

/-- Closes a journal; that can be done twice. -/
def close : Task m Unit := do
  if (← get).isOpen then
    let _ ← (onDatabase Database.Connection.close : StateT Connection m
      (Except Cause Unit))
    modify fun c => { c with isOpen := false }

/-- Has a script carried out; a failure is told with the task that it is part
of. -/
def script (task text : String) : Task m Unit :=
  during task (onDatabase (Database.Connection.script text))

/-- Carries out the settings of a location and makes the tables of a journal. -/
def prepare (l : Location) : Task m Unit := do
  l.directives.forM fun text =>
    script "setting busy timeout" ("pragma " ++ text)
  let opening ← ExceptT.mk (pure l.opening)
  modify fun c => { c with opening }
  script "setting busy timeout" "PRAGMA busy_timeout = 5000"
  script "creating tables" schema

/-- Opens the journal that a text names. -/
def openAt (name : String) : ExceptT Fault m Connection := do
  let l ← ExceptT.mk (pure (Location.ofText name))
  let link ← connect l
  let (result, c) ← (((prepare l).run.run { name, link, opening := "begin" }) :
    m (Except Fault Unit × Connection))
  match result with
  | .ok _ => return c
  | .error f =>
    let _ ← ((close.run.run c) : m (Except Fault Unit × Connection))
    throw f

/-- Closes a journal and opens it again. -/
def reopen : Task m Unit := do
  close
  let opened ← ((openAt (← get).name).run : m (Except Fault Connection))
  set (← ExceptT.mk (pure opened))

/-- Opens a journal, does something with it, and closes it whatever comes of
it. -/
def throughout {α : Type} (name : String) (t : Task m α) :
    ExceptT Fault m α := do
  let c ← openAt name
  let (result, c) ← ((t.run.run c) : m (Except Fault α × Connection))
  let _ ← ((close.run.run c) : m (Except Fault Unit × Connection))
  ExceptT.mk (pure result)

end

end Connection

end Bytecode.Journal
