import Bytecode.Database.Alteration
import Bytecode.Database.Image
import Bytecode.Database.Mention
import Bytecode.Database.Undo
import Bytecode.Database.Upkeep

/-!
# Sessions

A session is what a connection knows: its databases as it sees them, its
switches, and the states to go back to while a transaction is open.  A statement
is first made sense of, and then carried out; if it fails, nothing is left of it
unless it says otherwise.  Nothing here touches a file.
-/

namespace Bytecode.Database

/-- What is known of a database beside its pages. -/
structure Holding where
  /-- Whether it can be written to at all. -/
  isWritable : Bool := true
  /-- Whether it is in memory only. -/
  isVolatile : Bool := true
  /-- Whether changes can go to a log. -/
  canLog : Bool := true
  undo : UndoMode := .delete
  /-- Whether the list of what is in it has been read. -/
  isKnown : Bool := true
  deriving Inhabited

/-- A state to go back to. -/
structure Savepoint where
  name : String
  world : World
  /-- Whether the transaction was opened for it. -/
  isOutermost : Bool := false

/-- What a connection knows. -/
structure Session where
  world : World := {}
  /-- What is known of each database. -/
  holdings : Array Holding := #[{}, {}]
  /-- How large pages are to be when a database is written anew. -/
  pageSize : Option Nat := none
  /-- Where what is temporary is kept. -/
  temporaryPlace : Int := 0
  /-- The databases when the open transaction began. -/
  before : Option World := none
  /-- States to go back to in the open transaction, the latest first. -/
  savepoints : List Savepoint := []
  deriving Inhabited

namespace Session

/-- Whether a transaction is open. -/
def inTransaction (s : Session) : Bool := s.before.isSome

/-- What is known of a database. -/
def holding (s : Session) (n : Nat) : Holding := s.holdings.getD n {}

/-- A session that knows something else of a database. -/
def setHolding (s : Session) (n : Nat) (f : Holding → Holding) : Session :=
  { s with holdings := s.holdings.modify n f }

/-- A session with the databases changed, also in the states to go back to. -/
def mapWorlds (s : Session) (f : World → World) : Session :=
  { s with
    world := f s.world
    before := s.before.map f
    savepoints := s.savepoints.map fun p => { p with world := f p.world } }

/-- Whether a database can be written to. -/
def canWrite (s : Session) (n : Nat) : Bool :=
  (s.holding n).isWritable && !(s.world.store n).pages.isFrozen

/-- Fails if databases cannot be written to. -/
def checkWritable (s : Session) (stores : List Nat) : Except Failure Unit :=
  if stores.isEmpty then .ok ()
  else if s.world.switches.isQueryOnly || !stores.all s.canWrite then
    .error .notWritable
  else .ok ()

/-- Databases as they were, with what does not go back. -/
def restored (old now : World) : World :=
  { now with
    stores :=
      now.stores.map fun s => (old.stores.find? fun o => o.name = s.name).getD s
    encoding := old.encoding
    pending := 0
    deferred := old.deferred }

/-- A session whose transaction has come to its end. -/
def ended (s : Session) : Session :=
  { s with
    before := none, savepoints := []
    world := { s.world with
      deferred := 0, switches :=
        { s.world.switches with defersDependences := false } } }

/-- A session whose transaction is undone; without one, it stays as it is. -/
def undone (s : Session) : Session :=
  match s.before with
  | some old => { s with world := restored old s.world }.ended
  | none => s

/-- Whether a failure undoes everything. -/
def isFatal : Failure → Bool
  | .full | .unreadable => true
  | _ => false

/-- A session in which nothing is left of some work but what that has
counted. -/
def without (s : Session) (after : World) : Session :=
  { s with
    world := { s.world with
      lastRow := after.lastRow, allChanges := after.allChanges, count := 0 } }

/-- Does something to the databases that counts as one step: nothing is left of
it if it fails, or if rows do not find what they depend on. -/
def attempt {α : Type} (s : Session) (work : Work α) :
    Except Failure α × Session :=
  let (result, world) := work.run { s.world with pending := 0 }
  let isDangling : Bool :=
    0 < world.pending || (!s.inTransaction && 0 < world.deferred)
  match result with
  | .ok a => if isDangling then (.error .dangling, s.without world) else
      (.ok a, { s with world })
  | .error .skip => (.error .malformed, s.without world)
  | .error (.failed f extent) =>
    if isFatal f then (.error f, (s.without world).undone)
    else match extent with
      | .rollback => (.error f, (s.without world).undone)
      | .fail | .ignore =>
        if isDangling then (.error .dangling, s.without world)
        else (.error f, { s with world })
      | .abort => (.error f, s.without world)

/-- Opens a transaction. -/
def begin (s : Session) (b : Begin) : Except Failure Session :=
  if s.inTransaction then .error (.refused .transactionOpen)
  else if b ≠ .deferred && s.canWrite 0 && s.world.switches.isQueryOnly then
    .error .notWritable
  else .ok { s with before := some s.world, savepoints := [] }

/-- Closes a transaction and keeps what it has done, unless rows do not find
what they depend on. -/
def commit (s : Session) : Except Failure Session :=
  if !s.inTransaction then .error (.refused (.noTransaction "commit"))
  else if 0 < s.world.deferred then .error .dangling
  else .ok s.ended

/-- Closes a transaction and undoes what it has done. -/
def rollback (s : Session) : Except Failure Session :=
  if s.inTransaction then .ok s.undone
  else .error (.refused (.noTransaction "rollback"))

/-- Notes a state to go back to; that opens a transaction unless one is open. -/
def savepoint (s : Session) (name : String) : Session :=
  let point : Savepoint :=
    { name, world := s.world, isOutermost := !s.inTransaction }
  { s with before := some (s.before.getD s.world),
           savepoints := point :: s.savepoints }

/-- The savepoint with a name and those before it. -/
def savepointsFrom (s : Session) (name : String) :
    Except Failure (Savepoint × List Savepoint) :=
  match s.savepoints.dropWhile fun p => !isSame p.name name with
  | p :: rest => .ok (p, rest)
  | [] => .error (.refused (.noSavepoint name))

/-- Forgets a savepoint; the transaction that was opened for it is closed. -/
def release (s : Session) (name : String) : Except Failure Session := do
  let (p, rest) ← s.savepointsFrom name
  if p.isOutermost then s.commit else return { s with savepoints := rest }

/-- Goes back to a savepoint. -/
def rollbackTo (s : Session) (name : String) : Except Failure Session := do
  let (p, rest) ← s.savepointsFrom name
  return { s with world := restored p.world s.world, savepoints := p :: rest }

/-- The value of an expression that stands alone. -/
def computed (s : Session) (e : Expr) : Except Failure Value := do
  let (m, _) ← Build.alone
    (Build.inside (meanings.expr { world := s.world, scopes := [{}] } e))
  match m.eval { Env.ofWorld s.world with levels := [{}] } with
  | .ok v => return v
  | .error (.failed f _) => throw f
  | .error .skip => return .null

/-- The value of an expression that stands alone; a name stands for itself. -/
def valueOf (s : Session) (e : Expr) : Except Failure Value :=
  match Definition.asName e with
  | .name none none text _ => .ok (.text text)
  | e => s.computed e

/-- The text of an expression that stands alone. -/
def textOf (s : Session) (e : Expr) : Except Failure String := do
  match ← s.valueOf e with
  | .null => return ""
  | v => return v.shown s.world.encoding

/-- The database that is written anew, the main one if none is named. -/
def vacuumed (s : Session) (database : Option String) : Except Failure Nat :=
  match database, database.bind s.world.storeNamed? with
  | _, some n => .ok n
  | none, none => .ok 0
  | some name, none => .error (.refused (.unknownDatabase name))

/-- How large pages are when a database is written anew. -/
def freshSize (s : Session) (n : Nat) : Nat :=
  let size := (s.world.store n).pages.size
  if (s.holding n).isVolatile then size else s.pageSize.getD size

/-- A database as it is copied to a file, and the session behind that. -/
def copy (s : Session) (n : Nat) : Except Failure (Pages × Session) := do
  let (pages, last) ← Vacuum.rebuilt s.world n (s.freshSize n) true
  return (pages.setLogged false,
    { s with world := { s.world with
               lastRow := (last.map Int.ofNat).getD s.world.lastRow } })

/-- How many databases there may be beside the two that are always there. -/
def maxAttached : Nat := 10

/-- The file and the name of a database that is put beside the others. -/
def attachment (s : Session) (file name : Expr) :
    Except Failure (String × String) := do
  let file ← s.textOf file
  let name ← s.textOf name
  let beside := (s.world.stores.toList.drop 2).filter (·.name ≠ "")
  if maxAttached ≤ beside.length then
    throw (.refused (.said
      ("too many attached databases - max " ++ Text.decimal 1 maxAttached)))
  if s.world.stores.any fun d => isSame d.name name then
    throw (.refused (.said ("database " ++ name ++ " is already in use")))
  return (file, name)

/-- Puts a database without anything in it beside the others. -/
def attach (s : Session) (name file : String) (h : Holding) : Session :=
  { s with
    world := { s.world with stores := s.world.stores.push { name, file } }
    holdings := s.holdings.push h }

/-- Fails if texts are not written in a database as in the others. -/
def checkEncoding (s : Session) (pages : Pages) : Except Failure Unit :=
  let number := pages.header Catalogue.encodingPosition
  if number ≠ 0 && Encoding.ofNumber number ≠ s.world.encoding then
    .error (.refused (.said
      "attached databases must use the same text encoding as main database"))
  else .ok ()

/-- Takes a database away that was put beside the others. -/
def detach (s : Session) (e : Expr) : Except Failure (Nat × Session) := do
  let name ← s.textOf e
  match if name = "" then none else s.world.storeNamed? name with
  | none => throw (.refused (.noSuchDatabase name))
  | some n =>
    if n = 1 && (s.world.store 1).pages.isBlank then
      throw (.refused (.noSuchDatabase name))
    if n < 2 then throw (.refused (.notDetachable name))
    if s.inTransaction && (s.world.store n).pages.isTouched then
      throw (.refused (.said ("database " ++ name ++ " is locked")))
    let stores := s.world.stores.modify n fun _ => { name := "" }
    return (n, { s with world := { s.world with stores } })

/-- The list of what is in a database is read, unless it is known. -/
def learn (s : Session) (n : Nat) : Except Failure Session := do
  if (s.holding n).isKnown then return s
  let form := (s.world.store n).pages.header Catalogue.encodingPosition
  let encoding :=
    if n = 0 && form ≠ 0 then Encoding.ofNumber form else s.world.encoding
  let schema ← { s.world with encoding }.load n
  return (s.mapWorlds fun w => { w with
    encoding }.setSchema n schema).setHolding n ({ · with isKnown := true })

end Session

end Bytecode.Database
