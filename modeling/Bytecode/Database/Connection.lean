import Bytecode.Database.Log
import Bytecode.Database.Preparation
import Bytecode.Host
import Bytecode.Path

/-!
# Connections

A connection carries out statements on databases in files or in memory.  Before
it looks at a file it looks beside it: another file there may hold pages that
are to be put back, or a log that goes on with them.  What a statement changes
is written at once, unless a transaction is open; while there is a log, the file
itself is written when the log is closed.
-/

namespace Bytecode.Database

/-- The file behind a database. -/
structure Backing where
  /-- The place of the database among those of the connection. -/
  store : Nat := 0
  path : String
  /-- Whether the file is said never to change, so nobody looks beside it. -/
  isFixed : Bool := false
  /-- Whether a log is shared through a file of its own. -/
  sharesLog : Bool := true
  isLogOpen : Bool := false
  /-- Whether the log has pages that are not in the file. -/
  isAhead : Bool := false
  /-- What the file held when it was looked at last. -/
  seen : Option (List UInt8) := none

/-- A connection. -/
structure Connection where
  session : Session := {}
  backings : List Backing := []
  /-- Whether the open transaction has looked at the files already. -/
  isHeld : Bool := false

/-- What comes of a statement: rows, perhaps up to a failure. -/
structure Answer where
  columns : List ResultColumn := []
  rows : Flow (Array Value) := {}

/-- Something done on a connection; what has happened to the connection stays,
also if it fails. -/
abbrev Task (m : Type → Type) := ExceptT Failure (StateT Connection m)

namespace Connection

/-- The file that changes are undone from. -/
def undoPath (path : String) : String := path ++ "-journal"

/-- The file of the log. -/
def logPath (path : String) : String := path ++ "-wal"

/-- The file through which a log is shared. -/
def sharedPath (path : String) : String := path ++ "-shm"

/-- What stands beside a database. -/
inductive Beside where
  /-- Nothing, or an empty file. -/
  | nothing
  | file (bytes : List UInt8)
  | obstacle

/-- The longest path of a database, in bytes. -/
def maxPath : Nat := 504

/-- A connection with the file of a database changed. -/
def setBacking (c : Connection) (n : Nat) (f : Backing → Backing) :
    Connection :=
  { c with backings := c.backings.map fun b => if b.store = n then f b else b }

/-- The file of a database, if it has one. -/
def backing? (c : Connection) (n : Nat) : Option Backing :=
  c.backings.find? fun b => b.store = n

section

variable {m : Type → Type} [Monad m] [Host m]

/-- A request to the host. -/
def ask {α : Type} (x : m α) : Task m α := ExceptT.lift (StateT.lift x)

/-- A result as something done. -/
def ofExcept {α : Type} (r : Except Failure α) : Task m α := ExceptT.mk (pure r)

/-- What stands at a path beside a database. -/
def look (path : String) : Task m Beside := do
  match ← ask (Host.find (m := m) path) with
  | .file [] => return .nothing
  | .file bytes => return .file bytes
  | .directory => return .obstacle
  | .missing | .unavailable _ => return .nothing

/-- Takes a file away. -/
def remove (path : String) : Task m Unit := ask (Host.remove (m := m) path)

/-- Writes a file, which must be possible. -/
def store (path : String) (bytes : List UInt8) : Task m Unit := do
  match ← ask (Host.store (m := m) path bytes) with
  | .ok _ => return
  | .error _ => throw .unopened

/-- Puts pages back that a connection before this one has left changed.  The
result is what the file holds then. -/
def checkUndo (b : Backing) (bytes : List UInt8) : Task m (List UInt8) := do
  let isWritable := ((← get).session.holding b.store).isWritable
  let isBlank : Bool := Pages.sizeOf bytes = 0
  match ← look (undoPath b.path) with
  | .nothing => return bytes
  | .obstacle => if isBlank then return bytes else throw .unreadable
  | .file undo =>
    if isBlank then
      if isWritable then remove (undoPath b.path)
      return bytes
    else if undo.head? = some 0 then return bytes
    else
      if !isWritable then throw .cannotUndo
      let old := Undo.apply undo bytes
      if old ≠ bytes then store b.path old
      remove (undoPath b.path)
      return old

/-- Opens the log of a database, and tells what it holds.  If it cannot be
shared, nothing can be written any more. -/
def openLog (b : Backing) : Task m Log := do
  let c ← get
  if !(c.session.holding b.store).canLog then throw .unopened
  let log ← match ← look (logPath b.path) with
    | .obstacle => throw .unopened
    | .file bytes => ofExcept (Log.ofBytes bytes)
    | .nothing =>
      store (logPath b.path) []
      pure {}
  let opened (c : Connection) : Connection :=
    c.setBacking b.store
      ({ · with isLogOpen := true, isAhead := !log.pages.isEmpty })
  if b.sharesLog then
    match ← look (sharedPath b.path) with
    | .obstacle =>
      modify fun c => opened { c with
        session := c.session.setHolding b.store
          ({ · with isWritable := false }) }
    | _ =>
      store (sharedPath b.path) (List.replicate 32768 0)
      modify opened
  else modify opened
  return log

/-- Goes on with a log that stands beside a database. -/
def checkLog (b : Backing) (isBlank : Bool) : Task m (Option Log) := do
  match ← look (logPath b.path) with
  | .nothing => return none
  | .obstacle => throw (if isBlank then .undeletable else .unopened)
  | .file _ =>
    if isBlank then
      remove (logPath b.path)
      return none
    else some <$> openLog b

/-- Puts the pages of a file into the session, in which nothing is known of
them. -/
def install (b : Backing) (bytes : List UInt8) (pages : Pages) : Task m Unit :=
  modify fun c =>
    let place (w : World) : World :=
      let old := (w.store b.store).pages
      let size := if pages.isBlank then old.size else pages.size
      (w.setPages b.store { pages with
        size, limit := old.limit }).setSchema b.store {}
    let session := (c.session.mapWorlds place).setHolding b.store
      ({ · with isKnown := false })
    { c with session }.setBacking b.store ({ · with seen := some bytes })

/-- Looks at the file of a database. -/
def shareBacking (b : Backing) : Task m Unit := do
  if b.isLogOpen then return
  match ← ask (Host.find (m := m) b.path) with
  | .file bytes =>
    let bytes ← if b.isFixed then pure bytes else checkUndo b bytes
    let log? ← if b.isFixed then pure none else
        checkLog b (Pages.sizeOf bytes = 0)
    match log? with
    | some log => install b bytes (← ofExcept (Pages.ofLogged bytes log))
    | none =>
      if b.seen ≠ some bytes then
        install b bytes (← ofExcept (Pages.ofBytes bytes))
      if ((← get).session.world.store b.store).pages.isLogged && !b.isFixed then
        let log ← openLog b
        if !log.pages.isEmpty then
          install b bytes (← ofExcept (Pages.ofLogged bytes log))
  | _ => throw .unreadable

/-- Looks at the files of the databases, as much as is needed. -/
def share (r : Reading) : Task m Unit := do
  if r = .nothing then return
  if !(← get).isHeld then
    (← get).backings.forM shareBacking
    modify fun c => { c with isHeld := c.session.inTransaction }
  if r = .everything then
    (← get).backings.forM fun b => do
      let s ← ofExcept ((← get).session.learn b.store)
      modify fun c => { c with session := s }

/-- What stands at the path of the file that changes are undone from, after a
change is complete. -/
def settleUndo (path : String) (mode : UndoMode) : Task m Unit :=
  match mode with
  | .delete => remove (undoPath path)
  | .persist => store (undoPath path) (List.replicate 512 0)
  | .truncate => store (undoPath path) []
  | _ => return

/-- Writes what has been changed in a database; the file is not written while
there is a log. -/
def keepBacking (b : Backing) : Task m Unit := do
  let c ← get
  let pages := (c.session.world.store b.store).pages
  if pages.isTouched then
    let pages := pages.stamped
    let session :=
      { c.session with world := c.session.world.setPages b.store pages }
    if b.isLogOpen then
      set ({ c with session }.setBacking b.store ({ · with isAhead := true }))
    else
      let bytes := pages.bytes
      store b.path bytes
      settleUndo b.path (c.session.holding b.store).undo
      set ({ c with
        session }.setBacking b.store ({ · with seen := some bytes }))

/-- Fails if pages have been changed that could not be put back. -/
def checkUndoable (b : Backing) : Task m Unit := do
  let s := (← get).session
  let h := s.holding b.store
  if (s.world.store b.store).pages.isTouched && !b.isLogOpen &&
      h.undo.needsFile then
    match ← ask (Host.find (m := m) (undoPath b.path)) with
    | .directory | .unavailable _ => throw .unopened
    | .file _ | .missing => return

/-- Ends a statement: what it has changed is written, unless a transaction is
open. -/
def settle (before : Session) : Task m Unit := do
  try
    (← get).backings.forM checkUndoable
    if !(← get).session.inTransaction then (← get).backings.forM keepBacking
  catch f =>
    modify fun c => { c with session := before }
    throw f
  if !(← get).session.inTransaction then
    modify fun c =>
      { c with isHeld := false
               session := { c.session with world :=
                 { c.session.world with
                   stores := c.session.world.stores.map fun s =>
                     { s with
                       pages := { s.pages with isTouched := false } } } } }

/-- Closes a log: the file is written, and the files of the log are taken
away. -/
def closeLog (b : Backing) : Task m Unit := do
  if b.isAhead then
    let bytes := ((← get).session.world.store b.store).pages.bytes
    store b.path bytes
    modify fun c => c.setBacking b.store ({ · with seen := some bytes })
  remove (logPath b.path)
  if b.sharesLog then remove (sharedPath b.path)
  modify fun c =>
    c.setBacking b.store ({ · with isLogOpen := false, isAhead := false })

/-- Follows a change of the mode in which changes can be undone: a log is
closed, and a file that stayed is taken away. -/
def followUndo (d : Directive) : Task m Unit := do
  let c ← get
  if d.key = "journal_mode" && !c.session.inTransaction then
    match (d.store? c.session.world).bind c.backing?,
      d.value.bind UndoMode.ofText? with
    | none, _ | _, none | _, some .log => return
    | some b, some mode =>
      let h := c.session.holding b.store
      if b.isLogOpen then
        if !h.isWritable then throw .notWritable
        closeLog b
      else if h.undo.leavesFile && !mode.leavesFile then
        remove (undoPath b.path)

/-- A directory for other files must be there. -/
def checkDirectory (d : Directive) : Task m Unit := do
  if d.key = "temp_store_directory" then
    match d.value with
    | none | some "" => return
    | some path =>
      match ← ask (Host.find (m := m) path) with
      | .file _ | .directory => return
      | _ => throw (.refused .notADirectory)

/-- The path that leads through components from a place, both as text: `..`
takes back a component without looking, but no other component may be out of
reach. -/
def resolve (here : List String) : List String → m (Option (List String))
  | [] => return some here
  | c :: rest =>
    if c = "" || c = "." then resolve here rest
    else if c = ".." then resolve here.dropLast rest
    else do
      let next := here ++ [c]
      let path := "/" ++ String.intercalate "/" next
      if maxPath + 8 ≤ Text.size path then return none
      match ← Host.find (m := m) path with
      | .unavailable _ => return none
      | _ => resolve next rest

/-- The path of the file with a given name, from the root, if it can be
reached. -/
def locate? (name : String) : m (Option String) := do
  let cwd ← Host.workingDirectory (m := m)
  let start := if Path.isAbsolute name then [] else Path.cleanComponents cwd
  match ← resolve (m := m) start (Path.components name) with
  | none | some [] => return none
  | some components =>
    let path := "/" ++ String.intercalate "/" components
    return if Text.size path ≤ maxPath then some path else none

/-- Makes sure that there is a file, and gives its path. -/
def provide (name : String) : Task m String := do
  match ← ask (locate? (m := m) name) with
  | none => throw (.unattached name)
  | some path =>
    match ← ask (Host.find (m := m) path) with
    | .file _ => return path
    | .directory | .unavailable _ => throw (.unattached name)
    | .missing =>
      match ← ask (Host.store (m := m) path []) with
      | .ok _ => return path
      | .error _ => throw (.unattached name)

/-- Puts a database beside the others. -/
def attach (file name : Expr) : Task m Unit := do
  let (file, name) ← ofExcept ((← get).session.attachment file name)
  let c ← get
  let isVolatile : Bool := file = "" || file = ":memory:"
  if isVolatile then set { c with session := c.session.attach name "" {} }
  else
    let path ← provide file
    let session := c.session.attach name path { isVolatile }
    let n := c.session.world.stores.size
    let b : Backing := { store := n, path }
    set { c with session := session.setHolding n ({ · with isKnown := false }),
                 backings := c.backings ++ [b] }
    try
      shareBacking b
      let pages := ((← get).session.world.store n).pages
      ofExcept (c.session.checkEncoding pages)
      let s ← ofExcept ((← get).session.learn n)
      modify fun c => { c with session := s }
    catch f =>
      set c
      throw f

/-- Takes a database away that was put beside the others. -/
def detach (name : Expr) : Task m Unit := do
  let (n, session) ← ofExcept ((← get).session.detach name)
  match (← get).backing? n with
  | some b => if b.isLogOpen then closeLog b
  | none => pure ()
  modify fun c =>
    { c with session, backings := c.backings.filter fun b => b.store ≠ n }

/-- Copies a database to a file in which nothing is yet. -/
def copyTo (database : Option String) (target : Expr) : Task m Unit := do
  let s := (← get).session
  let n ← ofExcept (s.vacuumed database)
  if n = 1 then return
  if s.inTransaction then throw (.refused .notInTransaction)
  match ← ofExcept (s.computed target) with
  | .text file =>
    let (pages, session) ← ofExcept (s.copy n)
    if file ≠ "" && file ≠ ":memory:" then
      let path ← provide file
      match ← ask (Host.find (m := m) path) with
      | .file bytes =>
          if !bytes.isEmpty then
            throw (.refused (.said "output file already exists"))
      | _ => pure ()
      store path pages.stamped.bytes
    modify fun c => { c with session }
  | _ => throw (.refused (.said "non-text filename"))

/-- Looks whether a directive can be followed, and follows a change of the mode
in which changes can be undone. -/
def follow : Statement → Task m Unit
  | .directive d => do
    checkDirectory d
    followUndo d
  | _ => return

/-- Makes sense of a statement; a place without a value is a failure, if there
are no values at all. -/
def makeSense (args : List Value) (s : Statement) : Task m Prepared := do
  let p ← ofExcept ((← get).session.prepare args s)
  match if args.isEmpty then (Mention.ofStatement s).missing? else none with
  | some f => throw f
  | none => return p

/-- Brings the databases into play that a statement names, or takes one away. -/
def bringIn : Statement → Task m Unit
  | .attach file name => attach file name
  | .detach name => detach name
  | .vacuum database (some target) => copyTo database target
  | _ => return

/-- Carries out what has been made of a statement. -/
def carryOut (before : Session) (p : Prepared) : Task m Answer := do
  let c ← get
  let (result, session) := c.session.run p
  set { c with session }
  settle before
  return { columns := p.columns, rows := ← ofExcept result }

/-- Carries out a statement, with values for its places. -/
def perform (args : List Value) (s : Statement) : Task m Answer := do
  share s.reading
  follow s
  let before := (← get).session
  let p ← makeSense args s
  bringIn s
  carryOut before p

/-- Carries out the statements that pieces spell, at most so many.  Of what a
statement gives only the first row is looked at. -/
def performAll : Nat → List Token → Task m Unit
  | 0, _ => return
  | fuel + 1, ts => do
    match Statement.next ts with
    | .error r => throw (.refused r)
    | .ok none => return
    | .ok (some (s, rest)) =>
      let answer ← perform [] s
      match answer.rows.first with
      | .error (.failed f _) => throw f
      | _ => performAll fuel rest

/-- Carries out a script. -/
def script (text : String) : Task m Unit :=
  let ts := Token.all text
  performAll (ts.length + 1) ts

/-- Carries out the statement that a text is, with values for its places. -/
def query (text : String) (args : List Value) : Task m Answer := do
  match Statement.ofText text with
  | .error r => throw (.refused r)
  | .ok s => perform args s

/-- Closes a connection.  Nothing is left of an open transaction, and a log is
closed. -/
def close : Task m Unit := do
  modify fun c => { c with session := c.session.undone, isHeld := false }
  let c ← get
  c.backings.forM fun b => do
    if b.isLogOpen && (c.session.holding b.store).isWritable then closeLog b

end

end Connection

end Bytecode.Database
