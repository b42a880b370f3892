import Bytecode.Database.Directive

/-!
# Making sense of statements

What a statement says is checked against what there is before anything is done.
What comes of that can be carried out: it looks at rows, changes the databases,
or changes what the session knows.
-/

namespace Bytecode.Database

/-- How much a statement looks at the files of databases. -/
inductive Reading where
  | nothing
  /-- It looks at the header only. -/
  | header
  /-- It looks at what is in them. -/
  | everything
  deriving DecidableEq

namespace Statement

/-- How much a statement looks at. -/
def reading : Statement → Reading
  | .directive d => if d.reads then .everything
    else if d.readsHeader then .header else .nothing
  | .begin b => if b = .deferred then .nothing else .header
  | .commit | .rollback | .savepoint _ | .release _ | .rollbackTo _ => .nothing
  | .select q =>
      if (Mention.ofStatement (.select q)).tables.isEmpty then .nothing
      else .everything
  | .explain _ s => s.reading
  | _ => .everything

end Statement

/-- A statement that makes sense. -/
structure Prepared where
  columns : List ResultColumn := []
  /-- The databases that are written to. -/
  writes : List Nat := []
  /-- Carries it out. -/
  run : Session → Except Failure (Flow (Array Value)) × Session :=
    fun s => (.ok {}, s)
  deriving Inhabited

namespace Prepared

/-- Something done to databases. -/
def ofWork (writes : List Nat) (work : Work Unit) : Prepared where
  writes := writes
  run s := s.attempt do
    work
    return {}

/-- Something done to databases, unless there is nothing to do. -/
def ofOption : Option (Nat × Work Unit) → Prepared
  | some (n, work) => ofWork [n] work
  | none => {}

/-- Something done to a session. -/
def ofControl (f : Session → Except Failure Session) : Prepared where
  run s :=
    match f s with
    | .ok s => (.ok {}, s)
    | .error e => (.error e, s)

/-- A query. -/
def ofPlan (p : Plan) : Prepared where
  columns := p.columns
  run s := (.ok (p.run (.ofWorld s.world)), s)

/-- A change of rows. -/
def ofChange (p : ChangePlan) : Prepared where
  columns := p.columns
  writes := (p.happenings.map fun (site, _) => site.store).take 1
  run s :=
    let (result, s) := s.attempt do return { items := ← p.carryOut }
    (result, { s with world := s.world.settled })

end Prepared

namespace Session

/-- Fails if the beginning of a statement makes no sense. -/
def checkBeginning (w : World) : Beginning → Except Failure Unit
  | .table isTemporary ifMissing name => do
    let _ ← Creation.named w isTemporary ifMissing name
  | .virtual ifMissing name => do
    let _ ← Creation.named w false ifMissing name
  | .rule isTemporary ifMissing name rule => do
    let _ ← Creation.rule w isTemporary ifMissing name rule ""
  | .column table => do
    let _ ← Alteration.extended w table

/-- Makes sense of the creation of a table. -/
def prepareTable (w : World) (isTemporary ifMissing : Bool) (name : TableName)
    (make : Nat → Except Failure (Work Unit)) : Except Failure Prepared := do
  let (n, isDone) ← Creation.named w isTemporary ifMissing name
  if isDone then return {}
  return .ofWork [n] (← make n)

/-- Makes sense of a change of rows. -/
def prepareChange (w : World) (plan : Build ChangePlan) :
    Except Failure Prepared := do
  return .ofChange (← (← Build.alone plan).checked w)

/-- Makes sense of the cleaning of a database; one that is copied to a file
stays as it is. -/
def prepareVacuum (s : Session) (database : Option String)
    (target : Option Expr) : Except Failure Prepared := do
  let n ← s.vacuumed database
  if n = 1 then return {}
  match target with
  | some e =>
    let _ ← Build.alone
      (Build.inside (meanings.expr { world := s.world, scopes := [{}] } e))
    return {}
  | none =>
    let run (s : Session) : Except Failure (Flow (Array Value)) × Session :=
      if s.inTransaction then (.error (.refused .notInTransaction), s)
      else match s.checkWritable [n] with
        | .error f => (.error f, s)
        | .ok _ =>
          let pages := (s.world.store n).pages
          let size := if pages.isLogged then pages.size else s.freshSize n
          s.attempt do
            Vacuum.run n size
            return {}
    return { run }

/-- Makes sense of a statement, with values for its places. -/
def prepare (s : Session) (args : List Value) :
    Statement → Except Failure Prepared
  | .directive d => return .ofControl (·.direct d)
  | .createTable isTemporary ifMissing name table text =>
    prepareTable s.world isTemporary ifMissing name fun n =>
      Creation.table s.world n name.name table text
  | .broken start r => do
    checkBeginning s.world start
    throw (.refused r)
  | .createTableAs isTemporary ifMissing name q =>
    prepareTable s.world isTemporary ifMissing name fun n =>
      Creation.tableOfQuery s.world n name.name q
  | .createIndex ifMissing name index text =>
    return .ofOption (← Creation.index s.world ifMissing name index text)
  | .createView isTemporary ifMissing name _ q text => do
    if !(Mention.ofStatement (.select q)).places.isEmpty then
      throw (.refused (.said "parameters are not allowed in views"))
    let (n, isDone) ← Creation.named s.world isTemporary ifMissing name
    if isDone then return {}
    Creation.checkStrangers s.world n "view" name.name
      (Mention.ofStatement (.select q))
    return .ofWork [n] (Creation.view n name.name text)
  | .createRule isTemporary ifMissing name rule text =>
    return .ofOption
      (← Creation.rule s.world isTemporary ifMissing name rule text)
  | .createVirtual ifMissing name table text =>
    prepareTable s.world false ifMissing name fun n =>
      Creation.virtual s.world n name.name table text
  | .drop kind ifThere name =>
      return .ofOption (← Removal.part s.world kind ifThere name)
  | .alter table a => do
    let work ← Alteration.plan s.world table a
    let n := match s.world.relation? table with
      | some (.inl t) => t.store
      | some (.inr v) => v.store
      | none => 0
    return .ofWork [n] work
  | .insert i => prepareChange s.world (i.plan { world := s.world, args })
  | .update u => prepareChange s.world (u.plan { world := s.world, args })
  | .delete d => prepareChange s.world (d.plan { world := s.world, args })
  | .select q => return .ofPlan (← Build.alone
      (meanings.query { world := s.world, args } q))
  | .begin b => return .ofControl (·.begin b)
  | .commit => return .ofControl (·.commit)
  | .rollback => return .ofControl (·.rollback)
  | .savepoint name => return .ofControl fun s => .ok (s.savepoint name)
  | .release name => return .ofControl (·.release name)
  | .rollbackTo name => return .ofControl (·.rollbackTo name)
  | .vacuum database target => s.prepareVacuum database target
  | .attach _ _ | .detach _ => return {}
  | .analyze name => do
    let (writes, work) ← Upkeep.analyze s.world name
    return .ofWork writes work
  | .reindex name => do
    let (writes, work) ← Upkeep.reindex s.world name
    return .ofWork writes work
  | .explain _ inner => do
    let p ← s.prepare args inner
    return { columns := p.columns }

/-- Carries out a statement that makes sense. -/
def run (s : Session) (p : Prepared) :
    Except Failure (Flow (Array Value)) × Session :=
  match s.checkWritable p.writes with
  | .error f => (.error f, s)
  | .ok _ => p.run s

end Session

end Bytecode.Database
