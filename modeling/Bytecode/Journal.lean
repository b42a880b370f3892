import Bytecode.Instant
import Bytecode.Journal.Field

/-!
# The journal of runs

A journal keeps runs in two tables of a database: one has a row for each run,
the other a row for each pass that fired in it.  Names of runs are taken once.
A run is recorded with all its rows or not at all; it can be asked for by name,
by age and in total.  The tables may be somebody else's, so every field is
looked at when it is read.  Whatever carries out the few changes and questions
of a journal, in transactions, can keep one.
-/

namespace Bytecode

/-- A run of the optimiser over one assembly. -/
structure Run where
  id : String
  started : Instant
  input : String
  output : String
  assembly : String
  methods : Int
  inlined : Int
  before : Int
  after : Int
  /-- How often each pass fired; no name occurs twice. -/
  passes : List (String × Int)
  deriving DecidableEq, Repr

namespace Run

/-- Counts in ascending order of their names. -/
def sorted (counts : List (String × Int)) : List (String × Int) :=
  counts.mergeSort fun a b => a.1 ≤ b.1

/-- One line per count. -/
def countLines (indent : String) (counts : List (String × Int)) : String :=
  String.join ((sorted counts).map fun (name, n) =>
    indent ++ Text.padRight 26 name ++ " " ++ Text.integer n ++ "\n")

/-- Counts with their names as they are shown. -/
def legible (counts : List (String × Int)) : List (String × Int) :=
  counts.map fun (name, n) => (Text.shown name, n)

/-- A run with its texts as they are shown. -/
def shown (r : Run) : Run :=
  { r with id := Text.shown r.id, input := Text.shown r.input,
           output := Text.shown r.output, assembly := Text.shown r.assembly }

/-- What a run did. -/
def summary (r : Run) : String :=
  r.input ++ " -> " ++ r.output ++ "\n" ++
  "  methods: " ++ Text.integer r.methods ++ ", inlined: " ++
    Text.integer r.inlined ++
  ", instructions: " ++ Text.integer r.before ++ " -> " ++
    Text.integer r.after ++ "\n" ++
  countLines "  " r.passes

/-- Runs with their names and times. -/
def listing (runs : List Run) : String :=
  if runs.isEmpty then "no runs recorded\n"
  else String.join (runs.map fun r =>
    r.id ++ "  " ++ r.started.text ++ "  " ++ r.assembly ++ "\n" ++ r.summary)

/-- Total counts. -/
def totalsListing (counts : List (String × Int)) : String :=
  countLines "" counts

end Run

namespace Journal

open Database (Value)

/-- The statements that make the tables of a journal. -/
def schema : String :=
  "CREATE TABLE IF NOT EXISTS runs (\n\tid TEXT PRIMARY KEY,\n\tstarted INTEGER NOT NULL,\n" ++
  "\tinput TEXT NOT NULL,\n\toutput TEXT NOT NULL,\n\tassembly TEXT NOT NULL,\n" ++
  "\tmethods INTEGER NOT NULL,\n\tinlined INTEGER NOT NULL,\n" ++
  "\tinstructions_before INTEGER NOT NULL,\n\tinstructions_after INTEGER NOT NULL\n);\n" ++
  "CREATE TABLE IF NOT EXISTS pass_counts (\n\trun_id TEXT NOT NULL REFERENCES runs(id),\n" ++
  "\tpass TEXT NOT NULL,\n\tfired INTEGER NOT NULL,\n\tPRIMARY KEY (run_id, pass)\n);"

/-- The columns of runs. -/
def runColumns : String :=
  "id, started, input, output, assembly, methods, inlined, instructions_before, instructions_after"

/-- What a journal changes. -/
inductive Change where
  | insertRun (r : Run)
  | insertCount (id pass : String) (n : Int)

namespace Change

/-- A change as a statement with places for values. -/
def statement : Change → String
  | .insertRun _ =>
      "INSERT INTO runs (" ++ runColumns ++
        ") VALUES (?1, ?2, ?3, ?4, ?5, ?6, ?7, ?8, ?9)"
  | .insertCount _ _ _ =>
      "INSERT INTO pass_counts (run_id, pass, fired) VALUES (?1, ?2, ?3)"

/-- The values in the places. -/
def values : Change → List Value
  | .insertRun r =>
    [.ofPlain r.id, .integer r.started, .ofPlain r.input, .ofPlain r.output,
      .ofPlain r.assembly, .integer r.methods, .integer r.inlined,
      .integer r.before, .integer r.after]
  | .insertCount id pass n => [.ofPlain id, .ofPlain pass, .integer n]

/-- What a change is called if it fails. -/
def task : Change → String
  | .insertRun _ => "inserting run"
  | .insertCount _ pass _ => "inserting count for " ++ pass

end Change

/-- What a journal asks for.  Names of runs are given as they are kept. -/
inductive Question where
  | run (id : String)
  /-- Runs, the latest first; all of them, or so many at most. -/
  | latest (limit : Option Int)
  | counts (id : String)
  | totals

namespace Question

/-- A question as a statement with places for values. -/
def statement : Question → String
  | .run _ => "SELECT " ++ runColumns ++ " FROM runs WHERE id = ?1"
  | .latest limit =>
    "SELECT " ++ runColumns ++ " FROM runs ORDER BY started DESC, id" ++
      if limit.isSome then " LIMIT ?1" else ""
  | .counts _ => "SELECT pass, fired FROM pass_counts WHERE run_id = ?1"
  | .totals => "SELECT pass, SUM(fired) FROM pass_counts GROUP BY pass"

/-- The values in the places. -/
def values : Question → List Value
  | .run id | .counts id => [.text id]
  | .latest limit => (limit.map Value.integer).toList
  | .totals => []

end Question

/-- The answer to a question: rows, perhaps up to a failure. -/
structure Reply where
  columns : List Column := []
  rows : List (List Value) := []
  failure : Option Cause := none

/-- Who carries out what a journal asks for. -/
class Engine (m : Type → Type) where
  /-- Opens a transaction. -/
  begin : m (Except Cause Unit)
  /-- Closes a transaction and keeps what it has done. -/
  commit : m (Except Cause Unit)
  /-- Closes a transaction and undoes what it has done. -/
  rollback : m (Except Cause Unit)
  change : Change → m (Except Cause Unit)
  ask : Question → m (Except Cause Reply)

/-- The cause of asking a closed journal. -/
def closed : Cause := .other "sql: database is closed"

/-- What is done to record a run. -/
def changes (r : Run) : List Change :=
  .insertRun r :: r.passes.map fun (pass, n) => .insertCount r.id pass n

/-- A run that can be recorded: it has a name. -/
def recordable (run : Option Run) : Except Fault Run :=
  match run.filter fun r => r.id ≠ "" with
  | some r => .ok r
  | none => .error (.failed ["recording run"] (.other "missing id"))

namespace Reply

/-- The fields of a row. -/
def fields (r : Reply) (values : List Value) : List Field :=
  (r.columns.zip values).zipIdx.map fun ((column, value), index) =>
    { index, column, value }

/-- What is made of each row, up to a failure. -/
def read {α : Type} (r : Reply) (task scanning : String)
    (f : (Nat → Field) → Except Field.Defect α) : Except Fault (List α) := do
  let found ← r.rows.mapM fun values =>
    let fields := r.fields values
    let field (n : Nat) : Field :=
      fields.getD n { index := n, column := { name := "" }, value := .null }
    (f field).mapError (·.during scanning)
  match r.failure with
  | some c => throw (.failed [task] c)
  | none => return found

end Reply

/-- The run in a row, without its counts. -/
def runOf (field : Nat → Field) : Except Field.Defect Run := do
  return { id := ← (field 0).text, started := ← (field 1).whole "int64",
           input := ← (field 2).text, output := ← (field 3).text, assembly :=
             ← (field 4).text, methods := ← (field 5).whole "int", inlined :=
             ← (field 6).whole "int", before := ← (field 7).whole "int",
           after := ← (field 8).whole "int", passes := [] }

/-- The name and the number in a row of counts. -/
def countOf (field : Nat → Field) : Except Field.Defect (String × Int) := do
  return (← (field 0).text, ← (field 1).whole "int")

/-- Counts by name; the last one of a name counts. -/
def tally (counts : List (String × Int)) : List (String × Int) :=
  counts.foldl
    (fun known (name, n) => known.filter (·.1 ≠ name) ++ [(name, n)]) []

section

variable {m : Type → Type} [Monad m] [Engine m]

/-- Has something done; a failure is told with the task that it is part of. -/
def during {α : Type} (task : String) (x : m (Except Cause α)) :
    ExceptT Fault m α :=
  ExceptT.mk do return (← x).mapError fun c => .failed [task] c

/-- Records a run.  If a part of that fails, nothing is left of it. -/
def record (run : Option Run) : ExceptT Fault m Unit := do
  let r ← ExceptT.mk (pure (recordable run))
  during "recording run" Engine.begin
  try
    (changes r).forM fun c => during c.task (Engine.change c)
  catch f =>
    let _ ← (Engine.rollback : m (Except Cause Unit))
    throw f
  during "committing run" Engine.commit

/-- The counts of the run whose name is kept as a text; there are none without
such a run. -/
def countsOf (id : String) : ExceptT Fault m (List (String × Int)) := do
  let task := "querying pass counts"
  let reply ← during task (Engine.ask (.counts id))
  let found ← ExceptT.mk (pure (reply.read task "scanning pass count" countOf))
  return Run.legible (Run.sorted (tally found))

/-- The counts of the run with a given name. -/
def counts (id : String) : ExceptT Fault m (List (String × Int)) :=
  countsOf (Text.ofPlain id)

/-- A run, as it is shown, with the counts of the one with a name. -/
def complete (r : Run) (id : String) : ExceptT Fault m Run :=
  return { r.shown with passes := ← countsOf id }

/-- The run with a given name. -/
def find (id : String) : ExceptT Fault m Run := do
  let task := "querying run"
  let id := Text.ofPlain id
  let reply ← during task (Engine.ask (.run id))
  let first := { reply with
    rows := reply.rows.take 1, failure :=
      if reply.rows.isEmpty then reply.failure else none }
  match ← ExceptT.mk (pure (first.read task task runOf)) with
  | [] => throw (.of .runNotFound)
  | r :: _ => complete r id

/-- The latest runs, at most `limit` of them, or all if that is not positive. -/
def latest (limit : Int) : ExceptT Fault m (List Run) := do
  let task := "listing runs"
  let reply ← during task
    (Engine.ask (.latest (if 0 < limit then some limit else none)))
  let runs ← ExceptT.mk (pure (reply.read task "scanning run" runOf))
  runs.mapM fun r => complete r r.id

/-- The sums of all counts. -/
def totals : ExceptT Fault m (List (String × Int)) := do
  let task := "summing pass counts"
  let reply ← during task (Engine.ask .totals)
  let found ← ExceptT.mk (pure (reply.read task "scanning pass total" countOf))
  return Run.legible (Run.sorted (tally found))

end

end Journal

end Bytecode
