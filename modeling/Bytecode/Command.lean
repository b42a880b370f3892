import Bytecode.Command.Request
import Bytecode.Config
import Bytecode.Dump
import Bytecode.File
import Bytecode.Journal.Connection
import Bytecode.Log
import Bytecode.Optimizer

/-!
# Commands

Optimising assemblies, listing their code, and listing recorded runs.

Each input that is optimised is read, optimised and written to its output path
before the next one is looked at; a run is printed and recorded once its output
is there.
-/

namespace Bytecode

namespace Config

/-- The configuration with what the command line says in its place. -/
def override (c : Config) (o : OptimizeOptions) : Config :=
  { c with
    outDir := o.outDir.getD c.outDir
    suffix := o.suffix.getD c.suffix
    passes := o.passes.getD c.passes
    inlineBudget :=
      if 0 ≤ o.inlineBudget then o.inlineBudget else c.inlineBudget
    journal := o.journal.getD c.journal }

/-- The names of the passes to apply. -/
def passNames (c : Config) : List String :=
  if c.passes.isEmpty then Pass.standard.map (·.name) else c.passes

/-- Optimises a file as configured, and counts what was done. -/
def optimize (c : Config) (input : String) (f : File) :
    Except Fault (File × Stats) := do
  let methods := f.assembly.methods
  let passes ← Pass.ofNames true c.passNames
  let settings : InlineSettings :=
    { resolution := some (.ofMethods f.program methods)
      policy := Policy.baseline c.limits
      budget := c.inlineBudget }
  let o : Optimizer Unit := .ofPasses settings passes
  let (result, s) := o.run Optimizer.ampleFuel methods
    { program := f.program, memo := .ofCapacity methods.length, client := () }
  Fault.during ("optimize " ++ input) result
  return ({ f with program := s.program }, s.stats)

/-- Where the result of an input goes. -/
def outputPath (c : Config) (input : String) (f : File) : String :=
  Output.path input f.assembly c.outputDir c.suffix

end Config

namespace File

/-- The file in what is found at a path. -/
def ofFound [Codec] (path : String) (found : Found) : Except Fault File :=
  match found with
  | .missing => .error (.failed ["assembly: open", "open " ++ path] .noSuchFile)
  | .unavailable reason =>
      .error (.failed ["assembly: open", "open " ++ path] (.other reason))
  | .directory => Fault.during ("assembly: " ++ path)
      (read (.error (.failed ["read " ++ path] (.other "is a directory"))))
  | .file bytes => Fault.during ("assembly: " ++ path) (read (.ok bytes))

/-- The bytes of an optimised file, to be written to `path`. -/
def optimizedBytes [Codec] (path : String) (f : File) :
    Except Fault (List UInt8) :=
  Fault.during ("assembly: " ++ path)
    (encode f.program f.assembly (f.header.flags ||| optimizedFlag))

end File

/-- The record of a run. -/
def Run.ofStats (id input output assembly : String) (started : Instant)
    (s : Stats) : Run :=
  { id, started, input, output, assembly, methods := s.methods,
    inlined := s.inlined, before := s.before, after := s.after,
    passes := s.fired.map fun (name, n) => (name, (n : Int)) }

namespace Command

variable {m : Type → Type} [Monad m] [Host m]

/-- Reads the assembly file at a path. -/
def readFile [File.Codec] (path : String) : ExceptT Fault m File := do
  let found ← Host.find (m := m) path
  ExceptT.mk (pure (File.ofFound path found))

/-- Writes an optimised file, making the directory it goes to. -/
def writeFile [File.Codec] (path : String) (f : File) :
    ExceptT Fault m Unit := do
  Fault.duringAction "create output directory"
    (ExceptT.mk (Host.makeDirectories (m := m) (Path.dir path)))
  let bytes ← ExceptT.mk (pure (f.optimizedBytes path))
  match ← Host.store (m := m) path bytes with
  | .ok _ => return
  | .error c => throw (.failed ["assembly: write file", "open " ++ path] c)

/-- Optimises one input. -/
def optimizeFile [Logger m] [File.Codec] (log : Log) (c : Config)
    (input : String) : ExceptT Fault m Run := do
  let started ← Host.now (m := m)
  let f ← readFile input
  if f.header.isOptimized then
    Logger.write (m := m) log .warning (input ++ " is already optimized")
  let (f, stats) ← ExceptT.mk (pure (c.optimize input f))
  if 0 < stats.refused then
    Logger.write (m := m) log .warning
      ("inline budget exhausted in " ++ f.assembly.name)
  Logger.write (m := m) log .info ("optimized " ++ f.assembly.name)
  let output := c.outputPath input f
  writeFile output f
  Logger.write (m := m) log .info ("wrote " ++ output)
  let id ← Host.freshName (m := m)
  return .ofStats id input output f.assembly.name started stats

/-- Optimises inputs in order, each with its record printed and kept. -/
def optimizeAll [Logger m] [File.Codec] (log : Log) (c : Config)
    (keep : Run → ExceptT Fault m Unit) :
    List String → ExceptT Fault m Unit
  | [] => return
  | input :: rest => do
    let run ← optimizeFile log c input
    Host.print (m := m) run.summary
    keep run
    optimizeAll log c keep rest

/-- Optimises inputs in order and records them in a journal. -/
def optimizeRecorded [Logger m] [File.Codec] (log : Log) (c : Config)
    (journal : String) (inputs : List String) : ExceptT Fault m Unit :=
  Journal.Connection.throughout journal (optimizeAll log c (fun run =>
    Fault.duringAction ("journal " ++ journal)
      (Journal.record (some run))) inputs)

/-! ### What is asked for -/

/-- A refusal that ends the program with code 2. -/
def refuse {α : Type} (text : String) : ExceptT Fault m α :=
  throw (.of (.exit 2 text))

/-- The configuration a command works with: the named one, the nearest one above
a directory, or the default. -/
def loadConfig [Toml.Parser] (o : CommonOptions) (start : String) :
    ExceptT Fault m Config := do
  if o.config ≠ "" then Config.loadFile o.config
  else return (← Config.findAndLoad start).getD {}

/-- The log that options and a configuration ask for, with its file made. -/
def openLog [Logger m] (o : CommonOptions) (c : Config) :
    ExceptT Fault m Log := do
  let log : Log :=
    { path := if o.logFile ≠ "" then o.logFile else c.logPath
      verbosity := if 0 ≤ o.verbosity then o.verbosity else c.verbosity }
  ExceptT.mk (Logger.prepare (m := m) log)
  return log

/-- Optimises assemblies. -/
def optimize [Logger m] [File.Codec] [Toml.Parser] (common : CommonOptions)
    (o : OptimizeOptions) (inputs : List String) :
    ExceptT Fault m Unit := do
  match inputs with
  | [] => refuse "no input assemblies given"
  | first :: _ =>
    let c ← loadConfig common (Path.dir first)
    let log ← openLog common c
    let c := c.override o
    ExceptT.mk (pure c.validate)
    if c.journalPath ≠ "" && !o.noJournal then
      optimizeRecorded log c c.journalPath inputs
    else optimizeAll log c (fun _ => pure ()) inputs

/-- Lists the code of an assembly. -/
def dump [File.Codec] (color : Bool) (o : DumpOptions) (inputs : List String) :
    ExceptT Fault m Unit := do
  match inputs with
  | [input] =>
    let f ← readFile input
    Host.print (m := m) (Dump.file (color && !o.noColor) f o.method)
  | _ => refuse "dump takes exactly one assembly"

/-- Lists recorded runs. -/
def runs [Logger m] [Toml.Parser] (common : CommonOptions) (o : RunsOptions) :
    ExceptT Fault m Unit := do
  let c ← loadConfig common (← Host.workingDirectory (m := m))
  let _ ← openLog common c
  let c := { c with journal := o.journal.getD c.journal }
  if c.journalPath = "" then
    refuse "no journal configured (use --journal or [journal] path)"
  let text ← Journal.Connection.throughout c.journalPath
    (if o.totals then Run.totalsListing <$> Journal.totals
      else Run.listing <$> Journal.latest o.limit)
  Host.print (m := m) text

/-- Does what was asked for. -/
def execute [Logger m] [File.Codec] [Toml.Parser] (color : Bool) (r : Request) :
    ExceptT Fault m Unit :=
  match r.task with
  | .optimize o inputs => optimize r.common o inputs
  | .dump o inputs => dump color o inputs
  | .runs o => runs r.common o
  | .explain => return

/-- Does what the arguments ask for. -/
def run [Logger m] [File.Codec] [Toml.Parser] (color : Bool)
    (args : List String) : ExceptT Fault m Unit := do
  let r ← ExceptT.mk (pure (Request.ofArguments args))
  execute color r

end Command

end Bytecode
