import Bytecode.Assembly
import Bytecode.Host
import Bytecode.Path
import Bytecode.Policy
import Bytecode.Text.Quoted
import Bytecode.Toml.Table

/-!
# Configuration

The settings of a run, read from a file or taken as they are by default.  Paths
in a file are relative to the directory that holds it.  Names of settings match
without regard to case; settings that are not known are ignored.  What tables a
file spells out is left to a `Toml.Parser`.
-/

namespace Bytecode

/-! ### Where results go

An optimised assembly is written to a file that is named after the assembly, not
after the input, with a suffix in front of the extension.
-/

namespace Output

/-- The suffix used when none is given. -/
def defaultSuffix : String := "inlined"

/-- The file name of an optimised assembly. -/
def fileName (a : Assembly) (suffix : String) : String :=
  a.name ++ "." ++ (if suffix = "" then defaultSuffix else suffix) ++ "." ++
    a.kind.extension

/-- The path an optimised assembly is written to: in `dir`, or beside the input
if no directory is given. -/
def path (input : String) (a : Assembly) (dir suffix : String) : String :=
  Path.join [if dir = "" then Path.dir input else dir, fileName a suffix]

end Output

/-! ### Settings -/

/-- The settings of a run. -/
structure Config where
  /-- Names of passes, in order; none means the standard ones. -/
  passes : List String := []
  /-- How many calls may be inlined into one method; zero means any number. -/
  inlineBudget : Int := 0
  limits : Policy.Limits := {}
  suffix : String := Output.defaultSuffix
  /-- Where results go; empty means beside the input. -/
  outDir : String := ""
  /-- Where runs are recorded; empty means nowhere. -/
  journal : String := ""
  verbosity : Int := 0
  /-- Where log messages go; empty means the standard error stream. -/
  logFile : String := ""
  /-- The directory that relative paths start from. -/
  dir : String := ""

namespace Config

/-- The name of configuration files. -/
def fileName : String := "inliner.toml"

/-! ### Meaning -/

/-- A path of the configuration, as seen from its directory. -/
def resolve (c : Config) (path : String) : String :=
  if path = "" || Path.isAbsolute path || c.dir = "" then path
  else Path.join [c.dir, path]

/-- The directory for results, or nothing. -/
def outputDir (c : Config) : String := c.resolve c.outDir

/-- The file in which runs are recorded, or nothing. -/
def journalPath (c : Config) : String := c.resolve c.journal

/-- The file for log messages, or nothing. -/
def logPath (c : Config) : String := c.resolve c.logFile

/-- The first text in a list that has occurred before. -/
def firstRepeated? (seen : List String) : List String → Option String
  | [] => none
  | s :: rest =>
      if seen.contains s then some s else firstRepeated? (s :: seen) rest

/-- Checks the values that no run could use. -/
def validate (c : Config) : Except Fault Unit := do
  let nonNegative (name : String) (n : Int) : Except Fault Unit :=
    if n < 0 then .error (.text
      (name ++ " = " ++ Text.integer n ++ ", must not be negative"))
    else .ok ()
  nonNegative "optimizer.inline-budget" c.inlineBudget
  nonNegative "inline.max-instructions" c.limits.maxInstructions
  nonNegative "inline.max-locals" c.limits.maxLocals
  match firstRepeated? [] c.passes with
  | some p =>
      throw (.text ("optimizer.passes lists " ++ Text.quoted p ++ " twice"))
  | none => return

/-! ### Reading -/

/-- A character without regard to case, for names of ASCII letters: the long s
and the Kelvin sign count as the letters they look like. -/
def fold (c : Char) : Char :=
  if c.toNat = 0x17f then 's'
  else if c.toNat = 0x212a then 'k'
  else c.toLower

/-- Whether a key is the name of a setting. -/
def names (name key : String) : Bool :=
  name = key || name.toList.map fold = key.toList.map fold

/-- The whole number in a value. -/
def integer? : Toml.Value → Option Int
  | .integer n => some n
  | _ => none

/-- The text in a value. -/
def text? : Toml.Value → Option String
  | .text s => some s
  | _ => none

/-- The texts in a value. -/
def texts? : Toml.Value → Option (List String)
  | .array items => items.mapM text?
  | _ => none

/-- The table in a value. -/
def table? : Toml.Value → Option Toml.Table
  | .table t => some t
  | _ => none

/-- Applies what a table says about a section or setting: every entry of that
name must be of the right sort. -/
def setting {α : Type} (t : Toml.Table) (name : String)
    (sort : Toml.Value → Option α) (apply : α → Config → Option Config)
    (c : Config) : Option Config :=
  (t.filter fun e => names name e.1).foldlM (fun c e => do
    apply (← sort e.2) c) c

/-- Applies a table that says how the passes work. -/
def readOptimizer (t : Toml.Table) (c : Config) : Option Config := do
  let c ← setting t "passes" texts? (fun x c => some { c with passes := x }) c
  setting t "inline-budget" integer?
    (fun x c => some { c with inlineBudget := x }) c

/-- Applies a table that says what may be inlined. -/
def readInline (t : Toml.Table) (c : Config) : Option Config := do
  let c ← setting t "max-instructions" integer?
    (fun x c => some { c with limits.maxInstructions := x }) c
  let c ← setting t "max-locals" integer?
    (fun x c => some { c with limits.maxLocals := x }) c
  setting t "exclude" texts? (fun x c => some { c with limits.exclude := x }) c

/-- Applies a table that says where results go. -/
def readOutput (t : Toml.Table) (c : Config) : Option Config := do
  let c ← setting t "suffix" text? (fun x c => some { c with suffix := x }) c
  setting t "dir" text? (fun x c => some { c with outDir := x }) c

/-- Applies a table that says where runs are recorded. -/
def readJournal (t : Toml.Table) (c : Config) : Option Config :=
  setting t "path" text? (fun x c => some { c with journal := x }) c

/-- Applies a table that says what is logged. -/
def readLog (t : Toml.Table) (c : Config) : Option Config := do
  let c ← setting t "verbosity" integer?
    (fun x c => some { c with verbosity := x }) c
  setting t "file" text? (fun x c => some { c with logFile := x }) c

/-- The configuration that a document describes. -/
def ofTable? (t : Toml.Table) : Option Config := do
  let c ← setting t "optimizer" table? readOptimizer {}
  let c ← setting t "inline" table? readInline c
  let c ← setting t "output" table? readOutput c
  let c ← setting t "journal" table? readJournal c
  setting t "log" table? readLog c

/-- The configuration in what is found at a path, for someone in `cwd`. -/
def ofFound [Toml.Parser] (cwd path : String) (found : Found) :
    Except Fault Config := do
  let unreadable (step : String) (cause : Cause) : Except Fault Config :=
    .error (.failed ["cannot read " ++ path, step ++ " " ++ path] cause)
  match found with
  | .missing => unreadable "open" .noSuchFile
  | .unavailable reason => unreadable "open" (.other reason)
  | .directory => unreadable "read" (.other "is a directory")
  | .file bytes =>
    match (Toml.Parser.parse bytes).bind ofTable? with
    | none => throw (.failed ["parse error in " ++ path] .malformedConfig)
    | some c =>
      let c := { c with dir := Path.absolute cwd (Path.dir path) }
      Fault.during ("invalid " ++ path) c.validate
      return c

section

variable {m : Type → Type} [Monad m] [Host m]

/-- Reads the configuration file at a path. -/
def loadFile [Toml.Parser] (path : String) : ExceptT Fault m Config := do
  let cwd ← Host.workingDirectory (m := m)
  let found ← Host.find (m := m) path
  ExceptT.mk (pure (ofFound cwd path found))

/-- Reads the configuration file in a directory. -/
def load [Toml.Parser] (dir : String) : ExceptT Fault m Config :=
  loadFile (Path.join [dir, fileName])

/-- Reads the configuration file in the first of some directories that has
one. -/
def loadFirst [Toml.Parser] : List String → ExceptT Fault m (Option Config)
  | [] => return none
  | dir :: rest => do
    match ← Host.find (m := m) (Path.join [dir, fileName]) with
    | .file _ | .directory => some <$> load dir
    | .missing | .unavailable _ => loadFirst rest

/-- Reads the configuration file nearest above a directory. -/
def findAndLoad [Toml.Parser] (start : String) :
    ExceptT Fault m (Option Config) := do
  let cwd ← Host.workingDirectory (m := m)
  loadFirst (Path.ancestors (Path.absolute cwd start))

end

end Config

end Bytecode
