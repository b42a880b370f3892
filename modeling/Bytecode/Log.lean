import Bytecode.Host
import Bytecode.Text.Utf8

/-!
# The log

Commands tell what they do in a log file.  How much they tell depends on the
verbosity: the higher it is, the less an entry has to matter.  They leave it to
a `Logger` what becomes of an entry; the one given here keeps a file with one
entry a line.
-/

namespace Bytecode

/-- How much an entry matters. -/
inductive Severity where
  | warning
  | info
  deriving DecidableEq, Repr

namespace Severity

/-- The least verbosity at which entries are told. -/
def threshold : Severity → Int
  | .warning => -1
  | .info => 1

/-- The word in front of an entry. -/
def label : Severity → String
  | .warning => "WARNING"
  | .info => "INFO"

end Severity

/-- A log. -/
structure Log where
  /-- The file of the log; without one nothing is kept. -/
  path : String := ""
  verbosity : Int := 0

/-- A monad in which a log can be kept. -/
class Logger (m : Type → Type) where
  /-- Makes the log ready. -/
  prepare : Log → m (Except Fault Unit)
  /-- Adds an entry. -/
  write : Log → Severity → String → m Unit

/-- A log that can be kept can be kept with a state beside it. -/
instance {m : Type → Type} {σ : Type} [Monad m] [Logger m] :
    Logger (StateT σ m) where
  prepare log := StateT.lift (Logger.prepare log)
  write log s message := StateT.lift (Logger.write log s message)

namespace Log

/-- The verbosity at which a log has no file. -/
def silence : Int := -4

/-- Whether a log has a file. -/
def hasFile (log : Log) : Bool := log.path ≠ "" && silence < log.verbosity

/-- Whether entries are told. -/
def tells (log : Log) (s : Severity) : Bool :=
  log.hasFile && s.threshold ≤ log.verbosity

/-- An entry as a line. -/
def line (s : Severity) (message : String) : String :=
  s.label ++ " " ++ message ++ "\n"

section

variable {m : Type → Type} [Monad m] [Host m]

/-- Makes the file of a log, if it is to have one and does not have it. -/
def prepare (log : Log) : m (Except Fault Unit) := do
  if log.hasFile then
    let failed (c : Cause) : Fault :=
      .failed ["log file error", "open " ++ log.path] c
    match ← Host.find log.path with
    | .missing =>
      match ← Host.store log.path [] with
      | .ok _ => return .ok ()
      | .error c => return .error (failed c)
    | .file _ => return .ok ()
    | .directory => return .error (failed (.other "is a directory"))
    | .unavailable reason => return .error (failed (.other reason))
  else return .ok ()

/-- Adds an entry to the file of a log, if entries of its kind are told. -/
def write (log : Log) (s : Severity) (message : String) : m Unit := do
  if log.tells s then
    match ← Host.find log.path with
    | .file bytes =>
      let _ ← Host.store log.path (bytes ++ Text.utf8 (line s message))
    | _ => return

/-- Keeps a log in its file. -/
abbrev inFile : Logger m where
  prepare := prepare
  write := write

end

end Log

end Bytecode
