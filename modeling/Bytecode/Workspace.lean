import Bytecode.FileTree
import Bytecode.Host
import Bytecode.Log
import Bytecode.Text.Digits

/-!
# Workspaces

A host in memory: a tree of files with a working directory, what has been
printed, and a clock that goes on by one nanosecond when it is read.
-/

namespace Bytecode

/-- A host in memory. -/
structure Workspace where
  files : FileTree := {}
  /-- The working directory. -/
  cwd : Place := []
  printed : String := ""
  clock : Instant := 0
  /-- How many fresh names have been given out. -/
  named : Nat := 0

namespace Workspace

/-- The working directory as a path. -/
def directory (w : Workspace) : String := "/" ++ String.intercalate "/" w.cwd

/-- What is found at a path. -/
def find (w : Workspace) (path : String) : Found :=
  match w.files.locate w.cwd path with
  | .error .noSuchFile => .missing
  | .error c => .unavailable c.message
  | .ok p =>
    match w.files.node? p with
    | none => .missing
    | some .directory => .directory
    | some (.file bytes) => .file bytes

/-- A workspace with a file written. -/
def store (w : Workspace) (path : String) (bytes : List UInt8) :
    Except Cause Unit × Workspace :=
  match w.files.store w.cwd path bytes with
  | .ok files => (.ok (), { w with files })
  | .error c => (.error c, w)

/-- A workspace with directories made. -/
def makeDirectories (w : Workspace) (path : String) :
    Except Fault Unit × Workspace :=
  match w.files.makeDirectories w.cwd path with
  | .ok files => (.ok (), { w with files })
  | .error f => (.error f, w)

/-- The fresh name with a given number. -/
def freshName (n : Nat) : String := "run-" ++ Text.decimal 8 n

instance : Host (StateM Workspace) where
  workingDirectory w := (w.directory, w)
  find path w := (w.find path, w)
  store path bytes w := w.store path bytes
  remove path w := ((), { w with files := w.files.remove w.cwd path })
  makeDirectories path w := w.makeDirectories path
  print s w := ((), { w with printed := w.printed ++ s })
  now w := (w.clock, { w with clock := w.clock + 1 })
  freshName w := (freshName w.named, { w with named := w.named + 1 })

instance : Logger (StateM Workspace) := Log.inFile

end Workspace

end Bytecode
