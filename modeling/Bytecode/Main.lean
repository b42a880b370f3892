import Std.Time.DateTime.Timestamp
import Bytecode.Command
import Bytecode.FileTree

/-!
# The command line program

The commands on the real file system.  This is the only module with effects.
-/

namespace Bytecode.Main

/-- What the system says about an error, without the place. -/
def reason : IO.Error → String
  | .permissionDenied .. => "permission denied"
  | .inappropriateType .. => "not a directory"
  | .alreadyExists .. => "file exists"
  | e => toString e

/-- The cause that an error of the system is. -/
def cause : IO.Error → Cause
  | .noFileOrDirectory .. => .noSuchFile
  | e => .other (reason e)

/-- What is found at a path. -/
def find (path : String) : IO Found := do
  let full := (← IO.currentDir) / path
  if ← full.isDir then return .directory
  try
    return .file (← IO.FS.readBinFile full).toList
  catch
    | .noFileOrDirectory .. => return .missing
    | e => return .unavailable (reason e)

/-- Writes a file. -/
def store (path : String) (bytes : List UInt8) : IO (Except Cause Unit) := do
  let full := (← IO.currentDir) / path
  if ← full.isDir then return .error FileTree.isADirectory
  try
    IO.FS.writeBinFile full ⟨bytes.toArray⟩
    return .ok ()
  catch e => return .error (cause e)

/-- Takes a file away, if there is one. -/
def remove (path : String) : IO Unit := do
  try IO.FS.removeFile ((← IO.currentDir) / path) catch _ => pure ()

/-- Makes a directory unless it is there. -/
def ensureDirectory (path : String) : IO (Except Fault Unit) := do
  let full := (← IO.currentDir) / path
  if ← full.isDir then return .ok ()
  if ← full.pathExists then
    return .error (.failed ["mkdir " ++ path] FileTree.notADirectory)
  try
    IO.FS.createDir full
    return .ok ()
  catch e => return .error (.failed ["mkdir " ++ path] (cause e))

/-- Makes a directory with all the directories that lead to it. -/
def makeDirectories (path : String) : IO (Except Fault Unit) :=
  ((FileTree.stations path).forM fun s => ExceptT.mk (ensureDirectory s)).run

/-- The time. -/
def now : IO Instant := do
  return (← Std.Time.Timestamp.now).toNanosecondsSinceUnixEpoch.val

/-- Sixteen bytes as a random identifier: groups of digits, with the version and
the variant in their places. -/
def identifier (bytes : List UInt8) : String :=
  let marked := bytes.zipIdx.map fun (b, n) =>
    if n = 6 then b &&& 0x0f ||| 0x40
    else if n = 8 then b &&& 0x3f ||| 0x80 else b
  let group (start count : Nat) : String :=
    Text.hexBytes ((marked.drop start).take count)
  String.intercalate "-" [group 0 4, group 4 2, group 6 2, group 8 2,
    group 10 6]

instance : Host IO where
  workingDirectory := do return (← IO.currentDir).toString
  find := find
  store := store
  remove := remove
  makeDirectories := makeDirectories
  print := fun s => IO.print s
  now := now
  freshName := do return identifier (← IO.getRandomBytes 16).toList

instance : Logger IO := Log.inFile

/-- Whether output is coloured: on a terminal, unless the environment asks for
plain text. -/
def wantsColor : IO Bool := do
  let plain :=
    (← IO.getEnv "NO_COLOR").any (· ≠ "") || (← IO.getEnv "TERM") == some "dumb"
  return !plain && (← (← IO.getStdout).isTty)

end Bytecode.Main

/-- Runs a command; the result is the exit code. -/
def main (args : List String) : IO UInt32 := do
  let color ← Bytecode.Main.wantsColor
  match ←
    (Bytecode.Command.run color args : ExceptT Bytecode.Fault IO Unit).run with
  | .ok _ => return 0
  | .error (.failed _ (.exit code text)) =>
    IO.eprintln text
    return code.toUInt32
  | .error f =>
    IO.eprintln ("Error: " ++ f.message)
    return 1
