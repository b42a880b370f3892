import Bytecode.Fault
import Bytecode.Path
import Bytecode.Text.Stray

/-!
# A tree of files

Files and directories by the components of their paths, the root being a
directory that is always there.  A path is followed component by component, and
everything on the way must be a directory, also in front of `.` and `..`.
-/

namespace Bytecode

/-- A place in the tree, outermost component first. -/
abbrev Place := List String

/-- What stands at a place. -/
inductive Node where
  | directory
  | file (bytes : List UInt8)
  deriving DecidableEq

/-- Files and directories below the root, the latest change first. -/
structure FileTree where
  nodes : List (Place × Node) := []

namespace FileTree

/-- The cause of asking for something inside a file. -/
def notADirectory : Cause := .other "not a directory"

/-- The cause of treating a directory as a file. -/
def isADirectory : Cause := .other "is a directory"

/-- What stands at a place. -/
def node? (t : FileTree) (p : Place) : Option Node :=
  if p.isEmpty then some .directory else t.nodes.lookup p

/-- Puts a node at a place. -/
def put (t : FileTree) (p : Place) (n : Node) : FileTree :=
  ⟨(p, n) :: t.nodes.filter fun e => e.1 ≠ p⟩

/-- The files below a place, by their paths from there. -/
def filesBelow (t : FileTree) (p : Place) : List (String × List UInt8) :=
  t.nodes.filterMap fun
    | (q, .file bytes) =>
      if p.isPrefixOf q then
        some (String.intercalate "/" (q.drop p.length), bytes)
      else none
    | (_, .directory) => none

/-- The longest name a component may have, in bytes. -/
def maxName : Nat := 255

/-- The longest path, in bytes. -/
def maxPath : Nat := 4095

/-- The cause of a name or a path that is too long. -/
def tooLong : Cause := .other "file name too long"

/-- Follows components from a place.  The last one need not exist. -/
def follow (t : FileTree) (here : Place) : List String → Except Cause Place
  | [] => .ok here
  | c :: rest =>
    match t.node? here with
    | none => .error .noSuchFile
    | some (.file _) => .error notADirectory
    | some .directory =>
      if c = "" || c = "." then t.follow here rest
      else if c = ".." then t.follow here.dropLast rest
      else if maxName < Text.size c then .error tooLong
      else t.follow (here ++ [c]) rest

/-- The place a path leads to from the directory `cwd`. -/
def locate (t : FileTree) (cwd : Place) (path : String) : Except Cause Place :=
  if path.toList.contains (Char.ofNat 0) then .error (.other "invalid argument")
  else if path = "" then .error .noSuchFile
  else if maxPath < Text.size path then .error tooLong
  else
    t.follow (if Path.isAbsolute path then [] else cwd) (Path.components path)

/-- Writes a file. -/
def store (t : FileTree) (cwd : Place) (path : String) (bytes : List UInt8) :
    Except Cause FileTree := do
  let p ← t.locate cwd path
  match t.node? p with
  | some .directory => throw isADirectory
  | _ => return t.put p (.file bytes)

/-- Takes a file away, if there is one. -/
def remove (t : FileTree) (cwd : Place) (path : String) : FileTree :=
  match t.locate cwd path with
  | .error _ => t
  | .ok p =>
    match t.node? p with
    | some (.file _) => ⟨t.nodes.filter fun e => e.1 ≠ p⟩
    | _ => t

/-- The paths that lead to a path, outermost first: each ends in front of a
slash, and the last is the path itself. -/
def stations (path : String) : List String :=
  let cs := Path.components path
  let ends := (List.range cs.length).filter fun n => cs[n]?.any (· ≠ "")
  ends.map fun n => String.intercalate "/" (cs.take (n + 1))

/-- Makes a directory unless it is there. -/
def ensureDirectory (t : FileTree) (cwd : Place) (path : String) :
    Except Fault FileTree :=
  let refuse (c : Cause) : Except Fault FileTree :=
    .error (.failed ["mkdir " ++ path] c)
  match t.locate cwd path with
  | .error c => refuse c
  | .ok p =>
    match t.node? p with
    | some .directory => .ok t
    | some (.file _) => refuse notADirectory
    | none => .ok (t.put p .directory)

/-- Makes a directory with all the directories that lead to it. -/
def makeDirectories (t : FileTree) (cwd : Place) (path : String) :
    Except Fault FileTree :=
  (stations path).foldlM (fun t s => t.ensureDirectory cwd s) t

end FileTree

end Bytecode
