import Bytecode.Fault
import Bytecode.Instant

/-!
# What commands need

Commands read and write files, print, and ask for the time and for fresh names.
They are written over any monad that can do this, so the same command runs on a
real system and on a `Workspace` in memory.
-/

namespace Bytecode

/-- What is found at a path. -/
inductive Found where
  | file (bytes : List UInt8)
  | directory
  | missing
  /-- Something is there or in the way, but it cannot be looked at. -/
  | unavailable (reason : String)

/-- A monad in which commands can run. -/
class Host (m : Type → Type) where
  workingDirectory : m String
  find : String → m Found
  /-- Writes a file, in place of the one that is there. -/
  store : String → List UInt8 → m (Except Cause Unit)
  /-- Takes a file away, if there is one. -/
  remove : String → m Unit
  /-- Makes a directory with all the directories that lead to it. -/
  makeDirectories : String → m (Except Fault Unit)
  print : String → m Unit
  now : m Instant
  /-- A name that has not been given out before. -/
  freshName : m String

/-- What can run on a host can run on it with a state beside it. -/
instance {m : Type → Type} {σ : Type} [Monad m] [Host m] :
    Host (StateT σ m) where
  workingDirectory := StateT.lift Host.workingDirectory
  find path := StateT.lift (Host.find path)
  store path bytes := StateT.lift (Host.store path bytes)
  remove path := StateT.lift (Host.remove path)
  makeDirectories path := StateT.lift (Host.makeDirectories path)
  print s := StateT.lift (Host.print s)
  now := StateT.lift Host.now
  freshName := StateT.lift Host.freshName

end Bytecode
