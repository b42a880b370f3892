import Bytecode.Fault
import Bytecode.Program.Listing

/-!
# The branch index

The branches of a body, filed under the instruction they target.  A branch
without a target is filed as well.  Entries are lists in filing order and are
never empty; `sources` is the view through which the index is read.
-/

namespace Bytecode

/-- Branches filed under their target. -/
structure BranchIndex where
  entries : List (Option InstrId × List InstrId) := []
  deriving DecidableEq

namespace BranchIndex

/-- The branches filed under `t`, oldest first. -/
def sources (x : BranchIndex) (t : Option InstrId) : List InstrId :=
  (x.entries.lookup t).getD []

/-- Whether any branch is filed under `t`. -/
def isTarget (x : BranchIndex) (t : Option InstrId) : Bool :=
  !(x.sources t).isEmpty

/-- The number of distinct targets. -/
def size (x : BranchIndex) : Nat := x.entries.length

/-- Makes `list` the entry of `t`; an empty list leaves no entry. -/
def put (x : BranchIndex) (t : Option InstrId) (list : List InstrId) :
    BranchIndex :=
  let others := x.entries.filter fun e => e.1 ≠ t
  ⟨if list.isEmpty then others else others ++ [(t, list)]⟩

/-- Files a branch under its current target. -/
def insert (x : BranchIndex) (p : Program) (i : InstrId) : BranchIndex :=
  x.put (p.target? i) (x.sources (p.target? i) ++ [i])

/-- The index of all branches of a body. -/
def build (p : Program) (b : BodyId) : BranchIndex :=
  ((p.code b).filter fun i => (p.instr i).isBranch).foldl
    (fun x i => x.insert p i) {}

/-- The instruction if it is a branch. -/
def branch (p : Program) (action : String) :
    Option InstrId → Except Fault InstrId
  | some i =>
    if (p.instr i).isBranch then .ok i
    else .error (.failed [action ++ " " ++ p.text i] .notBranch)
  | none => .error (.failed [action ++ " " ++ missingText] .notBranch)

/-- Files a branch under its current target. -/
def add (x : BranchIndex) (p : Program) (i : Option InstrId) :
    Except Fault BranchIndex := do
  let i ← branch p "add" i
  return x.insert p i

/-- Drops one filing of a branch under its current target. -/
def remove (x : BranchIndex) (p : Program) (i : Option InstrId) :
    Except Fault BranchIndex := do
  let i ← branch p "remove" i
  let t := p.target? i
  if (x.sources t).contains i then
    return x.put t ((x.sources t).erase i)
  else
    throw (.failed ["remove " ++ p.text i] .notIndexed)

/-- Points every branch filed under `old` at `new` and files it there, behind
the branches that are filed there already.  The count of these branches comes
with the changed index and program. -/
def retarget (x : BranchIndex) (p : Program) (old new : Option InstrId) :
    Nat × BranchIndex × Program :=
  if old = new then (0, x, p)
  else
    let moved := x.sources old
    if moved.isEmpty then (0, x, p)
    else
      (moved.length, (x.put old []).put new (x.sources new ++ moved),
        moved.foldl (fun p i => p.setTarget i new) p)

end BranchIndex

end Bytecode
