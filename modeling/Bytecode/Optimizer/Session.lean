import Bytecode.Editor
import Bytecode.Policy

/-!
# The state of an optimiser run

A session lives as long as one run.  It knows how far each method has come, the
counts so far and the decisions of the inlining policy; `σ` is room for whoever
watches the run or adds rules of its own.  A visit is a session together with
the editor of the body being visited, so a nested visit leaves the outer editor
alone.
-/

namespace Bytecode

/-- How far a method has come in a run. -/
inductive Progress where
  | notVisited
  | inProgress
  | done
  deriving DecidableEq, Repr

namespace Progress

/-- The name of a stage. -/
def name : Progress → String
  | .notVisited => "not-visited"
  | .inProgress => "in-progress"
  | .done => "done"

/-- The name of the stage with a given number. -/
def nameOfNumber (n : UInt8) : String :=
  if n = 0 then name .notVisited
  else if n = 1 then name .inProgress
  else if n = 2 then name .done
  else "unknown"

end Progress

/-- Counts by name. -/
abbrev Tally := List (String × Nat)

namespace Tally

/-- One more under `name`. -/
def bump (t : Tally) (name : String) : Tally :=
  match t with
  | [] => [(name, 1)]
  | (k, n) :: rest =>
      if k = name then (k, n + 1) :: rest else (k, n) :: bump rest name

/-- The count under `name`. -/
def count (t : Tally) (name : String) : Nat := (t.lookup name).getD 0

/-- The counts in ascending order of their names. -/
def sorted (t : Tally) : Tally := t.mergeSort fun a b => a.1 ≤ b.1

end Tally

/-- What a run has done so far. -/
structure Stats where
  /-- Bodies scanned to the end. -/
  methods : Nat := 0
  /-- Calls replaced by the body of their callee. -/
  inlined : Nat := 0
  /-- Calls left alone because the budget of their method was used up. -/
  refused : Nat := 0
  /-- Instructions when the run began. -/
  before : Nat := 0
  /-- Instructions when the run ended. -/
  after : Nat := 0
  /-- Changes by rule. -/
  fired : Tally := []
  deriving DecidableEq

/-- The state of a run. -/
structure Session (σ : Type) where
  program : Program
  /-- Stages of methods, the latest entry first. -/
  progress : List (MethodId × Progress) := []
  memo : Memo Recent := .ofCapacity 1
  stats : Stats := {}
  client : σ

/-- A session with an editor at work. -/
structure Visit (σ : Type) where
  session : Session σ
  editor : Editor

/-- A computation in a session. -/
abbrev SessionM (σ : Type) := ExceptT Fault (StateM (Session σ))

/-- A computation in a visit. -/
abbrev VisitM (σ : Type) := ExceptT Fault (StateM (Visit σ))

namespace Session

variable {σ : Type}

/-- How far `m` has come. -/
def progressOf (s : Session σ) (m : MethodId) : Progress :=
  (s.progress.lookup m).getD .notVisited

/-- Notes how far `m` has come. -/
def setProgress (s : Session σ) (m : MethodId) (x : Progress) : Session σ :=
  { s with progress := (m, x) :: s.progress }

/-- Changes the counts. -/
def count (s : Session σ) (f : Stats → Stats) : Session σ :=
  { s with stats := f s.stats }

end Session

namespace Visit

variable {σ : Type}

/-- The program and the editor. -/
def editing (v : Visit σ) : Editing := ⟨v.session.program, v.editor⟩

/-- Puts a changed program and editor back. -/
def setEditing (v : Visit σ) (s : Editing) : Visit σ :=
  ⟨{ v.session with program := s.program }, s.editor⟩

/-- An edit as a step of a visit. -/
def edit {α : Type} (f : Editing → α × Editing) : VisitM σ α := fun v =>
  let (a, s) := f v.editing
  (.ok a, v.setEditing s)

/-- An edit that may fail as a step of a visit. -/
def tryEdit {α : Type} (f : Editing → Except Fault α × Editing) :
    VisitM σ α := fun v =>
  let (a, s) := f v.editing
  (a, v.setEditing s)

/-- A step of the session as a step of a visit. -/
def inSession {α : Type} (x : SessionM σ α) : VisitM σ α := fun v =>
  let (a, s) := x v.session
  (a, { v with session := s })

end Visit

end Bytecode
