import Bytecode.Bytes
import Bytecode.Optimizer.Pass

/-!
# The optimiser

A method is optimised by scanning its body again and again until a whole scan
changes nothing.  Each instruction is offered to the rules in order; the first
one that changes something ends the offer, and the scan steps back to the
instruction in front of the change.  A method is visited once in a run, and the
rules may have other methods visited first.

The recursion is bounded by fuel: a run that needs more ends with `outOfFuel`.
-/

namespace Bytecode

/-- What someone watching a visit is told. -/
inductive Event where
  /-- The target is about to be offered to the rules. -/
  | offered
  /-- A rule has been applied; the change flag tells whether it fired. -/
  | applied (rule : String)
  /-- The visit is over. -/
  | left
  deriving DecidableEq

/-- The rules in order, and what a watcher makes of the events. -/
structure Optimizer (σ : Type) where
  rules : List (Rule σ)
  watch : Event → Visit σ → σ := fun _ v => v.session.client

namespace Optimizer

variable {σ : Type}

/-- An optimiser that applies built-in passes. -/
def ofPasses (cfg : InlineSettings) (passes : List Pass) : Optimizer σ :=
  { rules := passes.map (Pass.rule cfg) }

/-- Tells the watcher of an event. -/
def notify (o : Optimizer σ) (e : Event) : VisitM σ Unit := modify fun v =>
  { v with session := { v.session with client := o.watch e v } }

/-- Applies a rule to the target; a failure is reported with the rule and the
target as it stands then. -/
def applyRule (o : Optimizer σ) (optimize : Option MethodId → SessionM σ Unit)
    (r : Rule σ) : VisitM σ Unit := fun v =>
  let target := v.editor.target
  let (result, v) := r.apply optimize v
  let (_, v) := o.notify (.applied r.name) v
  let circumstance := r.name ++ " at " ++ v.session.program.textOrNil target
  (result.mapError (Fault.within circumstance), v)

/-- Offers the target to rules until one of them changes something. -/
def offerTo (o : Optimizer σ) (optimize : Option MethodId → SessionM σ Unit) :
    List (Rule σ) → VisitM σ Bool
  | [] => return false
  | r :: rest => do
    o.applyRule optimize r
    if (← get).editor.dirty then
      modify fun v => { v with
        editor := { v.editor with dirty := false }
        session :=
          v.session.count fun t => { t with fired := t.fired.bump r.name } }
      return true
    else
      offerTo o optimize rest

/-- Offers the target to the rules. -/
def offer (o : Optimizer σ) (optimize : Option MethodId → SessionM σ Unit) :
    VisitM σ Bool := do
  o.notify .offered
  o.offerTo optimize o.rules

/-- Scans the body until a whole scan changes nothing; `changed` tells whether
the current one has changed something. -/
def scan (o : Optimizer σ) (optimize : Option MethodId → SessionM σ Unit) :
    Nat → Bool → VisitM σ Unit
  | 0, _ => throw .outOfFuel
  | fuel + 1, changed => do
    if ← Visit.edit Editing.advance then
      if ← o.offer optimize then
        Visit.edit fun s => ((), s.rewind)
        scan o optimize fuel true
      else
        scan o optimize fuel changed
    else if changed then
      Visit.edit fun s => ((), s.reset)
      scan o optimize fuel false

/-- Visits the body `b` of method `m` with an editor of its own. -/
def visit (o : Optimizer σ) (optimize : Option MethodId → SessionM σ Unit)
    (fuel : Nat) (m : MethodId) (b : BodyId) : SessionM σ Unit := fun s =>
  let (result, v) := o.scan optimize fuel false ⟨s, { method := m, body := b }⟩
  let (_, v) := o.notify .left v
  let circumstance := "optimize " ++ (v.session.program.method m).fullName
  (result.mapError (Fault.within circumstance), v.session)

/-- Optimises a method unless it has been visited before in this run. -/
def optimize (o : Optimizer σ) : Nat → Option MethodId → SessionM σ Unit
  | 0, _ => throw .outOfFuel
  | _ + 1, none => throw (.failed ["optimize nil method"] .invalidArgument)
  | fuel + 1, some m => do
    unless (← get).progressOf m = .notVisited do return
    modify fun s => s.setProgress m .inProgress
    let p := (← get).program
    match (p.method m).body with
    | none => modify fun s => s.setProgress m .done
    | some b =>
      if p.size b = 0 then modify fun s => s.setProgress m .done
      else
        o.visit (o.optimize fuel) fuel m b
        modify fun s => (s.setProgress m .done).count fun t =>
          { t with methods := t.methods + 1 }

/-- Optimises the given methods in order and counts instructions before and
after. -/
def run (o : Optimizer σ) (fuel : Nat) (ms : List MethodId) :
    SessionM σ Unit := do
  modify fun s => s.count fun t =>
    { t with before := t.before + s.program.instrCount ms }
  ms.forM fun m => o.optimize fuel (some m)
  modify fun s => s.count fun t =>
    { t with after := t.after + s.program.instrCount ms }

/-- Enough fuel for every run that ends in a lifetime. -/
def ampleFuel : Nat := Word.size64

end Optimizer

end Bytecode
