import Bytecode.Assembly
import Bytecode.Optimizer.Session

/-!
# Inlining a call

A call becomes a nop, which keeps branches to the call in place, and copies of
the callee's instructions are linked in front of the instruction behind the
call.  Returns become branches to that instruction, a return at the very end is
left out, and local slots are moved behind the caller's own.
-/

namespace Bytecode

/-- What inlining needs to know besides the session. -/
structure InlineSettings where
  /-- How calls find their callee; without it nothing resolves. -/
  resolution : Option Resolution
  policy : Policy
  /-- How many calls may be inlined into one method; no limit unless
  positive. -/
  budget : Int := 0

/-- The method a call operand names. -/
def InlineSettings.resolve (cfg : InlineSettings) (ref : Option MethodRef) :
    Option MethodId :=
  cfg.resolution.bind fun t => t.resolve ref

namespace Inline

/-- Opcode and operand of the copy of `x` in a caller whose slots from `base` on
are the callee's.  `copies` pairs instructions already copied with their
copies. -/
def copyOf (s : Editing) (x : Instr) (base : Nat) (anchor : InstrId)
    (copies : List (InstrId × InstrId)) : Except Fault (Opcode × Operand) :=
  if x.kind = .ret then .ok (.br, .target anchor)
  else if x.isBranch then
    match x.target?.bind fun t => copies.lookup t with
    | some t => .ok (x.op, .target t)
    | none => .ok (x.op, x.operand)
  else
    let place := x.localIndex?.bind fun n =>
      (s.program.body s.editor.body).localAt? (base + n)
    match x.access?, place with
    | some access, some l =>
      match access.encode l with
      | some y => .ok y
      | none => .error .absent
    | _, _ => .ok (x.op, x.operand)

/-- Copies instructions in front of `anchor`.  Each copy takes over the branches
that still wait for the instruction it was made from; a return in last position
hands them to `anchor`. -/
def copyCode (base : Nat) (anchor : InstrId) : List InstrId →
    List (InstrId × InstrId) → Editing → Except Fault Unit × Editing
  | [], _, s => (.ok (), s)
  | i :: rest, copies, s =>
    let x := s.program.instr i
    if rest.isEmpty && x.kind = .ret then
      let (_, s) := s.retargetAll (some i) (some anchor)
      (.ok (), s)
    else match copyOf s x base anchor copies with
      | .error e => (.error e, s)
      | .ok (op, operand) =>
        let (j, s) := s.newInstr op operand
        match s.insertBefore (some anchor) (some j) with
        | (.error e, s) => (.error e, s)
        | (.ok _, s) =>
          let (_, s) := s.retargetAll (some i) (some j)
          copyCode base anchor rest ((i, j) :: copies) s

/-- Copies slots and code of a body in front of `anchor`.  Nothing is copied of
a body that is empty or returns at once. -/
def copyBody (callee : BodyId) (anchor : InstrId) (s : Editing) :
    Except Fault Unit × Editing :=
  let b := s.program.body callee
  let code := s.program.code callee
  match code with
  | [] => (.ok (), s)
  | i :: _ =>
    if s.program.size callee = 0 || (s.program.instr i).kind = .ret then
      (.ok (), s)
    else
      let base := (s.program.body s.editor.body).locals.size
      let s := b.locals.foldl (fun s l => (s.addLocal l.type l.name).2) s
      copyCode base anchor code [] s

/-- Replaces the call by a nop. -/
def replaceCall (call : InstrId) (s : Editing) : Except Fault Unit × Editing :=
  let (j, s) := s.newInstr .nop .absent
  s.replace (some call) (some j)

/-- Whether the body of `m` calls `m`. -/
def callsItself (cfg : InlineSettings) (p : Program) (m : MethodId)
    (b : BodyId) : Bool :=
  (p.code b).any fun i =>
    let x := p.instr i
    x.kind = .call && cfg.resolve x.operand.method? = some m

/-- The callee of the call on offer, if the call can be resolved and does not
lead back to the caller. -/
def callee? (cfg : InlineSettings) (s : Editing) (call : InstrId) :
    Option MethodId :=
  let x := s.program.instr call
  if x.kind = .call then
    (cfg.resolve x.operand.method?).filter fun m => m ≠ s.editor.method
  else none

variable {σ : Type}

/-- The decision of the policy, remembered or new. -/
def approves (cfg : InlineSettings) (m : MethodId) : VisitM σ Bool := fun v =>
  let s := v.session
  let (yes, memo) := s.memo.ask cfg.policy s.program (some m)
  (.ok yes, { v with session := { s with memo } })

/-- Whether the visited method may take in another callee. -/
def withinBudget (cfg : InlineSettings) (e : Editor) : Bool :=
  cfg.budget ≤ 0 || e.inlined < cfg.budget

/-- Counts an inlined call. -/
def note : VisitM σ Unit := modify fun v =>
  { v with
    editor := { v.editor with inlined := v.editor.inlined + 1 }
    session := v.session.count fun t => { t with inlined := t.inlined + 1 } }

/-- Counts a call that the budget does not allow for. -/
def noteRefusal : VisitM σ Unit := modify fun v =>
  { v with
    session := v.session.count fun t => { t with refused := t.refused + 1 } }

/-- Inlines the call on offer.  The callee is optimised first; one that is still
in progress, has no body or calls itself is left alone. -/
def apply (cfg : InlineSettings)
    (optimize : Option MethodId → SessionM σ Unit) : VisitM σ Unit := do
  let some call := (← get).editor.target | throw .absent
  let some m := callee? cfg (← get).editing call | return
  unless ← approves cfg m do return
  let some anchor := (← get).editing.nextInstruction | return
  unless withinBudget cfg (← get).editor do
    noteRefusal
    return
  Visit.inSession (optimize (some m))
  let v ← get
  if v.session.progressOf m = .inProgress then return
  let some b := (v.session.program.method m).body | return
  if callsItself cfg v.session.program m b then return
  Visit.tryEdit (replaceCall call)
  note
  Visit.tryEdit (copyBody b anchor)

end Inline

end Bytecode
