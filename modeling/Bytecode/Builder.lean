import Bytecode.Fault
import Bytecode.Program.Edit

/-!
# Building bodies

A builder appends instructions to one body.  Branches may name a label before
it is placed: marking a label binds it to the next instruction emitted, and
every branch that waits for the label is pointed there at that moment.
-/

namespace Bytecode

/-- The identity of a label. -/
structure LabelId where
  index : Nat
  deriving DecidableEq, Repr

/-- A place in the code that branches can name before it exists. -/
structure Label where
  /-- The instruction the label is bound to. -/
  target : Option InstrId := none
  /-- Branches that wait for the label to be bound, oldest first. -/
  waiting : List InstrId := []
  marked : Bool := false
  deriving Inhabited

/-- A body under construction. -/
structure Builder where
  program : Program
  body : BodyId
  labels : Array Label := #[]
  /-- Marked labels that wait for the next instruction, oldest first. -/
  pending : List LabelId := []

namespace Builder

/-- Binds one label to `i` and points its waiting branches there. -/
def bind (i : InstrId) (b : Builder) (l : LabelId) : Builder :=
  let waiting := ((b.labels[l.index]?).map (·.waiting)).getD []
  { b with
    program := waiting.foldl (fun p w => p.setTarget w (some i)) b.program
    labels := b.labels.modify l.index fun x =>
      { x with target := some i, waiting := [] } }

/-- Binds every pending label to `i`. -/
def bindPending (b : Builder) (i : InstrId) : Builder :=
  { b.pending.foldl (bind i) b with pending := [] }

/-- Appends an instruction. -/
def emit (b : Builder) (op : Opcode) (operand : Operand) : InstrId × Builder :=
  let (i, p) := b.program.newInstr op operand
  let p := p.link b.body i ((p.body b.body).code ++ [i])
  (i, { b with program := p }.bindPending i)

/-- Appends a call of `m`, dispatched if the method is virtual. -/
def emitCall (b : Builder) (m : Method) : InstrId × Builder :=
  b.emit (if m.isVirtual then .callvirt else .call) (.method m.ref)

/-- Appends a branch to an instruction that is already there. -/
def emitBranchTo (b : Builder) (op : Opcode) (t : Option InstrId) :
    Except Fault (InstrId × Builder) :=
  if op.isBranch then .ok (b.emit op (.ofTarget t))
  else .error (.misuse (.notABranch op.name))

/-- Declares a local slot without a name. -/
def declareLocal (b : Builder) (type : String) : Local × Builder :=
  let (l, p) := b.program.addLocal b.body type ""
  (l, { b with program := p })

/-- A fresh label. -/
def newLabel (b : Builder) : LabelId × Builder :=
  (⟨b.labels.size⟩, { b with labels := b.labels.push {} })

/-- Places a label in front of the next instruction. -/
def mark (b : Builder) (l : LabelId) : Except Fault Builder :=
  match b.labels[l.index]? with
  | none => .error .absent
  | some x =>
    if x.marked then .error (.misuse .labelMarkedTwice)
    else .ok { b with
      labels := b.labels.modify l.index fun x => { x with marked := true }
      pending := b.pending ++ [l] }

/-- Appends a branch to a label, which need not be placed yet. -/
def emitBranch (b : Builder) (op : Opcode) (l : LabelId) :
    Except Fault (InstrId × Builder) :=
  if !op.isBranch then .error (.misuse (.notABranch op.name))
  else match b.labels[l.index]? with
    | none => .error .absent
    | some x =>
      let (i, p) := b.program.newInstr op (.ofTarget x.target)
      let labels :=
        if x.target.isNone then
          b.labels.modify l.index fun x =>
            { x with waiting := x.waiting ++ [i] }
        else b.labels
      let p := p.link b.body i ((p.body b.body).code ++ [i])
      .ok (i, { b with program := p, labels }.bindPending i)

/-- The position of the first label that is not bound. -/
def unbound? (b : Builder) : Nat → List LabelId → Except Fault (Option Nat)
  | _, [] => .ok none
  | n, l :: rest =>
    match b.labels[l.index]? with
    | none => .error .absent
    | some x =>
        if x.target.isNone then .ok (some n) else b.unbound? (n + 1) rest

/-- Checks that no mark is left without an instruction and that the given
labels are bound. -/
def finish (b : Builder) (labels : List LabelId) : Except Fault Unit :=
  if b.pending.length > 0 then
    .error (.text ("il: " ++ Text.decimal 1 b.pending.length ++
      " label(s) marked at end of body"))
  else do
    match ← b.unbound? 0 labels with
    | some n =>
        .error (.text ("il: label " ++ Text.decimal 1 n ++ " never marked"))
    | none => .ok ()

end Builder

end Bytecode
