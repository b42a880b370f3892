import Bytecode.BranchIndex
import Bytecode.Program.Edit

/-!
# Editing a body under a moving cursor

An editor belongs to one body and one scan over it.  It holds the cursor of the
scan, the branch index, which is built when it is first needed, and a flag that
tells whether anything was changed.  The edits keep three things together:
branches follow the instructions they target, the index agrees with the
operands, and the cursor stays on instructions of the body.

An edit that fails leaves program and cursor as they were; only the index may
have been built on the way.
-/

namespace Bytecode

/-- A scan over one body: cursor, branch index and change flag. -/
structure Editor where
  method : MethodId
  body : BodyId
  /-- The branch index, once it has been needed. -/
  index : Option BranchIndex := none
  /-- The last instruction handed out. -/
  pos : Option InstrId := none
  /-- The instruction on offer. -/
  target : Option InstrId := none
  /-- What stood in front of the target when it was offered. -/
  anchor : Option InstrId := none
  /-- What stood behind the target when it was deleted. -/
  successor : Option InstrId := none
  /-- Whether anything was changed since the flag was last taken. -/
  dirty : Bool := false
  /-- How many calls were inlined through this editor. -/
  inlined : Nat := 0
  deriving DecidableEq

/-- A program together with the editor at work on it. -/
structure Editing where
  program : Program
  editor : Editor
  deriving DecidableEq

namespace Editing

/-- The branch index, built if there is none, and the state that has it. -/
def withIndex (s : Editing) : BranchIndex × Editing :=
  match s.editor.index with
  | some x => (x, s)
  | none =>
    let x := BranchIndex.build s.program s.editor.body
    (x, { s with editor := { s.editor with index := some x } })

/-- Stores index and program. -/
def store (s : Editing) (x : BranchIndex) (p : Program) : Editing :=
  ⟨p, { s.editor with index := some x }⟩

/-- Notes a change. -/
def touch (s : Editing) : Editing :=
  { s with editor := { s.editor with dirty := true } }

/-- The instruction if it is in the body under edit. -/
def own? (s : Editing) (i : Option InstrId) : Option InstrId :=
  i.filter fun i => s.program.contains s.editor.body i

/-! ### The cursor -/

/-- Puts the cursor in front of the body. -/
def reset (s : Editing) : Editing :=
  { s with editor := { s.editor with
             pos := none, target := none, anchor := none, successor := none } }

/-- Moves on to the next instruction and offers it. -/
def advance (s : Editing) : Bool × Editing :=
  let next := match s.editor.pos with
    | none => s.program.first? s.editor.body
    | some i => s.program.next i
  let anchor := match next with
    | some i => s.program.prev i
    | none => s.editor.anchor
  (next.isSome, { s with editor := { s.editor with
    pos := next, target := next, successor := none, anchor } })

/-- Steps back so that the scan next offers the instruction in front of the last
change. -/
def rewind (s : Editing) : Editing :=
  { s with editor := { s.editor with
    pos := s.editor.anchor.bind s.program.prev, target := none } }

/-- Takes the cursor off `i`, which is about to leave the body. -/
def forget (s : Editing) (i : InstrId) : Editing :=
  let e := s.editor
  { s with editor := { e with
    anchor := if e.anchor = some i then s.program.prev i else e.anchor
    pos := if e.pos = some i then s.program.prev i else e.pos
    successor := if e.target = some i then s.program.next i else e.successor } }

/-- Moves the cursor from `old` to its replacement. -/
def substitute (s : Editing) (old new : InstrId) : Editing :=
  let move (x : Option InstrId) := if x = some old then some new else x
  let e := s.editor
  { s with editor := { e with
    anchor := move e.anchor, pos := move e.pos, target := move e.target } }

/-- The instruction behind the target, as the code stands now. -/
def nextInstruction (s : Editing) : Option InstrId :=
  match s.editor.target with
  | none => none
  | some t => if (s.program.owner t).isSome then s.program.next t else
      s.editor.successor

/-! ### Edits -/

/-- Declares a further local slot. -/
def addLocal (s : Editing) (type name : String) : Local × Editing :=
  let (l, p) := s.program.addLocal s.editor.body type name
  (l, { s with program := p }.touch)

/-- A fresh unlinked instruction. -/
def newInstr (s : Editing) (op : Opcode) (operand : Operand) :
    InstrId × Editing :=
  let (i, p) := s.program.newInstr op operand
  (i, { s with program := p })

/-- An unlinked copy of `i`; a copied branch keeps its target. -/
def copyInstr (s : Editing) (i : InstrId) : InstrId × Editing :=
  let x := s.program.instr i
  s.newInstr x.op x.operand

/-- Whether deleting `i` leaves every branch a place to go. -/
def canDelete (s : Editing) (i : InstrId) : Bool × Editing :=
  if (s.program.next i).isSome then (true, s)
  else
    let (x, s) := s.withIndex
    (!x.isTarget (some i), s)

/-- Takes a branch out of the index; other instructions are not in it. -/
def unfile (s : Editing) (x : BranchIndex) (i : InstrId) :
    Except Fault BranchIndex :=
  if (s.program.instr i).isBranch then x.remove s.program (some i) else .ok x

/-- Deletes an instruction.  Branches to it go on to its successor. -/
def delete (s : Editing) (i : Option InstrId) : Except Fault Unit × Editing :=
  if s.editor.target.isNone then (.error (.failed ["delete"] .noContext), s)
  else match s.own? i with
    | none => (.error
        (.failed ["delete " ++ s.program.textOrNil i] .invalidArgument), s)
    | some i =>
      let (x, s) := s.withIndex
      let next := s.program.next i
      if next.isNone && x.isTarget (some i) then
        (.error (.failed ["delete " ++ s.program.text i ++ " in " ++
          (s.program.method s.editor.method).fullName] .noFallthrough), s)
      else match s.unfile x i with
        | .error e => (.error e, s)
        | .ok x =>
          let (_, x, p) := match next with
            | some n => x.retarget s.program (some i) (some n)
            | none => (0, x, s.program)
          let s := (s.store x p).forget i
          match s.program.remove s.editor.body (some i) with
          | .error m => (.error (.misuse m), s)
          | .ok p => (.ok (), { s with program := p }.touch)

/-- Puts `new` in the place of `old`.  Branches to `old` go to `new`. -/
def replace (s : Editing) (old new : Option InstrId) :
    Except Fault Unit × Editing :=
  if s.editor.target.isNone then (.error (.failed ["replace"] .noContext), s)
  else match s.own? old with
    | none => (.error
        (.failed ["replace " ++ s.program.textOrNil old] .invalidArgument), s)
    | some i =>
      let free := new.filter fun j =>
        (s.program.owner j).isNone &&
          !((s.program.instr j).isBranch && s.program.target? j = some i)
      match free with
      | none => (.error (.failed
          ["replacement " ++ s.program.textOrNil new] .invalidArgument), s)
      | some j =>
        let (x, s) := s.withIndex
        match s.unfile x i with
        | .error e => (.error e, s)
        | .ok x =>
          match s.program.replace s.editor.body (some i) (some j) with
          | .error m => (.error (.misuse m), s)
          | .ok p =>
            let (_, x, p) := x.retarget p (some i) (some j)
            let x := if (p.instr j).isBranch then x.insert p j else x
            (.ok (), ((s.store x p).substitute i j).touch)

/-- Links `new` in front of `mark`, or at the end of the body when there is no
mark. -/
def insertBefore (s : Editing) (mark new : Option InstrId) :
    Except Fault Unit × Editing :=
  match new.filter fun j => (s.program.owner j).isNone with
  | none => (.error
      (.failed ["insert " ++ s.program.textOrNil new] .invalidArgument), s)
  | some j =>
    if mark.isSome && (s.own? mark).isNone then
      (.error (.failed
        ["insert before " ++ s.program.textOrNil mark] .invalidArgument), s)
    else
      let (x, s) := s.withIndex
      match s.program.insertBefore s.editor.body mark (some j) with
      | .error m => (.error (.misuse m), s)
      | .ok p =>
        let x := if (p.instr j).isBranch then x.insert p j else x
        (.ok (), (s.store x p).touch)

/-- Points every branch of the body that targets `old` at `new`, and counts
them. -/
def retargetAll (s : Editing) (old new : Option InstrId) : Nat × Editing :=
  let (x, s) := s.withIndex
  let (n, x, p) := x.retarget s.program old new
  let s := s.store x p
  (n, if n > 0 then s.touch else s)

/-- Points a single branch at `t`. -/
def retarget (s : Editing) (i t : Option InstrId) :
    Except Fault Unit × Editing :=
  match s.own? i with
  | none => (.error
      (.failed ["retarget " ++ s.program.textOrNil i] .invalidArgument), s)
  | some j =>
    let (x, s) := s.withIndex
    match x.remove s.program (some j) with
    | .error e => (.error e, s)
    | .ok x =>
      let p := s.program.setTarget j t
      (.ok (), (s.store (x.insert p j) p).touch)

/-! ### Queries -/

/-- The instructions from which control can pass to `t`: the branches to it, and
its predecessor when that falls through.  A conditional branch to the very next
instruction counts once. -/
def sourcesOf (s : Editing) (t : InstrId) : List InstrId × Editing :=
  let (x, s) := s.withIndex
  let branches := x.sources (some t)
  let extra := (s.program.prev t).filter fun i =>
    let y := s.program.instr i
    y.fallsThrough && !(y.kind = .conditionalBranch && y.target? = some t)
  (branches ++ extra.toList, s)

end Editing

end Bytecode
