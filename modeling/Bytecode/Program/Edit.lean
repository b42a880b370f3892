import Bytecode.Fault
import Bytecode.Program

/-!
# Editing bodies

Insertion, removal and replacement of single instructions.  The primitives keep
the code list of a body and the owner of each instruction in step and know
nothing of branch operands.  A call that is refused changes nothing.
-/

namespace Bytecode

namespace Chain

/-- Links `i` at the end of a body; what it has behind it stays there. -/
def append (c : Chain) (b : BodyId) (i : InstrId) : Chain :=
  let last := c.lasts.lookup b
  let c := c.setPrev i last
  let c := match last with
    | some l => c.setNext l (some i)
    | none => c.setFirst b (some i)
  (c.setLast b (some i)).setSize b (c.size b + 1)

/-- Links `i` in front of `mark`. -/
def insertBefore (c : Chain) (b : BodyId) (mark i : InstrId) : Chain :=
  let c := (c.setPrev i (c.before.lookup mark)).setNext i (some mark)
  let c := match c.before.lookup mark with
    | some k => c.setNext k (some i)
    | none => c.setFirst b (some i)
  (c.setPrev mark (some i)).setSize b (c.size b + 1)

/-- Takes `i` out of a body. -/
def remove (c : Chain) (b : BodyId) (i : InstrId) : Chain :=
  let next := c.after.lookup i
  let c := match c.before.lookup i with
    | some k => c.setNext k next
    | none => c.setFirst b next
  let prev := c.before.lookup i
  let c := match c.after.lookup i with
    | some k => c.setPrev k prev
    | none => c.setLast b prev
  ((c.setPrev i none).setNext i none).setSize b (c.size b - 1)

end Chain

namespace Program

/-- The instruction `i` if it is free to be linked somewhere. -/
def unlinked (p : Program) : Option InstrId → Except Misuse InstrId
  | none => .error .missingInstruction
  | some i => if (p.owner i).isSome then .error .alreadyLinked else .ok i

/-- The instruction `i` if it is linked into body `b`. -/
def linkedInto (p : Program) (b : BodyId) :
    Option InstrId → Except Misuse InstrId
  | none => .error .foreignInstruction
  | some i => if p.owner i = some b then .ok i else .error .foreignInstruction

/-- Puts `x` in front of the first `mark` of a list. -/
def insertFront (mark x : InstrId) : List InstrId → List InstrId
  | [] => [x]
  | y :: rest =>
      if y = mark then x :: y :: rest else y :: insertFront mark x rest

/-- Stores `code` as the code of `b` with `i` newly owned by it. -/
def link (p : Program) (b : BodyId) (i : InstrId) (code : List InstrId) :
    Program :=
  (p.modifyInstr i fun x => { x with owner := some b }).modifyBody b fun x =>
    { x with code }

/-- Stores links with `i` newly owned by `b`. -/
def linkAlong (p : Program) (b : BodyId) (i : InstrId) (c : Chain) : Program :=
  { p.modifyInstr i fun x => { x with owner := some b } with chain := some c }

/-- Links `x` in front of `mark`, or at the end of the body when there is no
mark. -/
def insertBefore (p : Program) (b : BodyId) (mark x : Option InstrId) :
    Except Misuse Program := do
  let i ← p.unlinked x
  match mark, p.chain with
  | none, none => return p.link b i ((p.body b).code ++ [i])
  | none, some c => return p.linkAlong b i (c.append b i)
  | some _, none =>
    let k ← p.linkedInto b mark
    return p.link b i (insertFront k i (p.body b).code)
  | some _, some c =>
    let k ← p.linkedInto b mark
    return p.linkAlong b i (c.insertBefore b k i)

/-- Links `x` at the end of the body. -/
def append (p : Program) (b : BodyId) (x : Option InstrId) :
    Except Misuse Program :=
  p.insertBefore b none x

/-- Links `x` behind `mark`, or at the start of the body when there is no
mark. -/
def insertAfter (p : Program) (b : BodyId) (mark x : Option InstrId) :
    Except Misuse Program :=
  match mark with
  | none => p.insertBefore b (p.first? b) x
  | some _ => do
    let k ← p.linkedInto b mark
    p.insertBefore b (p.next k) x

/-- Takes `x` out of the body. -/
def remove (p : Program) (b : BodyId) (x : Option InstrId) :
    Except Misuse Program := do
  let i ← p.linkedInto b x
  let p := p.modifyInstr i fun y => { y with owner := none }
  match p.chain with
  | none => return p.modifyBody b fun y => { y with code := y.code.erase i }
  | some c => return { p with chain := some (c.remove b i) }

/-- Puts `x` in the place of `old`. -/
def replace (p : Program) (b : BodyId) (old x : Option InstrId) :
    Except Misuse Program := do
  let o ← p.linkedInto b old
  let _ ← p.unlinked x
  let next := p.next o
  let p ← p.remove b (some o)
  p.insertBefore b next x

end Program

/-! ### Edits of a body that may be missing

A list primitive as a value, so that one can ask what its caller promises before
any body is touched.  On a body that is there an edit is the primitive.  Without
a body the promises are still looked at first, and an instruction outside all
bodies counts as one of the missing body; the edit then goes on to the first
thing it needs the body for, and the links it has set until then stay.
-/

/-- One call of a list primitive. -/
inductive Edit where
  | append (x : Option InstrId)
  | insertBefore (mark x : Option InstrId)
  | insertAfter (mark x : Option InstrId)
  | remove (x : Option InstrId)
  | replace (old x : Option InstrId)
  deriving DecidableEq, Repr

namespace Chain

/-- The links that are set until an insertion in front of `mark` needs the
body. -/
def begin (c : Chain) (mark i : InstrId) : Chain :=
  let c := (c.setPrev i (c.before.lookup mark)).setNext i (some mark)
  match c.before.lookup mark with
  | some k => (c.setNext k (some i)).setPrev mark (some i)
  | none => c

/-- The links that are set until a removal needs the body. -/
def loosen (c : Chain) (i : InstrId) : Chain :=
  match c.before.lookup i with
  | none => c
  | some k =>
    let c := c.setNext k (c.after.lookup i)
    match c.after.lookup i with
    | none => c
    | some n =>
        ((c.setPrev n (c.before.lookup i)).setPrev i none).setNext i none

end Chain

namespace Edit

/-- Edits a body. -/
def apply (e : Edit) (p : Program) (b : BodyId) : Except Misuse Program :=
  match e with
  | .append x => p.append b x
  | .insertBefore mark x => p.insertBefore b mark x
  | .insertAfter mark x => p.insertAfter b mark x
  | .remove x => p.remove b x
  | .replace old x => p.replace b old x

/-- Fails unless the instruction is outside all bodies. -/
def outside (p : Program) : Option InstrId → Except Misuse Unit
  | none => .error .foreignInstruction
  | some i => if (p.owner i).isSome then .error .foreignInstruction else .ok ()

/-- Fails if the caller breaks a promise that can be seen without a body. -/
def promises (e : Edit) (p : Program) : Except Misuse Unit := do
  match e with
  | .append x | .insertBefore none x =>
    let _ ← p.unlinked x
  | .insertBefore mark x =>
    let _ ← p.unlinked x
    outside p mark
  | .insertAfter none _ => return
  | .insertAfter mark x =>
    outside p mark
    let _ ← p.unlinked x
    match mark.bind p.next with
    | some k => outside p (some k)
    | none => return
  | .replace old x =>
    outside p old
    let _ ← p.unlinked x
  | .remove x => outside p x

/-- The links that an edit leaves when it is broken off for want of a body. -/
def breakOff (e : Edit) (c : Chain) : Chain :=
  match e with
  | .insertBefore (some mark) (some i) => c.begin mark i
  | .insertAfter (some mark) (some i) =>
    match c.after.lookup mark with
    | some k => c.begin k i
    | none => c
  | .remove (some i) | .replace (some i) _ => c.loosen i
  | _ => c

end Edit

namespace Program

/-- The links of all bodies. -/
def links (p : Program) : Chain :=
  p.chain.getD
    (p.bodies.toList.zipIdx.foldl (fun c (b, n) => c.ofCode ⟨n⟩ b.code) {})

/-- Edits a body, which must be there. -/
def edit (p : Program) (b : Option BodyId) (e : Edit) :
    Except Fault Unit × Program :=
  match b with
  | some b =>
    match e.apply p b with
    | .error m => (.error (.misuse m), p)
    | .ok p => (.ok (), p)
  | none =>
    match e.promises p with
    | .error m => (.error (.misuse m), p)
    | .ok _ =>
      let left := e.breakOff p.links
      (.error .absent,
        if left = p.links then p else { p with chain := some left })

/-- Whether `i` is linked into a body, or into none if there is no body. -/
def belongsTo (p : Program) (b : Option BodyId) (i : InstrId) : Bool :=
  p.owner i = b

/-- The instruction at a position of a body.  The body must be there unless the
position is negative, and so must all the instructions that it counts. -/
def seek (p : Program) (b : Option BodyId) (i : Int) :
    Except Fault (Option InstrId) :=
  match b with
  | none => if i < 0 then .ok none else .error .absent
  | some b =>
    if i < 0 || p.size b ≤ i.toNat then .ok none
    else match (p.code b)[i.toNat]? with
      | some k => .ok (some k)
      | none => if i.toNat = (p.code b).length then .ok none else .error .absent

/-- What stands at a position of a body, which must be there unless the position
is negative. -/
def lookUp {α : Type} (b : Option BodyId) (i : Int)
    (look : BodyId → Int → Option α) : Except Fault (Option α) :=
  match b with
  | some b => .ok (look b i)
  | none => if i < 0 then .ok none else .error .absent

end Program

end Bytecode
