import Bytecode.File.Document
import Bytecode.Fault
import Bytecode.Program.Listing

/-!
# Packed code

Each instruction is its opcode byte and an operand of fixed width, least
significant byte first: four bytes for branch offsets, for indices into the
tables of methods, fields and strings and for 32-bit numbers, two for a slot,
eight for a 64-bit number.  Branches name their target by its offset in the same
body.
-/

namespace Bytecode.File

/-- How many bytes an operand takes. -/
def operandWidth : Shape → Nat
  | .none => 0
  | .slot => 2
  | .int64 => 8
  | .target | .method | .field | .int32 | .text => 4

/-! ### Writing -/

/-- The tables while bodies are written.  Equal entries share an index. -/
structure Tables where
  strings : Array String := #[]
  methods : Array MethodRef := #[]
  fields : Array FieldRef := #[]

namespace Tables

/-- The index of a string, which is entered if it is new. -/
def string (t : Tables) (s : String) : Nat × Tables :=
  match t.strings.findIdx? (· = s) with
  | some n => (n, t)
  | none => (t.strings.size, { t with strings := t.strings.push s })

/-- The index of a method reference; references with the same text are one. -/
def method (t : Tables) (r : MethodRef) : Nat × Tables :=
  match t.methods.findIdx? (·.text = r.text) with
  | some n => (n, t)
  | none => (t.methods.size, { t with methods := t.methods.push r })

/-- The index of a field reference; references with the same text are one. -/
def field (t : Tables) (r : FieldRef) : Nat × Tables :=
  match t.fields.findIdx? (·.text = r.text) with
  | some n => (n, t)
  | none => (t.fields.size, { t with fields := t.fields.push r })

end Tables

/-- Where an instruction stands, for messages. -/
def position (op : Opcode) (pc : Nat) : String :=
  op.name ++ " at " ++ offsetLabel pc

/-- The number an operand is packed as. -/
def packOperand (b : Body) (t : Tables) (pc : Nat) (x : Instr) :
    Except Fault (Nat × Tables) :=
  let invalid : Except Fault (Nat × Tables) :=
    .error (.failed [position x.op pc] .invalidOperand)
  match x.op.shape with
  | .none => .ok (0, t)
  | .target =>
    match x.target?.bind fun i => b.code.idxOf? i with
    | some n => .ok (n, t)
    | none => .error (.failed [position x.op pc] .danglingBranch)
  | .method =>
    match x.operand with
    | .method r => .ok (t.method r)
    | _ => invalid
  | .field =>
    match x.operand with
    | .field r => .ok (t.field r)
    | _ => invalid
  | .text =>
    match x.operand with
    | .text s => .ok (t.string s)
    | _ => invalid
  | .slot =>
    match x.operand with
    | .slot l =>
        if l.index ≤ 0xffff && (b.localAt? l.index).isSome then
          .ok (l.index.toNat, t)
        else invalid
    | _ => invalid
  | .int32 =>
    match x.operand with
    | .int32 v => .ok (v.toUInt32.toNat, t)
    | _ => invalid
  | .int64 =>
    match x.operand with
    | .int64 v => .ok (v.toUInt64.toNat, t)
    | _ => invalid

/-- The bytes of one instruction. -/
def packInstr (b : Body) (t : Tables) (pc : Nat) (x : Instr) :
    Except Fault (List UInt8 × Tables) :=
  if !x.op.isValid then
    .error (.failed ["0x" ++ Text.hex 2 x.op.byte.toNat ++ " at " ++
      offsetLabel pc] .invalidOpcode)
  else do
    let (n, t) ← packOperand b t pc x
    return (x.op.byte :: Bytes.little (operandWidth x.op.shape) n, t)

/-- The bytes of instructions from offset `pc` on, behind those already
written; `done` holds the latest first. -/
def packCode (p : Program) (b : Body) : Nat → List InstrId → Tables →
    List (List UInt8) → Except Fault (List UInt8 × Tables)
  | _, [], t, done => .ok (done.reverse.flatten, t)
  | pc, i :: rest, t, done => do
    let (bytes, t) ← packInstr b t pc (p.instr i)
    packCode p b (pc + 1) rest t (bytes :: done)

/-- A body in stored form. -/
def packBody (p : Program) (b : Body) (t : Tables) :
    Except Fault (StoredBody × Tables) := do
  let (code, t) ← packCode p b 0 b.code t []
  return ({ maxStack := b.maxStack, initLocals := b.initLocals, code
            locals := b.locals.toList.map fun l => (l.type, l.name) }, t)

/-! ### Reading -/

/-- The operand packed as the number `n`.  Branch offsets stay for later. -/
def unpackOperand (d : Document) (locals : Array Local) (op : Opcode)
    (pc n : Nat) : Except Fault Operand :=
  let entry {α : Type} (what : String) (x : Option α) (f : α → Operand) :
    Except Fault Operand :=
    match x with
    | some a => .ok (f a)
    | none =>
      .error (.failed [what ++ " " ++ Text.decimal 1 n ++ " at " ++
        offsetLabel pc] .invalidIndex)
  match op.shape with
  | .none | .target => .ok .absent
  | .method => entry "method" d.methods[n]? .method
  | .field => entry "field" d.fields[n]? .field
  | .text => entry "string" d.strings[n]? .text
  | .slot => entry "local" locals[n]? .slot
  | .int32 => .ok (.int32 n.toUInt32.toInt32)
  | .int64 => .ok (.int64 n.toUInt64.toInt64)

/-- An unpacked instruction, and the offset it branches to. -/
structure Unpacked where
  op : Opcode
  operand : Operand
  branch : Option Nat

/-- The instructions packed in a byte list whose first byte is byte `at` and
whose first instruction has offset `pc`. -/
def unpackCode (d : Document) (locals : Array Local) (start pc : Nat)
    (code : List UInt8) : Except Fault (List Unpacked) :=
  match code with
  | [] => .ok []
  | byte :: rest =>
    let op : Opcode := ⟨byte⟩
    if !op.isValid then
      .error (.failed ["0x" ++ Text.hex 2 byte.toNat ++ " at byte " ++
        Text.decimal 1 start] .invalidOpcode)
    else
      let width := operandWidth op.shape
      let front := rest.take width
      if front.length < width then
        .error (.failed [position op pc] .unexpectedEnd)
      else do
        let n := Bytes.ofLittle front
        let operand ← unpackOperand d locals op pc n
        let others ← unpackCode d locals (start + 1 + width) (pc + 1)
          (rest.drop width)
        return ⟨op, operand, if op.shape = .target then some n else
            none⟩ :: others
termination_by code.length
decreasing_by simp only [List.length_cons, List.length_drop]; omega

/-- The branch offsets of unpacked code must lie inside it. -/
def checkBranches (count : Nat) : List Unpacked → Except Fault Unit
  | [] => .ok ()
  | x :: rest =>
    match x.branch with
    | some n =>
      if n < count then checkBranches count rest
      else
        .error (.failed [x.op.name ++ " to " ++ offsetLabel n] .danglingBranch)
    | none => checkBranches count rest

/-- Stores the body that `s` describes in the program. -/
def unpackBody (d : Document) (p : Program) (s : StoredBody) :
    Except Fault (BodyId × Program) := do
  let locals : Array Local :=
    (s.locals.zipIdx.map fun ((type, name), n) => ⟨n, type, name⟩).toArray
  let code ← unpackCode d locals 0 0 s.code
  checkBranches code.length code
  let (b, p) :=
    p.newBody { maxStack := s.maxStack, initLocals := s.initLocals, locals }
  let first := p.instrs.size
  let operand (x : Unpacked) : Operand := match x.branch with
    | some n => .target ⟨first + n⟩
    | none => x.operand
  return (b, p.appendNew b (code.map fun x => (x.op, operand x)))

end Bytecode.File
