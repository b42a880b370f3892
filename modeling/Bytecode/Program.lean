import Bytecode.Opcode
import Bytecode.Text.Digits

/-!
# Programs

A program stores instructions, bodies and methods under identifiers.  The
identifier is an instruction's identity: branch operands refer to other
instructions by it, also across bodies and also when the instruction they name
is in no body at all.

A body is an ordered list of instructions.  The neighbours and the offset of an
instruction are read off that list; each instruction also knows its owner, and
edits keep the two views in step.  Only an edit that is broken off half-way can
leave links that no list has, and they are then noted one by one.
-/

namespace Bytecode

/-! ### Names of things outside an instruction

Local slots, and references to methods and fields.  A reference names its
member by declaring type, name and signature; it need not name anything that
exists.
-/

/-- A local variable slot. -/
structure Local where
  /-- The slot number in the owning body. -/
  index : Int
  /-- The declared type. -/
  type : String
  /-- A name for readers, possibly empty. -/
  name : String
  deriving DecidableEq, Repr

/-- The slot number, with the name behind it when there is one. -/
def Local.text (l : Local) : String :=
  if l.name = "" then "V_" ++ Text.integer l.index
  else "V_" ++ Text.integer l.index ++ "(" ++ l.name ++ ")"

/-- The return type of methods that return nothing. -/
def voidType : String := "void"

/-- A method named by declaring type, name and signature. -/
structure MethodRef where
  type : String
  name : String
  params : List String
  returnType : String
  deriving DecidableEq, Repr

namespace MethodRef

/-- The key a reference is resolved by; the return type is no part of it. -/
def key (r : MethodRef) : String :=
  r.type ++ "::" ++ r.name ++ "(" ++ String.intercalate "," r.params ++ ")"

/-- The key behind the return type, an empty one being `void`. -/
def text (r : MethodRef) : String :=
  (if r.returnType = "" then voidType else r.returnType) ++ " " ++ r.key

end MethodRef

/-- A field named by declaring type and name. -/
structure FieldRef where
  type : String
  name : String
  /-- The field's own type. -/
  kind : String
  deriving DecidableEq, Repr

/-- The field's type, then the qualified name. -/
def FieldRef.text (r : FieldRef) : String :=
  r.kind ++ " " ++ r.type ++ "::" ++ r.name

/-! ### Instructions, bodies and methods -/

/-- The identity of an instruction. -/
structure InstrId where
  index : Nat
  deriving DecidableEq, Repr

/-- The identity of a body. -/
structure BodyId where
  index : Nat
  deriving DecidableEq, Repr

/-- The identity of a method. -/
structure MethodId where
  index : Nat
  deriving DecidableEq, Repr

/-- What an instruction carries besides its opcode.  Any operand may stand
behind any opcode. -/
inductive Operand where
  /-- No operand. -/
  | absent
  /-- A reference that names nothing. -/
  | null
  | target (i : InstrId)
  | method (r : MethodRef)
  | field (r : FieldRef)
  | slot (l : Local)
  | int32 (v : Int32)
  | int64 (v : Int64)
  /-- An integer of no particular width, the right operand of no opcode. -/
  | int (v : Int)
  | text (s : String)
  deriving DecidableEq

namespace Operand

/-- The instruction named by the operand. -/
def target? : Operand → Option InstrId
  | .target i => some i
  | _ => none

/-- The method reference held by the operand. -/
def method? : Operand → Option MethodRef
  | .method r => some r
  | _ => none

/-- The field reference held by the operand. -/
def field? : Operand → Option FieldRef
  | .field r => some r
  | _ => none

/-- The local slot held by the operand. -/
def slot? : Operand → Option Local
  | .slot l => some l
  | _ => none

/-- The operand of a branch to `t`. -/
def ofTarget : Option InstrId → Operand
  | some i => .target i
  | none => .null

@[simp] theorem target?_ofTarget (t : Option InstrId) :
    (ofTarget t).target? = t := by
  cases t <;> rfl

end Operand

/-- An instruction: opcode, operand, and the body it is linked into. -/
structure Instr where
  op : Opcode
  operand : Operand
  owner : Option BodyId
  deriving DecidableEq

namespace Instr

instance : Inhabited Instr := ⟨⟨.nop, .absent, none⟩⟩

/-- The role of the opcode. -/
def kind (x : Instr) : Kind := x.op.kind

/-- Whether the instruction is a branch, conditional or not. -/
def isBranch (x : Instr) : Bool := x.op.isBranch

/-- The branch target, if the operand names an instruction. -/
def target? (x : Instr) : Option InstrId := x.operand.target?

/-- Whether control may pass on to the next instruction. -/
def fallsThrough (x : Instr) : Bool := x.kind.fallsThrough

/-- Whether the instruction is in a body. -/
def isLinked (x : Instr) : Bool := x.owner.isSome

end Instr

/-- The code and the local slots of a method. -/
structure Body where
  code : List InstrId := []
  locals : Array Local := #[]
  maxStack : Int := 0
  initLocals : Bool := true
  /-- The method the body is attached to. -/
  method : Option MethodId := none
  deriving DecidableEq, Inhabited

/-- The slot with number `i`. -/
def Body.localAt? (b : Body) (i : Int) : Option Local :=
  if i < 0 then none else b.locals[i.toNat]?

/-- Slots are numbered from zero. -/
theorem Body.localAt?_eq_some {x : Body} {n : Int} {l : Local} :
    x.localAt? n = some l ↔ ∃ k : Nat, n = k ∧ x.locals[k]? = some l := by
  rw [localAt?]
  constructor
  · intro h
    split at h
    · cases h
    · exact ⟨n.toNat, by omega, h⟩
  · rintro ⟨k, rfl, hk⟩
    rwa [if_neg (by omega), Int.toNat_natCast]

/-- A declared parameter. -/
structure Param where
  name : String
  type : String
  deriving DecidableEq, Repr

/-- The name of a type inside its namespace. -/
structure TypeName where
  ns : String
  name : String
  deriving DecidableEq, Repr

/-- The qualified name; the empty namespace is left out. -/
def TypeName.full (t : TypeName) : String :=
  if t.ns = "" then t.name else t.ns ++ "." ++ t.name

/-- A method definition. -/
structure Method where
  name : String
  params : List Param := []
  returnType : String := voidType
  attrs : UInt32 := 0
  /-- The type that declares the method, if any does. -/
  declaring : Option TypeName := none
  body : Option BodyId := none
  deriving DecidableEq, Inhabited

namespace Method

/-- The method has no receiver. -/
def isStatic (m : Method) : Bool := m.attrs &&& 1 != 0

/-- Calls of the method dispatch dynamically. -/
def isVirtual (m : Method) : Bool := m.attrs &&& 2 != 0

/-- The method is declared without implementation. -/
def isAbstract (m : Method) : Bool := m.attrs &&& 4 != 0

/-- The method is implemented elsewhere. -/
def isExtern (m : Method) : Bool := m.attrs &&& 8 != 0

/-- The method returns nothing. -/
def returnsVoid (m : Method) : Bool :=
  m.returnType = "" || m.returnType = voidType

/-- The method name behind the full name of its type. -/
def fullName (m : Method) : String :=
  match m.declaring with
  | some t => t.full ++ "::" ++ m.name
  | none => m.name

/-- A reference that names the method. -/
def ref (m : Method) : MethodRef where
  type := match m.declaring with
    | some t => t.full
    | none => ""
  name := m.name
  params := m.params.map (·.type)
  returnType := m.returnType

end Method

/-- The element behind the first `x` of a list. -/
def elemAfter? {α : Type} [DecidableEq α] (x : α) : List α → Option α
  | [] => none
  | y :: rest => if y = x then rest.head? else elemAfter? x rest

/-- The element in front of the first `x` of a list. -/
def elemBefore? {α : Type} [DecidableEq α] (x : α) : List α → Option α
  | [] => none
  | y :: rest =>
    if y = x then none
    else if rest.head? = some x then some y
    else elemBefore? x rest

/-- Links between neighbours, each noted by itself.  They need not belong
together: a link forwards may lack the one back, and the ends of a body may be
out of step with its links. -/
structure Chain where
  /-- Instructions with those in front of them. -/
  before : List (InstrId × InstrId) := []
  /-- Instructions with those behind them. -/
  after : List (InstrId × InstrId) := []
  firsts : List (BodyId × InstrId) := []
  lasts : List (BodyId × InstrId) := []
  sizes : List (BodyId × Nat) := []
  deriving DecidableEq, Repr

namespace Chain

/-- A list of notes with another one under a key, or with none. -/
def note {κ β : Type} [DecidableEq κ] (l : List (κ × β)) (k : κ)
    (x : Option β) : List (κ × β) :=
  (x.map (k, ·)).toList ++ l.filter fun e => e.1 ≠ k

/-- Notes what stands in front of `i`. -/
def setPrev (c : Chain) (i : InstrId) (x : Option InstrId) : Chain :=
  { c with before := note c.before i x }

/-- Notes what stands behind `i`. -/
def setNext (c : Chain) (i : InstrId) (x : Option InstrId) : Chain :=
  { c with after := note c.after i x }

/-- Notes the first instruction of a body. -/
def setFirst (c : Chain) (b : BodyId) (x : Option InstrId) : Chain :=
  { c with firsts := note c.firsts b x }

/-- Notes the last instruction of a body. -/
def setLast (c : Chain) (b : BodyId) (x : Option InstrId) : Chain :=
  { c with lasts := note c.lasts b x }

/-- The number of instructions that a body counts. -/
def size (c : Chain) (b : BodyId) : Nat := (c.sizes.lookup b).getD 0

/-- Notes the number of instructions of a body. -/
def setSize (c : Chain) (b : BodyId) (n : Nat) : Chain :=
  { c with sizes := note c.sizes b (some n) }

/-- What links lead to from an instruction on, at most so far. -/
def walk (links : List (InstrId × InstrId)) :
    Nat → Option InstrId → List InstrId
  | 0, _ | _, none => []
  | far + 1, some i => i :: walk links far (links.lookup i)

/-- The links of the instructions of a list. -/
def ofCode (c : Chain) (b : BodyId) (code : List InstrId) : Chain :=
  { before := (code.tail.zip code) ++ c.before
    after := (code.zip code.tail) ++ c.after
    firsts := note c.firsts b code.head?
    lasts := note c.lasts b code.getLast?
    sizes := note c.sizes b (some code.length) }

end Chain

/-- All instructions, bodies and methods. -/
structure Program where
  instrs : Array Instr := #[]
  bodies : Array Body := #[]
  methods : Array Method := #[]
  /-- The links between instructions, where they are not those of the code of
  bodies: an edit of a missing body has been broken off half-way. -/
  chain : Option Chain := none
  deriving DecidableEq, Inhabited

namespace Program

/-- The instruction with a given identity. -/
def instr (p : Program) (i : InstrId) : Instr := p.instrs.getD i.index default

/-- The body with a given identity. -/
def body (p : Program) (b : BodyId) : Body := p.bodies.getD b.index default

/-- The method with a given identity. -/
def method (p : Program) (m : MethodId) : Method :=
  p.methods.getD m.index default

/-- Stores a changed instruction. -/
def modifyInstr (p : Program) (i : InstrId) (f : Instr → Instr) : Program :=
  { p with instrs := p.instrs.modify i.index f }

/-- Stores a changed body. -/
def modifyBody (p : Program) (b : BodyId) (f : Body → Body) : Program :=
  { p with bodies := p.bodies.modify b.index f }

/-- Stores a changed method. -/
def modifyMethod (p : Program) (m : MethodId) (f : Method → Method) : Program :=
  { p with methods := p.methods.modify m.index f }

/-- A fresh instruction, in no body. -/
def newInstr (p : Program) (op : Opcode) (operand : Operand) :
    InstrId × Program :=
  (⟨p.instrs.size⟩, { p with instrs := p.instrs.push ⟨op, operand, none⟩ })

/-- A fresh body, attached to no method. -/
def newBody (p : Program) (b : Body) : BodyId × Program :=
  (⟨p.bodies.size⟩,
    { p with bodies := p.bodies.push { b with method := none } })

/-- A fresh method without a body. -/
def newMethod (p : Program) (m : Method) : MethodId × Program :=
  (⟨p.methods.size⟩,
    { p with methods := p.methods.push { m with body := none } })

/-- Fresh instructions at the end of a body, in the given order. -/
def appendNew (p : Program) (b : BodyId) (xs : List (Opcode × Operand)) :
    Program :=
  let fresh :=
    (List.range xs.length).map fun n => (⟨p.instrs.size + n⟩ : InstrId)
  let made : List Instr := xs.map fun (op, operand) => ⟨op, operand, some b⟩
  { p with instrs := p.instrs ++ made.toArray }.modifyBody b fun y =>
    { y with code := y.code ++ fresh }

/-- Gives an instruction another operand. -/
def setOperand (p : Program) (i : InstrId) (operand : Operand) : Program :=
  p.modifyInstr i fun x => { x with operand }

/-- Gives an instruction another opcode. -/
def setOpcode (p : Program) (i : InstrId) (op : Opcode) : Program :=
  p.modifyInstr i fun x => { x with op }

/-- The body an instruction is linked into. -/
def owner (p : Program) (i : InstrId) : Option BodyId := (p.instr i).owner

/-- The branch target of an instruction. -/
def target? (p : Program) (i : InstrId) : Option InstrId := (p.instr i).target?

/-- Points a branch at `t`. -/
def setTarget (p : Program) (i : InstrId) (t : Option InstrId) : Program :=
  p.setOperand i (.ofTarget t)

/-- The instruction behind `i` in its body. -/
def next (p : Program) (i : InstrId) : Option InstrId :=
  match p.chain with
  | none => (p.owner i).bind fun b => elemAfter? i (p.body b).code
  | some c => c.after.lookup i

/-- The instruction in front of `i` in its body. -/
def prev (p : Program) (i : InstrId) : Option InstrId :=
  match p.chain with
  | none => (p.owner i).bind fun b => elemBefore? i (p.body b).code
  | some c => c.before.lookup i

/-- The position of `i` in its body. -/
def offset? (p : Program) (i : InstrId) : Option Nat :=
  match p.chain with
  | none => (p.owner i).bind fun b => (p.body b).code.idxOf? i
  | some c => (p.owner i).map fun _ => (Chain.walk c.before p.instrs.size
      (c.before.lookup i)).length

/-- The instructions of a body in order. -/
def code (p : Program) (b : BodyId) : List InstrId :=
  match p.chain with
  | none => (p.body b).code
  | some c => Chain.walk c.after p.instrs.size (c.firsts.lookup b)

/-- The number of instructions of a body. -/
def size (p : Program) (b : BodyId) : Nat :=
  match p.chain with
  | none => (p.body b).code.length
  | some c => c.size b

/-- Whether `i` is linked into body `b`. -/
def contains (p : Program) (b : BodyId) (i : InstrId) : Bool :=
  p.owner i = some b

/-- The first instruction of a body. -/
def first? (p : Program) (b : BodyId) : Option InstrId :=
  match p.chain with
  | none => (p.body b).code.head?
  | some c => c.firsts.lookup b

/-- The last instruction of a body. -/
def last? (p : Program) (b : BodyId) : Option InstrId :=
  match p.chain with
  | none => (p.body b).code.getLast?
  | some c => c.lasts.lookup b

/-- The instruction at a position of a body. -/
def at? (p : Program) (b : BodyId) (i : Int) : Option InstrId :=
  if i < 0 then none else (p.code b)[i.toNat]?

/-- The number of instructions in the bodies of the given methods. -/
def instrCount (p : Program) (ms : List MethodId) : Nat :=
  ms.foldl (fun n m => n + ((p.method m).body.map p.size).getD 0) 0

/-- Declares a further local slot of a body; its number is its position. -/
def addLocal (p : Program) (b : BodyId) (type name : String) :
    Local × Program :=
  let l : Local := ⟨(p.body b).locals.size, type, name⟩
  (l, p.modifyBody b fun x => { x with locals := x.locals.push l })

/-- Attaches a body to a method in place of the one it had. -/
def setBody (p : Program) (m : MethodId) (b : Option BodyId) : Program :=
  let p := match (p.method m).body with
    | some old => p.modifyBody old fun x => { x with method := none }
    | none => p
  let p := p.modifyMethod m fun x => { x with body := b }
  match b with
  | some new => p.modifyBody new fun x => { x with method := some m }
  | none => p

end Program

/-! ### Access to local slots

Loads, stores and address loads come in several encodings: the first four slots
have load and store opcodes of their own, slots up to 255 a short form, all
others the long one.  `Access.encode` picks the shortest form.
-/

/-- What an instruction does to a local slot. -/
inductive Access where
  | load
  | address
  | store
  deriving DecidableEq, Repr

namespace Access

/-- Opcode and operand of an access to `l`, in the shortest form.  Slots below
zero have no load and no store. -/
def encode (a : Access) (l : Local) : Option (Opcode × Operand) :=
  match a with
  | .address =>
      if l.index ≤ 0xff then some (⟨0x12⟩, .slot l) else some (⟨0x15⟩, .slot l)
  | .load => direct 0x06 0x11 0x14
  | .store => direct 0x0a 0x13 0x16
where
  /-- The embedded form from `base` on, else the short or the long form. -/
  direct (base short long : UInt8) : Option (Opcode × Operand) :=
    if l.index < 0 then none
    else if l.index < 4 then some (⟨base + l.index.toNat.toUInt8⟩, .absent)
    else if l.index ≤ 0xff then some (⟨short⟩, .slot l)
    else some (⟨long⟩, .slot l)

end Access

/-- The access made by opcodes of a role. -/
def Kind.access? : Kind → Option Access
  | .loadLocal => some .load
  | .loadLocalAddress => some .address
  | .storeLocal => some .store
  | _ => none

namespace Instr

/-- The access an instruction makes. -/
def access? (x : Instr) : Option Access := x.kind.access?

/-- The slot number that an opcode carries in itself. -/
def embeddedSlot? (op : Opcode) : Option Int :=
  if 0x06 ≤ op.byte && op.byte ≤ 0x09 then some (op.byte.toNat - 0x06)
  else if 0x0a ≤ op.byte && op.byte ≤ 0x0d then some (op.byte.toNat - 0x0a)
  else none

/-- The slot an access addresses; there is none when the instruction is no
access or its operand is no slot. -/
def localIndex? (x : Instr) : Option Int :=
  if x.access?.isNone then none
  else match embeddedSlot? x.op with
    | some i => some i
    | none => x.operand.slot?.map (·.index)

end Instr

end Bytecode
