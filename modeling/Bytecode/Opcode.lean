import Bytecode.Text.Digits

/-!
# Opcodes

An opcode is one byte.  Fifty-eight of the bytes are assigned; `Opcode.table`
lists them with their mnemonic, the role they play in control flow and local
access, and the shape of the operand that follows.  Every other byte is an
unknown opcode: it has a name of its own, plays no role and takes no operand.
-/

namespace Bytecode

/-- The role of an opcode.  Short and long forms share a role. -/
inductive Kind where
  | other
  | nop
  | branch
  | conditionalBranch
  | call
  | ret
  | throws
  | loadLocal
  | loadLocalAddress
  | storeLocal
  deriving DecidableEq, Repr

namespace Kind

/-- All roles, in the order of their numbers. -/
def all : List Kind :=
  [.other, .nop, .branch, .conditionalBranch, .call, .ret, .throws,
    .loadLocal, .loadLocalAddress, .storeLocal]

/-- The name of a role. -/
def name : Kind → String
  | .other => "other"
  | .nop => "nop"
  | .branch => "branch"
  | .conditionalBranch => "conditional-branch"
  | .call => "call"
  | .ret => "return"
  | .throws => "throw"
  | .loadLocal => "load-local"
  | .loadLocalAddress => "load-local-address"
  | .storeLocal => "store-local"

/-- The name of the role with a given number; a number without a role is shown
as such. -/
def nameOfNumber (n : UInt8) : String :=
  match all[n.toNat]? with
  | some k => k.name
  | none => "kind(" ++ Text.decimal 1 n.toNat ++ ")"

/-- Whether control can pass from an instruction of this role to the one
behind it. -/
def fallsThrough : Kind → Bool
  | .branch | .ret | .throws => false
  | _ => true

/-- Whether an instruction of this role names a place to jump to. -/
def isBranch : Kind → Bool
  | .branch | .conditionalBranch => true
  | _ => false

end Kind

/-- What an opcode's operand holds. -/
inductive Shape where
  | none
  | target
  | method
  | field
  | slot
  | int32
  | int64
  | text
  deriving DecidableEq, Repr

/-- The number of a shape. -/
def Shape.number : Shape → Nat
  | .none => 0
  | .target => 1
  | .method => 2
  | .field => 3
  | .slot => 4
  | .int32 => 5
  | .int64 => 6
  | .text => 7

/-- One operation code. -/
structure Opcode where
  byte : UInt8
  deriving DecidableEq, Repr

namespace Opcode

/-- A row of the opcode table. -/
structure Row where
  code : UInt8
  name : String
  kind : Kind
  shape : Shape
  deriving DecidableEq, Repr

/-- The assigned opcodes, by ascending byte. -/
def table : List Row := [
  ⟨0x00, "nop", .nop, .none⟩,
  ⟨0x06, "ldloc.0", .loadLocal, .none⟩,
  ⟨0x07, "ldloc.1", .loadLocal, .none⟩,
  ⟨0x08, "ldloc.2", .loadLocal, .none⟩,
  ⟨0x09, "ldloc.3", .loadLocal, .none⟩,
  ⟨0x0a, "stloc.0", .storeLocal, .none⟩,
  ⟨0x0b, "stloc.1", .storeLocal, .none⟩,
  ⟨0x0c, "stloc.2", .storeLocal, .none⟩,
  ⟨0x0d, "stloc.3", .storeLocal, .none⟩,
  ⟨0x11, "ldloc.s", .loadLocal, .slot⟩,
  ⟨0x12, "ldloca.s", .loadLocalAddress, .slot⟩,
  ⟨0x13, "stloc.s", .storeLocal, .slot⟩,
  ⟨0x14, "ldloc", .loadLocal, .slot⟩,
  ⟨0x15, "ldloca", .loadLocalAddress, .slot⟩,
  ⟨0x16, "stloc", .storeLocal, .slot⟩,
  ⟨0x20, "ldarg", .other, .int32⟩,
  ⟨0x21, "ldnull", .other, .none⟩,
  ⟨0x22, "ldc.i4", .other, .int32⟩,
  ⟨0x23, "ldc.i8", .other, .int64⟩,
  ⟨0x24, "ldstr", .other, .text⟩,
  ⟨0x25, "dup", .other, .none⟩,
  ⟨0x26, "pop", .other, .none⟩,
  ⟨0x30, "add", .other, .none⟩,
  ⟨0x31, "sub", .other, .none⟩,
  ⟨0x32, "mul", .other, .none⟩,
  ⟨0x33, "div", .other, .none⟩,
  ⟨0x34, "rem", .other, .none⟩,
  ⟨0x35, "neg", .other, .none⟩,
  ⟨0x36, "and", .other, .none⟩,
  ⟨0x37, "or", .other, .none⟩,
  ⟨0x38, "xor", .other, .none⟩,
  ⟨0x39, "not", .other, .none⟩,
  ⟨0x3a, "ceq", .other, .none⟩,
  ⟨0x3b, "cgt", .other, .none⟩,
  ⟨0x3c, "clt", .other, .none⟩,
  ⟨0x40, "ldfld", .other, .field⟩,
  ⟨0x41, "stfld", .other, .field⟩,
  ⟨0x42, "ldsfld", .other, .field⟩,
  ⟨0x43, "stsfld", .other, .field⟩,
  ⟨0x44, "newobj", .other, .method⟩,
  ⟨0x50, "br", .branch, .target⟩,
  ⟨0x51, "br.s", .branch, .target⟩,
  ⟨0x52, "brtrue", .conditionalBranch, .target⟩,
  ⟨0x53, "brtrue.s", .conditionalBranch, .target⟩,
  ⟨0x54, "brfalse", .conditionalBranch, .target⟩,
  ⟨0x55, "brfalse.s", .conditionalBranch, .target⟩,
  ⟨0x56, "beq", .conditionalBranch, .target⟩,
  ⟨0x57, "beq.s", .conditionalBranch, .target⟩,
  ⟨0x58, "bne.un", .conditionalBranch, .target⟩,
  ⟨0x59, "bne.un.s", .conditionalBranch, .target⟩,
  ⟨0x5a, "blt", .conditionalBranch, .target⟩,
  ⟨0x5b, "blt.s", .conditionalBranch, .target⟩,
  ⟨0x5c, "bgt", .conditionalBranch, .target⟩,
  ⟨0x5d, "bgt.s", .conditionalBranch, .target⟩,
  ⟨0x60, "call", .call, .method⟩,
  ⟨0x61, "callvirt", .call, .method⟩,
  ⟨0x70, "ret", .ret, .none⟩,
  ⟨0x71, "throw", .throws, .none⟩]

/-- The table row of an opcode. -/
def row? (op : Opcode) : Option Row :=
  table.find? fun r => r.code == op.byte

/-- Whether the opcode is assigned. -/
def isValid (op : Opcode) : Bool := op.row?.isSome

/-- The mnemonic. -/
def name (op : Opcode) : String :=
  match op.row? with
  | some r => r.name
  | none => "unknown_" ++ Text.hex 2 op.byte.toNat

/-- The role in control flow and local access. -/
def kind (op : Opcode) : Kind :=
  match op.row? with
  | some r => r.kind
  | none => .other

/-- The shape of the operand. -/
def shape (op : Opcode) : Shape :=
  match op.row? with
  | some r => r.shape
  | none => .none

/-- Whether the opcode is a branch, conditional or not. -/
def isBranch (op : Opcode) : Bool := op.kind.isBranch

/-- The opcode with a given mnemonic. -/
def ofName? (name : String) : Option Opcode :=
  (table.find? fun r => r.name == name).map fun r => ⟨r.code⟩

def nop : Opcode := ⟨0x00⟩
def pop : Opcode := ⟨0x26⟩
def br : Opcode := ⟨0x50⟩
def call : Opcode := ⟨0x60⟩
def callvirt : Opcode := ⟨0x61⟩

/-- How many stack values a branch takes when it runs: one for a test of a
single value, two for a comparison, none for anything else. -/
def operandCount (op : Opcode) : Nat :=
  if 0x52 ≤ op.byte && op.byte ≤ 0x55 then 1
  else if 0x56 ≤ op.byte && op.byte ≤ 0x5d then 2
  else 0

end Opcode

end Bytecode
