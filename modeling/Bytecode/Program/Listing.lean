import Bytecode.Program
import Bytecode.Text.Quoted

/-!
# Listings

Instructions and bodies in assembler notation.  A branch shows the offset of
its target in the target's own body; targets in no body have no offset.
-/

namespace Bytecode

/-- The text for something that is not there. -/
def missingText : String := "<nil>"

namespace Operand

/-- The operand as plain text; `show` writes an instruction. -/
def plain (instrText : InstrId → String) : Operand → String
  | .absent | .null => missingText
  | .target i => instrText i
  | .method r => r.text
  | .field r => r.text
  | .slot l => l.text
  | .int32 v => Text.integer v.toInt
  | .int64 v => Text.integer v.toInt
  | .int v => Text.integer v
  | .text s => s

/-- The operand in quotes: numbers are read as code points, everything else as
its plain text. -/
def quoted (instrText : InstrId → String) : Operand → String
  | .absent => "%!q(" ++ missingText ++ ")"
  | .null => missingText
  | .int32 v => Text.quotedCodePoint v.toInt
  | .int64 v => Text.quotedCodePoint v.toInt
  | .int v => Text.quotedCodePoint v
  | o => Text.quoted (o.plain instrText)

end Operand

/-- The label of an offset. -/
def offsetLabel (n : Nat) : String := "IL_" ++ Text.decimal 4 n

namespace Program

/-- The label of an instruction: its offset, or question marks when it is in no
body. -/
def label (p : Program) (i : InstrId) : String :=
  match p.offset? i with
  | some n => offsetLabel n
  | none => "IL_????"

/-- An instruction in assembler notation, operands that are themselves
instructions being followed at most `depth` deep. -/
def textTo (p : Program) : Nat → InstrId → String
  | 0, _ => missingText
  | depth + 1, i =>
    let x := p.instr i
    match x.op.shape with
    | .none => x.op.name
    | .target =>
      match x.target? with
      | some t => x.op.name ++ " " ++ p.label t
      | none => x.op.name ++ " " ++ missingText
    | .text => x.op.name ++ " " ++ x.operand.quoted (p.textTo depth)
    | _ => x.op.name ++ " " ++ x.operand.plain (p.textTo depth)

/-- An instruction in assembler notation. -/
def text (p : Program) (i : InstrId) : String := p.textTo (p.instrs.size + 1) i

/-- An instruction that may be missing, in assembler notation. -/
def textOrNil (p : Program) : Option InstrId → String
  | some i => p.text i
  | none => missingText

/-- An instruction behind its label. -/
def line (p : Program) (i : InstrId) : String := p.label i ++ ": " ++ p.text i

/-- The code of a body, one line for each instruction. -/
def codeLines (p : Program) (b : BodyId) : List String :=
  match p.chain with
  | none =>
      (p.body b).code.zipIdx.map fun (i, n) => offsetLabel n ++ ": " ++ p.text i
  | some _ => (p.code b).map p.line

/-- The declaration lines of the local slots. -/
def localLines (p : Program) (b : BodyId) : List String :=
  (p.body b).locals.toList.zipIdx.map fun (l, n) =>
    ".local [" ++ Text.decimal 1 n ++ "] " ++ l.type

/-- The whole body: slots first, then the code without a line break at the
end. -/
def listing (p : Program) (b : BodyId) : String :=
  String.join ((p.localLines b).map (· ++ "\n")) ++
    String.intercalate "\n" (p.codeLines b)

end Program

end Bytecode
