import Bytecode.Assembly
import Bytecode.Bytes
import Bytecode.Fault
import Bytecode.File.Code
import Bytecode.Text.Quoted

/-!
# Assembly files

A file is a header and a document.  `encode` writes an assembly, `decode` reads
one back; writing fails if some body cannot be packed, and reading if the
header, the document or the code of a body is not what it should be.  How a
document becomes bytes is left to a `Codec`.
-/

namespace Bytecode

namespace File

/-! ### The header

Twelve bytes: four that name the format, then version and flags as 32-bit
words, least significant byte first.
-/

/-- The four bytes every assembly file begins with. -/
def magic : List UInt8 := [0x49, 0x4c, 0x41, 0x53]

/-- The version of the format. -/
def formatVersion : UInt32 := 1

/-- The flag of files that have been optimised. -/
def optimizedFlag : UInt32 := 1

/-- The fixed part of a file. -/
structure Header where
  version : UInt32
  flags : UInt32
  deriving DecidableEq

namespace Header

/-- Whether the file was written by the optimiser. -/
def isOptimized (h : Header) : Bool := h.flags &&& optimizedFlag != 0

/-- The bytes of a header. -/
def encode (h : Header) : List UInt8 :=
  magic ++ Bytes.little 4 h.version.toNat ++ Bytes.little 4 h.flags.toNat

/-- The header of a file, and what follows it. -/
def decode (data : List UInt8) : Except Fault (Header × List UInt8) :=
  match Bytes.split? 12 data with
  | none => .error (.of .corruptHeader)
  | some (front, rest) =>
    let start := front.take 4
    if start ≠ magic then
      .error (.failed ["got " ++ Text.quotedBytes start] .invalidMagic)
    else
      let version := Bytes.ofLittle ((front.drop 4).take 4)
      let flags := Bytes.ofLittle (front.drop 8)
      if version ≠ formatVersion.toNat then
        .error (.failed ["expected " ++ Text.decimal 1 formatVersion.toNat ++
          ", got " ++ Text.decimal 1 version] .versionMismatch)
      else .ok (⟨version.toUInt32, flags.toUInt32⟩, rest)

end Header

/-! ### Writing -/

/-- A method in stored form. -/
def storeMethod (p : Program) (m : MethodId) :
    StateT Tables (Except Fault) StoredMethod := fun t => do
  let x := p.method m
  let returnType := if x.returnsVoid then "" else x.returnType
  match x.body with
  | none =>
      return ({ name := x.name, params := x.params, returnType,
                attrs := x.attrs }, t)
  | some b =>
    let (s, t) ← Fault.during ("assembly: encode " ++ x.fullName)
      (packBody p { p.body b with code := p.code b } t)
    return ({ name := x.name, params := x.params, returnType, attrs := x.attrs,
              body := some s }, t)

/-- A type in stored form. -/
def storeType (p : Program) (t : TypeDef) :
    StateT Tables (Except Fault) StoredType := do
  return { name := t.name, methods := ← t.methods.mapM (storeMethod p) }

/-- A module in stored form. -/
def storeModule (p : Program) (m : Module) :
    StateT Tables (Except Fault) StoredModule := do
  return { name := m.name, types := ← m.types.mapM (storeType p) }

/-- An assembly in stored form. -/
def store (p : Program) (a : Assembly) : Except Fault Document := do
  let (modules, t) ← (a.modules.mapM (storeModule p)).run {}
  return { name := a.name, version := a.version, kind := a.kind.code, modules,
           strings := t.strings.toList, methods := t.methods.toList,
           fields := t.fields.toList }

/-- The bytes of an assembly file. -/
def encode [Codec] (p : Program) (a : Assembly) (flags : UInt32) :
    Except Fault (List UInt8) := do
  let d ← store p a
  return Header.encode ⟨formatVersion, flags⟩ ++ Codec.marshal d

/-- Writes an assembly file to a sink. -/
def write [Codec] (p : Program) (a : Assembly) (flags : UInt32)
    (sink : List UInt8 → Except Fault Unit) : Except Fault Unit := do
  let data ← encode p a flags
  Fault.during "assembly: write" (sink data)

/-! ### Reading -/

/-- Stores a method in the program. -/
def loadMethod (d : Document) (type : TypeName) (s : StoredMethod) :
    StateT Program (Except Fault) MethodId := fun p => do
  let x : Method :=
    { name := s.name, params := s.params, attrs := s.attrs,
      declaring := some type,
      returnType := if s.returnType = "" then voidType else s.returnType }
  let (m, p) := p.newMethod x
  match s.body with
  | none => return (m, p)
  | some s =>
    let (b, p) ← Fault.during ("assembly: decode " ++ x.fullName)
      (unpackBody d p s)
    return (m, p.setBody m (some b))

/-- Stores the methods of a type in the program. -/
def loadType (d : Document) (s : StoredType) :
    StateT Program (Except Fault) TypeDef := do
  return { name := s.name, methods := ← s.methods.mapM (loadMethod d s.name) }

/-- Stores the methods of a module in the program. -/
def loadModule (d : Document) (s : StoredModule) :
    StateT Program (Except Fault) Module := do
  return { name := s.name, types := ← s.types.mapM (loadType d) }

/-- The assembly that a document describes. -/
def load (d : Document) : Except Fault (Assembly × Program) := do
  if d.kind ≠ AssemblyKind.library.code &&
      d.kind ≠ AssemblyKind.executable.code then
    throw (.text ("assembly: unknown kind " ++ Text.decimal 1 d.kind.toNat))
  let (modules, p) ← (d.modules.mapM (loadModule d)).run {}
  return ({ name := d.name, version := d.version, kind := ⟨d.kind⟩, modules },
    p)

end File

/-- An assembly read from a file, with the program that holds its methods. -/
structure File where
  header : File.Header
  assembly : Assembly
  program : Program

namespace File

/-- The assembly file that fills a byte list. -/
def decode [Codec] (data : List UInt8) : Except Fault File := do
  let (header, rest) ← Header.decode data
  let malformed : Fault :=
    .failed ["assembly: unmarshal document"] .malformedDocument
  match Codec.unmarshal rest with
  | none => throw malformed
  | some d =>
    let (assembly, program) ← load d
    return { header, assembly, program }

/-- Reads an assembly file from a source. -/
def read [Codec] (source : Except Fault (List UInt8)) : Except Fault File := do
  let data ← Fault.during "assembly: read" source
  decode data

end File

end Bytecode
