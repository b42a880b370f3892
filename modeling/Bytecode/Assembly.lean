import Bytecode.Program

/-!
# Assemblies

An assembly is the tree of modules, types and methods that is loaded and
written as a whole.  References are resolved through a table that is made when
it is first needed and dropped when a method is added; of methods with the same
key the last one in declaration order is found.
-/

namespace Bytecode

/-- Library, executable, or a kind without a meaning. -/
structure AssemblyKind where
  code : UInt8
  deriving DecidableEq, Repr

namespace AssemblyKind

def library : AssemblyKind := ⟨0⟩
def executable : AssemblyKind := ⟨1⟩

/-- The file extension of the kind. -/
def extension (k : AssemblyKind) : String :=
  if k = executable then "exe" else "dll"

end AssemblyKind

/-- A type with its methods, in declaration order. -/
structure TypeDef where
  name : TypeName
  methods : List MethodId := []
  deriving DecidableEq

/-- A module with its types. -/
structure Module where
  name : String
  types : List TypeDef := []
  deriving DecidableEq

/-- A table of method keys. -/
structure Resolution where
  /-- Keys and methods; the first entry of a key counts. -/
  entries : List (String × MethodId)

namespace Resolution

/-- The table of the given methods; a later one hides an earlier one. -/
def ofMethods (p : Program) (ms : List MethodId) : Resolution :=
  ⟨(ms.map fun m => ((p.method m).ref.key, m)).reverse⟩

/-- The method a reference names. -/
def resolve (t : Resolution) (ref : Option MethodRef) : Option MethodId :=
  ref.bind fun r => t.entries.lookup r.key

end Resolution

/-- The tree of modules, types and methods. -/
structure Assembly where
  name : String
  version : String := ""
  kind : AssemblyKind := .library
  modules : List Module := []
  /-- The resolution table, once it has been made. -/
  table : Option Resolution := none

namespace Assembly

/-- Every method, in declaration order. -/
def methods (a : Assembly) : List MethodId :=
  a.modules.flatMap fun mod => mod.types.flatMap (·.methods)

/-- Appends a module. -/
def addModule (a : Assembly) (name : String) : Assembly :=
  { a with modules := a.modules ++ [⟨name, []⟩] }

/-- Appends a type to the module with number `mod`. -/
def addType (a : Assembly) (mod : Nat) (name : TypeName) : Assembly :=
  { a with modules := a.modules.modify mod
             fun x => { x with types := x.types ++ [⟨name, []⟩] } }

/-- Appends a method to a type, given by the numbers of module and type, and
declares it there.  The resolution table is dropped. -/
def addMethod (a : Assembly) (p : Program) (mod type : Nat) (m : MethodId) :
    Option (Assembly × Program) := do
  let x ← a.modules[mod]?
  let t ← x.types[type]?
  let a := { a with
    modules := a.modules.modify mod fun x =>
      { x with types := x.types.modify type
                 fun t => { t with methods := t.methods ++ [m] } }
    table := none }
  return (a, p.modifyMethod m fun y => { y with declaring := some t.name })

/-- Makes the resolution table anew. -/
def reindex (a : Assembly) (p : Program) : Assembly :=
  { a with table := some (.ofMethods p a.methods) }

/-- The method a reference names, through the table, which is made if there is
none. -/
def resolve (a : Assembly) (p : Program) (ref : Option MethodRef) :
    Option MethodId × Assembly :=
  match ref with
  | none => (none, a)
  | some r =>
    match a.table with
    | some t => (t.resolve (some r), a)
    | none =>
      let t := Resolution.ofMethods p a.methods
      (t.resolve (some r), { a with table := some t })

/-- The number of instructions in all bodies. -/
def instrCount (a : Assembly) (p : Program) : Nat := p.instrCount a.methods

/-- Visits the methods in declaration order until `f` fails. -/
def forEachMethod {m : Type → Type} [Monad m] (a : Assembly)
    (f : MethodId → m Unit) : m Unit :=
  a.methods.forM f

end Assembly

end Bytecode
