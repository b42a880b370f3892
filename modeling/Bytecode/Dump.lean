import Bytecode.File
import Bytecode.Program.Listing

/-!
# Listing a whole file

The methods of a file with their slots and code, optionally in colour.  Colour
is put around a piece of text by terminal control sequences.
-/

namespace Bytecode.Dump

/-- How a piece of text looks. -/
inductive Style where
  | heading
  | branch
  | call
  | exit
  | faint
  | plain
  deriving DecidableEq

namespace Style

/-- A terminal control sequence. -/
def control (code : String) : String := "\x1b[" ++ code ++ "m"

/-- What switches a style on. -/
def start : Style → String
  | .heading => control "1"
  | .branch => control "36"
  | .call => control "33"
  | .exit => control "31"
  | .faint => control "2"
  | .plain => control ""

/-- What switches a style off. -/
def stop : Style → String
  | .faint => control "22"
  | .plain => control ""
  | _ => control "0"

/-- Text in a style, if colour is wanted. -/
def paint (color : Bool) (style : Style) (s : String) : String :=
  if color then style.start ++ s ++ style.stop else s

end Style

/-- The style of an instruction of a role. -/
def styleOf : Kind → Style
  | .branch | .conditionalBranch => .branch
  | .call => .call
  | .ret | .throws => .exit
  | .nop => .faint
  | _ => .plain

/-- The lines of a method. -/
def method (color : Bool) (p : Program) (m : MethodId) : String :=
  let x := p.method m
  let title := Style.paint color .heading (".method " ++ x.ref.text ++ "\n")
  let content := match x.body with
    | none => "  // no body\n"
    | some b =>
      let slots := (p.localLines b).map fun s => "  " ++ s ++ "\n"
      let code := ((p.code b).zip (p.codeLines b)).map fun (i, s) =>
        "  " ++ (styleOf (p.instr i).kind).paint color s ++ "\n"
      String.join slots ++ String.join code
  "\n" ++ title ++ content

/-- Whether `part` occurs in `s`. -/
def occursIn (part : List Char) : List Char → Bool
  | [] => part.isEmpty
  | c :: rest => part.isPrefixOf (c :: rest) || occursIn part rest

/-- The listing of a file; methods whose full name does not contain `filter` are
left out. -/
def file (color : Bool) (f : File) (filter : String) : String :=
  let state := if f.header.isOptimized then "optimized" else "unoptimized"
  let title := Style.paint color .heading ("// " ++ f.assembly.name ++ " (" ++
    f.assembly.kind.extension ++ ", " ++ state ++ ")\n")
  let chosen := f.assembly.methods.filter fun m =>
    occursIn filter.toList (f.program.method m).fullName.toList
  title ++ String.join (chosen.map (method color f.program))

end Bytecode.Dump
