import Bytecode.Editor
import Bytecode.Optimizer.Inline

/-!
# Passes

The six passes under their configuration names, and the lists of them that a
configuration can ask for.
-/

namespace Bytecode.Peephole

/-! ### Local passes

Five passes that look at the instruction on offer and its surroundings.  Each
makes at most one change, through the editor; a pass that does not apply
leaves everything as it is.
-/

/-- Replaces an unconditional branch to an exit by a copy of that exit. -/
def branchToReturn (s : Editing) : Except Fault Unit × Editing :=
  match s.editor.target with
  | none => (.error .absent, s)
  | some i =>
    let x := s.program.instr i
    if x.kind ≠ .branch then (.ok (), s)
    else match x.target? with
      | none => (.ok (), s)
      | some t =>
        let kind := (s.program.instr t).kind
        if kind = .ret || kind = .throws then
          let (j, s) := s.copyInstr t
          s.replace (some i) (some j)
        else (.ok (), s)

/-- Links `n` further pops in front of `mark`. -/
def insertPops (mark : InstrId) : Nat → Editing → Except Fault Unit × Editing
  | 0, s => (.ok (), s)
  | n + 1, s =>
    let (j, s) := s.newInstr .pop .absent
    match s.insertBefore (some mark) (some j) with
    | (.error e, s) => (.error e, s)
    | (.ok _, s) => insertPops mark n s

/-- Removes a branch to the very next instruction.  A conditional branch still
takes its operands, so pops stay in its place. -/
def removeDegenerateBranch (s : Editing) : Except Fault Unit × Editing :=
  match s.editor.target with
  | none => (.error .absent, s)
  | some i =>
    let x := s.program.instr i
    match s.nextInstruction with
    | none => (.ok (), s)
    | some next =>
      if !x.isBranch || x.target? ≠ some next then (.ok (), s)
      else match x.op.operandCount with
        | 0 => s.delete (some i)
        | n + 1 =>
          let (pop, s) := s.newInstr .pop .absent
          match s.replace (some i) (some pop) with
          | (.error e, s) => (.error e, s)
          | (.ok _, s) => insertPops pop n s

/-- Deletes a nop. -/
def removeNop (s : Editing) : Except Fault Unit × Editing :=
  match s.editor.target with
  | none => (.error .absent, s)
  | some i =>
    if (s.program.instr i).kind ≠ .nop then (.ok (), s)
    else
      let (yes, s) := s.canDelete i
      if yes then s.delete (some i) else (.ok (), s)

/-- Deletes an instruction that control cannot reach in one step from anywhere.
The first instruction is the entry and stays. -/
def removeDeadCode (s : Editing) : Except Fault Unit × Editing :=
  match s.editor.target with
  | none => (.error .absent, s)
  | some i =>
    if s.program.first? s.editor.body = some i then (.ok (), s)
    else
      let (sources, s) := s.sourcesOf i
      if sources.isEmpty then s.delete (some i) else (.ok (), s)

/-- Follows unconditional branches from `i` to the first instruction of another
kind; a cycle or a missing target has no end. -/
def chainEnd? (p : Program) : Nat → List InstrId → InstrId → Option InstrId
  | 0, _, _ => none
  | fuel + 1, seen, i =>
    let x := p.instr i
    if x.kind ≠ .branch then some i
    else if i ∈ seen then none
    else x.target?.bind fun t => chainEnd? p fuel (i :: seen) t

/-- Points a branch to an unconditional branch at the end of that chain. -/
def retargetDoubleBranch (s : Editing) : Except Fault Unit × Editing :=
  match s.editor.target with
  | none => (.error .absent, s)
  | some i =>
    let p := s.program
    let x := p.instr i
    match x.target? with
    | none => (.ok (), s)
    | some mid =>
      if !x.isBranch || mid = i || (p.instr mid).kind ≠ .branch then (.ok (), s)
      else match chainEnd? p (p.instrs.size + 1) [i] mid with
        | none => (.ok (), s)
        | some t => s.retarget (some i) (some t)

end Bytecode.Peephole

namespace Bytecode

/-- A rule that is offered instructions.  It may have other methods optimised
first, through the function it is given. -/
structure Rule (σ : Type) where
  name : String
  apply : (Option MethodId → SessionM σ Unit) → VisitM σ Unit

/-- The built-in passes. -/
inductive Pass where
  | branchToReturn
  | inlineFunctionCall
  | removeDegenerateBranch
  | removeNop
  | removeDeadCode
  | retargetDoubleBranch
  deriving DecidableEq, Repr

namespace Pass

/-- The name of a pass in a configuration. -/
def name : Pass → String
  | .branchToReturn => "branch-to-return"
  | .inlineFunctionCall => "inline-function-call"
  | .removeDegenerateBranch => "remove-degenerate-branch"
  | .removeNop => "remove-nop"
  | .removeDeadCode => "remove-dead-code"
  | .retargetDoubleBranch => "retarget-double-branch"

/-- All passes. -/
def all : List Pass :=
  [.branchToReturn, .inlineFunctionCall, .removeDegenerateBranch, .removeNop,
    .removeDeadCode, .retargetDoubleBranch]

/-- The pass with a given name. -/
def ofName? (s : String) : Option Pass := all.find? fun p => p.name = s

/-- The standard order. -/
def standard : List Pass :=
  [.branchToReturn, .inlineFunctionCall, .removeDegenerateBranch, .removeNop,
    .removeDeadCode]

/-- A pass as a rule. -/
def rule {σ : Type} (cfg : InlineSettings) (p : Pass) : Rule σ where
  name := p.name
  apply optimize := match p with
    | .branchToReturn => Visit.tryEdit Peephole.branchToReturn
    | .inlineFunctionCall => Inline.apply cfg optimize
    | .removeDegenerateBranch => Visit.tryEdit Peephole.removeDegenerateBranch
    | .removeNop => Visit.tryEdit Peephole.removeNop
    | .removeDeadCode => Visit.tryEdit Peephole.removeDeadCode
    | .retargetDoubleBranch => Visit.tryEdit Peephole.retargetDoubleBranch

/-- The passes with the given names, in that order.  No name may be listed twice
or be unknown, and inlining needs a policy. -/
def ofNames (hasPolicy : Bool) (names : List String) :
    Except Fault (List Pass) :=
  go [] names
where
  /-- The passes of `names`, `seen` having come before. -/
  go (seen : List String) : List String → Except Fault (List Pass)
    | [] => .ok []
    | s :: rest => do
      if seen.contains s then
        throw (.text ("pass " ++ Text.quoted s ++ " listed twice"))
      match ofName? s with
      | none => throw (.text ("unknown pass " ++ Text.quoted s))
      | some p =>
        if p = .inlineFunctionCall && !hasPolicy then
          throw (.text "policy: nil inner policy")
        return p :: (← go (s :: seen) rest)

end Pass

end Bytecode
