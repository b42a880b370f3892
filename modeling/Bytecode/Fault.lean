/-!
# What can go wrong

A `Cause` says what is wrong, a `Fault` adds where: a failure collects the
circumstances it passes through on its way out, the outermost first.  Misuse of
the instruction list is kept apart from failures, because no caller is meant to
handle it, and so are questions about things that are not there.
-/

namespace Bytecode

/-- A broken promise of a caller of the list primitives or the builder. -/
inductive Misuse where
  | foreignInstruction
  | missingInstruction
  | alreadyLinked
  | labelMarkedTwice
  | notABranch (mnemonic : String)
  deriving DecidableEq, Repr

/-- The wording of a misuse. -/
def Misuse.message : Misuse → String
  | .foreignInstruction => "il: instruction does not belong to this body"
  | .missingInstruction => "il: nil instruction"
  | .alreadyLinked => "il: instruction is already linked"
  | .labelMarkedTwice => "label already marked"
  | .notABranch mnemonic => "il: " ++ mnemonic ++ " is not a branch"

/-- Why an operation failed. -/
inductive Cause where
  | notBranch
  | notIndexed
  | invalidArgument
  | noContext
  | noFallthrough
  | invalidMagic
  | versionMismatch
  | corruptHeader
  | unexpectedEnd
  | invalidOpcode
  | invalidOperand
  | invalidIndex
  | danglingBranch
  | runNotFound
  | noSuchFile
  | malformedDocument
  | malformedConfig
  | exit (code : Nat) (text : String)
  | other (text : String)
  deriving DecidableEq, Repr

/-- The wording of a cause. -/
def Cause.message : Cause → String
  | .notBranch => "instruction is not a branch"
  | .notIndexed => "branch is not indexed under its target"
  | .invalidArgument => "invalid instruction argument"
  | .noContext => "no target instruction established"
  | .noFallthrough => "cannot delete last instruction with incoming branches"
  | .invalidMagic => "invalid magic number: expected ILAS"
  | .versionMismatch => "assembly format version mismatch"
  | .corruptHeader => "corrupt assembly header"
  | .unexpectedEnd => "unexpected end of code"
  | .invalidOpcode => "invalid opcode"
  | .invalidOperand => "invalid operand"
  | .invalidIndex => "invalid table index"
  | .danglingBranch => "branch target outside its body"
  | .runNotFound => "run not found"
  | .noSuchFile => "no such file or directory"
  | .malformedDocument => "malformed document"
  | .malformedConfig => "malformed configuration"
  | .exit _ text => text
  | .other text => text

/-- The ways an operation can end without a result. -/
inductive Fault where
  /-- It failed, under the given circumstances, the outermost first. -/
  | failed (circumstances : List String) (cause : Cause)
  /-- A caller broke a promise. -/
  | misuse (m : Misuse)
  /-- It was asked about something that is not there. -/
  | absent
  /-- It was stopped before it came to an end. -/
  | outOfFuel
  deriving DecidableEq, Repr

namespace Fault

/-- A failure without circumstances. -/
def of (cause : Cause) : Fault := .failed [] cause

/-- A failure of no named kind. -/
def text (s : String) : Fault := .of (.other s)

/-- Adds an outer circumstance to a failure; the other faults pass unchanged. -/
def within (circumstance : String) : Fault → Fault
  | .failed cs cause => .failed (circumstance :: cs) cause
  | f => f

/-- The circumstances and the cause, joined by colons. -/
def message : Fault → String
  | .failed cs cause => String.intercalate ": " (cs ++ [cause.message])
  | .misuse m => m.message
  | .absent => "nothing there"
  | .outOfFuel => "out of fuel"

/-- Adds a circumstance to the failure of a computation. -/
def during {α : Type} (circumstance : String) (x : Except Fault α) :
    Except Fault α :=
  x.mapError (within circumstance)

/-- Adds a circumstance to the failure of a computation with effects. -/
def duringAction {m : Type → Type} [Monad m] {α : Type} (circumstance : String)
    (x : ExceptT Fault m α) : ExceptT Fault m α :=
  ExceptT.mk (during circumstance <$> x.run)

end Fault

/-- What is done after something that may fail. -/
theorem bind_apply {ε α β S : Type} (x : ExceptT ε (StateM S) α)
    (f : α → ExceptT ε (StateM S) β) (s : S) :
    (x >>= f) s = match x s with
      | (.ok a, s') => f a s'
      | (.error e, s') => (.error e, s') := by
  change (match x s with | (a, s') => ExceptT.bindCont f a s') = _
  obtain ⟨a | a, s'⟩ := x s
  · rfl
  · rfl

/-- What is done if something has failed. -/
theorem tryCatch_apply {ε α S : Type} (x : ExceptT ε (StateM S) α)
    (f : ε → ExceptT ε (StateM S) α) (s : S) :
    tryCatch x f s = match x s with
      | (.ok a, s') => (.ok a, s')
      | (.error e, s') => f e s' := by
  simp only [tryCatch, tryCatchThe, MonadExceptOf.tryCatch, ExceptT.tryCatch,
    ExceptT.mk, bind, StateT.bind, pure]
  obtain ⟨e | a, s'⟩ := x s
  · rfl
  · rfl

end Bytecode
