import Bytecode.Proofs.Closed

/-!
# Running a body

A machine says what the instructions do to a state: each acts, tests or pops as
the machine has it, while nops, branches and exits mean the same on every
machine.  A run starts at the first instruction and comes to an end at a return,
at a throw or behind the last instruction; if an instruction fails it comes to
no end.

Two bodies are compared by simulation.  `Simulates` relates places in one
program to places in another, and `Simulates.ends` carries the end of a run
across.
-/

namespace Bytecode

/-- What the instructions do to a state of type `S`. -/
structure Machine (S : Type) where
  /-- What an instruction does that is not there to direct control.  It may
  fail. -/
  act : InstrId → Opcode → Operand → S → Option S
  /-- Whether a conditional branch is taken. -/
  test : Opcode → S → Bool
  /-- Takes one value from the stack. -/
  pop : S → Option S

/-- How a run ends. -/
inductive Exit where
  | returned
  | thrown
  /-- Control has run past the last instruction. -/
  | ranOff
  deriving DecidableEq, Repr

/-- The exit that an instruction of a given kind is. -/
def Kind.exit? : Kind → Option Exit
  | .ret => some .returned
  | .throws => some .thrown
  | _ => none

namespace Machine

variable {S : Type}

/-- Takes `n` values from the stack. -/
def pops (M : Machine S) : Nat → S → Option S
  | 0, st => some st
  | n + 1, st => (M.pop st).bind (M.pops n)

/-- What an instruction that is not there to direct control makes of the
state. -/
def work (M : Machine S) (p : Program) (i : InstrId) (st : S) : Option S :=
  let x := p.instr i
  if x.op = .pop then M.pop st else M.act i x.op x.operand st

/-- Where control goes from `i` and with which state.  Nowhere is behind the
last instruction; there is no step from an exit, or when the instruction
fails. -/
def step (M : Machine S) (p : Program) (i : InstrId) (st : S) :
    Option (Option InstrId × S) :=
  let x := p.instr i
  match x.kind with
  | .ret | .throws => none
  | .nop => some (p.next i, st)
  | .branch => (p.target? i).map fun t => (some t, st)
  | .conditionalBranch => (M.pops x.op.operandCount st).bind fun u =>
    if M.test x.op st then (p.target? i).map fun t => (some t, u)
    else some (p.next i, u)
  | _ => (M.work p i st).map fun u => (p.next i, u)

end Machine

/-- A run from a place with a state ends in a certain way with a certain
state. -/
inductive Ends {S : Type} (M : Machine S) (p : Program) :
    Option InstrId → S → Exit → S → Prop
  | past {st : S} : Ends M p none st .ranOff st
  | exit {i : InstrId} {st : S} {x : Exit} : (p.instr i).kind.exit? = some x →
      Ends M p (some i) st x st
  | step {i : InstrId} {st u w : S} {a : Option InstrId} {x : Exit} :
      M.step p i st = some (a, u) → Ends M p a u x w → Ends M p (some i) st x w

/-- The body has the same outcomes in both programs, on every machine and from
every state. -/
def SameMeaning (b : BodyId) (p q : Program) : Prop :=
  ∀ (S : Type) (M : Machine S) (st : S) (x : Exit) (u : S),
    Ends M q (q.first? b) st x u ↔ Ends M p (p.first? b) st x u

/-- A body means the same as itself. -/
theorem SameMeaning.refl (b : BodyId) (p : Program) : SameMeaning b p p :=
  fun _ _ _ _ _ => Iff.rfl

/-- Sameness of meaning is transitive. -/
theorem SameMeaning.trans {b : BodyId} {p q r : Program} (h : SameMeaning b p q)
    (h' : SameMeaning b q r) : SameMeaning b p r :=
  fun S M st x u => (h' S M st x u).trans (h S M st x u)

variable {S : Type} {M : Machine S} {p q : Program} {b : BodyId}
  {i k t : InstrId} {st u w : S} {x y : Exit} {a c : Option InstrId}

/-! ### Ends of runs -/

/-- An instruction that leaves the body takes no step. -/
theorem step_of_exit (h : (p.instr i).kind.exit? = some x) :
    M.step p i st = none := by
  rw [Machine.step]
  cases hk : (p.instr i).kind <;> simp [hk, Kind.exit?] at h ⊢

/-- Past the last instruction a run has run off. -/
theorem ends_none : Ends M p none st x u ↔ x = .ranOff ∧ u = st := by
  constructor
  · rintro ⟨⟩
    exact ⟨rfl, rfl⟩
  · rintro ⟨rfl, rfl⟩
    exact .past

/-- At an exit it has ended there. -/
theorem ends_exit (h : (p.instr i).kind.exit? = some x) :
    Ends M p (some i) st y u ↔ y = x ∧ u = st := by
  constructor
  · intro hends
    cases hends with
    | exit hy =>
        rw [h] at hy
        exact ⟨(Option.some.inj hy).symm, rfl⟩
    | step hstep _ =>
        rw [step_of_exit h] at hstep
        cases hstep
  · rintro ⟨rfl, rfl⟩
    exact .exit h

/-- A step decides how a run goes on. -/
theorem ends_step (h : M.step p i st = some (a, u)) :
    Ends M p (some i) st x w ↔ Ends M p a u x w := by
  constructor
  · intro hends
    cases hends with
    | exit hx =>
        rw [step_of_exit hx] at h
        cases h
    | step hstep hrest =>
        rw [h] at hstep
        cases hstep
        exact hrest
  · exact .step h

/-- A run has one end. -/
theorem Ends.unique (h : Ends M p a st x u) (h' : Ends M p a st y w) :
    y = x ∧ w = u := by
  induction h with
  | past => exact ends_none.mp h'
  | exit hx => exact (ends_exit hx).mp h'
  | step hstep _ ih => exact ih ((ends_step hstep).mp h')

/-! ### Simulation -/

/-- Places of `p` are related to places of `q` from which runs go the same
way. -/
structure Simulates (M : Machine S) (p q : Program)
    (R : Option InstrId → Option InstrId → Prop) : Prop where
  past : ∀ {c st}, R none c → Ends M q c st .ranOff st
  exit : ∀ {i c x st}, R (some i) c → (p.instr i).kind.exit? = some x →
    Ends M q c st x st
  step : ∀ {i c st a u}, R (some i) c → M.step p i st = some (a, u) →
    ∃ c', R a c' ∧ ∀ {x w}, Ends M q c' u x w → Ends M q c st x w

/-- What ends, ends in the same way in a simulating program. -/
theorem Simulates.ends {R : Option InstrId → Option InstrId → Prop}
    (h : Simulates M p q R) (hR : R a c) (hends : Ends M p a st x u) :
    Ends M q c st x u := by
  induction hends generalizing c with
  | past => exact h.past hR
  | exit hx => exact h.exit hR hx
  | step hstep _ ih =>
      obtain ⟨c', hR', hback⟩ := h.step hR hstep
      exact hback (ih hR')

/-- The places of a body: its instructions and the place behind the last one. -/
def Inside (p : Program) (b : BodyId) (a : Option InstrId) : Prop :=
  ∀ i ∈ a, i ∈ p.code b

/-- A place at an instruction is inside if the instruction is. -/
theorem inside_some : Inside p b (some i) ↔ i ∈ p.code b := by
  simp [Inside]

/-- The entry is inside. -/
theorem inside_first? (hp : p.WellLinked) : Inside p b (p.first? b) := by
  intro i hi
  rw [hp.first?] at hi
  exact List.mem_of_head? hi

/-- So is the successor of an instruction. -/
theorem inside_next (hp : p.WellLinked) (hi : i ∈ p.code b) :
    Inside p b (p.next i) := by
  intro k hk
  rw [hp.next hi] at hk
  exact mem_of_elemAfter? hk

/-- No instruction stands behind itself. -/
theorem Program.WellLinked.next_ne (hp : p.WellLinked) (hi : i ∈ p.code b) :
    p.next i ≠ some i := by
  intro hnext
  rw [hp.next hi] at hnext
  exact elemAfter?_ne (hp.nodup_code b) hnext rfl

/-! ### Where control can go -/

/-- Control can go on from `i` to the place `a`. -/
inductive Leads (p : Program) (i : InstrId) : Option InstrId → Prop
  | falls : (p.instr i).fallsThrough = true → Leads p i (p.next i)
  | jumps {t : InstrId} : (p.instr i).isBranch = true → p.target? i = some t →
    Leads p i (some t)

/-- Control does not leave a closed body in one step. -/
theorem inside_leads (hp : p.WellLinked) (hclosed : p.Closed b)
    (hi : i ∈ p.code b) (h : Leads p i a) : Inside p b a := by
  cases h with
  | falls => exact inside_next hp hi
  | jumps hbr ht =>
      obtain ⟨t', ht', htarget⟩ := hclosed i hi hbr
      rw [ht] at htarget
      cases htarget
      exact inside_some.mpr ht'

/-- What leads somewhere after places have been renamed has led to the place
before. -/
theorem leads_map {f : Option InstrId → Option InstrId}
    (hop : (q.instr i).op = (p.instr i).op) (hnext : q.next i = f (p.next i))
    (htarget : (p.instr i).isBranch = true → ∃ t t', p.target? i = some t ∧
      q.target? i = some t' ∧ f (some t) = some t') (h : Leads q i c) :
    ∃ a, Leads p i a ∧ c = f a := by
  have hbranch : (q.instr i).isBranch = (p.instr i).isBranch := by
    rw [Instr.isBranch, hop, Instr.isBranch]
  cases h with
  | falls hfalls =>
      refine ⟨p.next i, .falls ?_, hnext⟩
      rwa [Instr.fallsThrough, Instr.kind, hop] at hfalls
  | jumps hbr ht =>
      rw [hbranch] at hbr
      obtain ⟨t, t', ht₁, ht₂, hf⟩ := htarget hbr
      rw [ht] at ht₂
      exact ⟨some t, .jumps hbr ht₁, ht₂.trans hf.symm⟩

/-- The entry of a body depends on that body only. -/
theorem first?_agree (hp : p.WellLinked) (hq : q.WellLinked)
    (hpq : Program.AgreeOn b p q) : q.first? b = p.first? b := by
  rw [hq.first?, hp.first?, hq.code, hpq.body, ← hp.code]

/-- Control goes on alike where programs agree. -/
theorem leads_agree (hp : p.WellLinked) (hq : q.WellLinked)
    (hpq : Program.AgreeOn b p q) (hi : i ∈ p.code b) (h : Leads q i a) :
    Leads p i a := by
  have hcode : q.code b = p.code b := by rw [hq.code, hpq.body, hp.code]
  have hinstr : q.instr i = p.instr i := hpq.instr i (by rwa [← hp.code])
  cases h with
  | falls hfalls =>
      rw [hq.next (by rwa [hcode]), hcode, ← hp.next hi]
      rw [hinstr] at hfalls
      exact .falls hfalls
  | jumps hbr ht =>
      rw [hinstr] at hbr
      rw [Program.target?, hinstr] at ht
      exact .jumps hbr ht

/-- A step goes to the next instruction of one that falls through, or to the
target of a branch. -/
theorem leads_of_step (h : M.step p i st = some (a, u)) : Leads p i a := by
  have hfalls : (p.instr i).fallsThrough = (p.instr i).kind.fallsThrough := rfl
  have hbr : (p.instr i).isBranch = (p.instr i).kind.isBranch := rfl
  have hjump : (p.instr i).kind.isBranch = true → ∀ {u' : S},
      (p.target? i).map (fun t => (some t, u')) = some (a, u) →
      Leads p i a := by
    intro hkind u' hmap
    obtain ⟨t, ht, heq⟩ := Option.map_eq_some_iff.mp hmap
    cases heq
    exact .jumps (hbr.trans hkind) ht
  rw [Machine.step] at h
  cases hk : (p.instr i).kind with
  | ret | throws => simp [hk] at h
  | nop =>
      simp only [hk, Option.some.injEq, Prod.mk.injEq] at h
      rw [← h.1]
      exact .falls (by rw [hfalls, hk]; rfl)
  | branch =>
      simp only [hk] at h
      exact hjump (by rw [hk]; rfl) h
  | conditionalBranch =>
      simp only [hk] at h
      obtain ⟨u', -, h⟩ := Option.bind_eq_some_iff.mp h
      split at h
      · exact hjump (by rw [hk]; rfl) h
      · simp only [Option.some.injEq, Prod.mk.injEq] at h
        rw [← h.1]
        exact .falls (by rw [hfalls, hk]; rfl)
  | other | call | loadLocal | loadLocalAddress | storeLocal =>
      simp only [hk] at h
      obtain ⟨u', -, heq⟩ := Option.map_eq_some_iff.mp h
      cases heq
      exact .falls (by rw [hfalls, hk]; rfl)

/-- A closed body is not left before the run ends. -/
theorem inside_step (hp : p.WellLinked) (hclosed : p.Closed b)
    (hi : i ∈ p.code b) (h : M.step p i st = some (a, u)) : Inside p b a :=
  inside_leads hp hclosed hi (leads_of_step h)

/-! ### Renaming places -/

/-- An instruction that is the same in both programs, places being renamed by
`f`, makes the same step. -/
theorem step_map {f : Option InstrId → Option InstrId}
    (hop : (q.instr i).op = (p.instr i).op)
    (hoperand : (p.instr i).isBranch = false → (q.instr i).operand =
      (p.instr i).operand) (hnext : q.next i = f (p.next i))
    (htarget : (p.instr i).isBranch = true → ∃ t t', p.target? i = some t ∧
      q.target? i = some t' ∧ f (some t) = some t') :
    M.step q i st = (M.step p i st).map fun (a, u) => (f a, u) := by
  have hkind : (q.instr i).kind = (p.instr i).kind := by
    rw [Instr.kind, hop, Instr.kind]
  have hwork : (p.instr i).isBranch = false →
      M.work q i st = M.work p i st := by
    intro hbr
    simp only [Machine.work, hop, hoperand hbr]
  have hbranch : (p.instr i).isBranch = (p.instr i).kind.isBranch := rfl
  rw [Machine.step, Machine.step]
  simp only [hkind, hop, hnext]
  rw [hbranch] at hwork htarget
  cases hk : (p.instr i).kind with
  | ret | throws | nop => rfl
  | branch =>
      obtain ⟨t, t', ht, ht', hf⟩ := htarget (by rw [hk]; rfl)
      simp [ht, ht', hf]
  | conditionalBranch =>
      obtain ⟨t, t', ht, ht', hf⟩ := htarget (by rw [hk]; rfl)
      cases M.pops (p.instr i).op.operandCount st with
      | none => rfl
      | some u =>
          simp only [Option.bind_some, ht, ht']
          split
          · simp [hf]
          · rfl
  | other | call | loadLocal | loadLocalAddress | storeLocal =>
      simp only [hwork (by rw [hk]; rfl), Option.map_map]
      rfl

end Bytecode
