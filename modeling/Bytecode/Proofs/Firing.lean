import Bytecode.Optimizer.Pass
import Bytecode.Proofs.Editing

/-!
# What a local pass can do

A local pass is offered an instruction of a sound editor.  It never fails:
either it leaves everything as it is, or it makes the one change that `Effect`
lists for it.  What a change means for branches, counts or the meaning of the
code is then said by cases on `Effect`, without looking at the passes again.

What a body has besides its code is its frame: its slots, its bound of the stack
and its method.  Local passes change code and nothing else, so all frames stay
as they are. A body that is made through the list primitives numbers its slots
from zero.  The inliner relies on it: a copied access is given the slot of the
caller that takes the place of the callee's, and every such slot has a load, a
store and an address.
-/

namespace Bytecode

namespace Program

/-- The program with a fresh instruction in the place of `i`. -/
def renewed (p : Program) (b : BodyId) (i : InstrId) (op : Opcode)
    (o : Operand) : Program :=
  (p.newInstr op o).2.exchange b i (p.newInstr op o).1

/-- The program with a fresh instruction in front of `mark`. -/
def withNew (p : Program) (b : BodyId) (mark : InstrId) (op : Opcode)
    (o : Operand) : Program :=
  (p.newInstr op o).2.link b (p.newInstr op o).1
    (placed (some mark) (p.newInstr op o).1 (p.code b))

/-- The program with `n` fresh pops in front of `mark`. -/
def withPops (b : BodyId) (mark : InstrId) : Nat → Program → Program
  | 0, p => p
  | n + 1, p => withPops b mark n (p.withNew b mark .pop .absent)

variable {p : Program} {b : BodyId} {mark : InstrId}

/-- A new instruction is in no code. -/
theorem WellLinked.code_newInstr (h : p.WellLinked) (op : Opcode) (o : Operand)
    (b : BodyId) : (p.newInstr op o).2.code b = p.code b := by
  rw [(h.newInstr op o).code, h.code]
  rfl

/-- A fresh instruction is in no body. -/
theorem owner_fresh (op : Opcode) (o : Operand) :
    (p.newInstr op o).2.owner (p.newInstr op o).1 = none := by
  rw [owner, instr_newInstr, if_pos rfl]

section Renewed

variable {i : InstrId} (h : p.WellLinked)

include h

/-- A fresh instruction is not one of the body. -/
theorem WellLinked.newInstr_not_mem {op : Opcode} {o : Operand} :
    (p.newInstr op o).1 ∉ p.code b :=
  fun hmem => not_has_newInstr op o (h.has hmem)

variable (hi : i ∈ p.code b) (op : Opcode) (o : Operand)

include hi

/-- A new instruction stands where the old one was. -/
theorem code_renewed :
    (p.renewed b i op o).code b = (p.code b).replace i (p.newInstr op o).1 := by
  have hi' : i ∈ (p.newInstr op o).2.code b := by rwa [h.code_newInstr]
  rw [renewed, code_exchange (h.newInstr op o) hi', h.code_newInstr]

/-- The instructions after one has been renewed. -/
theorem mem_code_renewed {k : InstrId} : k ∈ (p.renewed b i op o).code b ↔
    k = (p.newInstr op o).1 ∨ k ∈ p.code b ∧ k ≠ i := by
  have hi' : i ∈ (p.newInstr op o).2.code b := by rwa [h.code_newInstr]
  rw [renewed, mem_code_exchange (h.newInstr op o) hi' (owner_fresh op o),
    h.code_newInstr]

/-- Renewing an instruction leaves all bodies well linked. -/
theorem WellLinked.renewed : (p.renewed b i op o).WellLinked :=
  (h.newInstr op o).exchange (by rwa [h.code_newInstr]) (has_newInstr op o)
    (owner_fresh op o)

/-- Only the body of the instruction is changed. -/
theorem changedIn_renewed : ChangedIn b p (p.renewed b i op o) :=
  (changedIn_newInstr op o).trans (changedIn_exchange (h.newInstr op o)
    (by rwa [h.code_newInstr]) (has_newInstr op o) (owner_fresh op o))

theorem op_renewed_self :
    ((p.renewed b i op o).instr (p.newInstr op o).1).op = op := by
  have hi' : i ∈ (p.newInstr op o).2.code b := by rwa [h.code_newInstr]
  rw [Program.renewed, op_exchange (h.newInstr op o) hi' (has_newInstr op o)
    (owner_fresh op o), instr_newInstr, if_pos rfl]

end Renewed

section WithNew

variable (h : p.WellLinked) (hmark : mark ∈ p.code b) (op : Opcode)
  (o : Operand)

include h hmark

/-- A new instruction stands in front of the mark. -/
theorem code_withNew : (p.withNew b mark op o).code b =
    placed (some mark) (p.newInstr op o).1 (p.code b) := by
  have hpresent : b.index < (p.newInstr op o).2.bodies.size := h.present hmark
  exact code_link (h.newInstr op o) hpresent _

/-- The instructions with a new one. -/
theorem mem_code_withNew {k : InstrId} : k ∈ (p.withNew b mark op o).code b ↔
    k = (p.newInstr op o).1 ∨ k ∈ p.code b := by
  have hmark' : ∀ k ∈ some mark, k ∈ p.code b := by
    rintro k ⟨⟩
    exact hmark
  rw [code_withNew h hmark, (placed_perm (h.nodup_code b) hmark').mem_iff,
    List.mem_cons]

/-- A new instruction in a body leaves all bodies well linked. -/
theorem WellLinked.withNew : (p.withNew b mark op o).WellLinked := by
  have hmark' : ∀ k ∈ some mark, k ∈ (p.newInstr op o).2.code b := by
    rintro k ⟨⟩
    rwa [h.code_newInstr]
  have hplace := (h.newInstr op o).place (h.present hmark) (has_newInstr op o)
    (owner_fresh op o) hmark'
  rwa [h.code_newInstr] at hplace

omit h hmark in
/-- The instructions that there were stay. -/
theorem instr_withNew (k : InstrId) :
    (p.withNew b mark op o).instr k =
      if k = (p.newInstr op o).1 then ⟨op, o, some b⟩ else p.instr k := by
  rw [Program.withNew, instr_link (has_newInstr op o), instr_newInstr,
    instr_newInstr, if_pos rfl]
  split
  · rfl
  · rfl

/-- Only the body of the mark is changed. -/
theorem changedIn_withNew : ChangedIn b p (p.withNew b mark op o) := by
  have hpresent : b.index < (p.newInstr op o).2.bodies.size := h.present hmark
  exact (changedIn_newInstr op o).trans
    (changedIn_link hpresent (has_newInstr op o) (owner_fresh op o) _)

end WithNew

end Program

namespace Editing

variable {s s' : Editing} {i : InstrId}

/-- What a pass can make of the program when `i` is on offer. -/
inductive Effect (s : Editing) (i : InstrId) : Pass → Program → Prop
  /-- A branch to an exit becomes a copy of that exit. -/
  | exit {t : InstrId} :
    (s.program.instr i).kind = .branch → s.program.target? i = some t →
    ((s.program.instr t).kind = .ret ∨ (s.program.instr t).kind = .throws) →
    Effect s i .branchToReturn (s.program.renewed s.editor.body i
      (s.program.instr t).op (s.program.instr t).operand)
  /-- A jump to what stands behind it goes. -/
  | jump {n : InstrId} :
    (s.program.instr i).isBranch = true → s.program.next i = some n →
    s.program.target? i = some n → (s.program.instr i).op.operandCount = 0 →
    Effect s i .removeDegenerateBranch (s.program.without s.editor.body i)
  /-- A test whose outcome does not matter becomes pops. -/
  | pops {n : InstrId} {k : Nat} : (s.program.instr i).isBranch = true →
    s.program.next i = some n → s.program.target? i = some n →
    (s.program.instr i).op.operandCount = k + 1 →
    Effect s i .removeDegenerateBranch
    (Program.withPops s.editor.body (s.program.newInstr .pop .absent).1 k
      (s.program.renewed s.editor.body i .pop .absent))
  | nop : (s.program.instr i).kind = .nop → s.Deletable i →
      Effect s i .removeNop (s.program.without s.editor.body i)
  | dead : s.program.first? s.editor.body ≠ some i → s.Unreached i →
      Effect s i .removeDeadCode (s.program.without s.editor.body i)
  /-- A branch to a branch goes on to the end of the chain. -/
  | chain {mid t : InstrId} : (s.program.instr i).isBranch = true →
    s.program.target? i = some mid → mid ≠ i →
    (s.program.instr mid).kind = .branch →
    Peephole.chainEnd? s.program (s.program.instrs.size + 1) [i] mid = some t →
    Effect s i .retargetDoubleBranch (s.program.setTarget i (some t))

/-- The editor has made a change. -/
structure Changed (s s' : Editing) : Prop extends Edited s s' where
  dirty : s'.editor.dirty = true

/-- The pass has succeeded, and it has done nothing or had its effect. -/
def Acts (s : Editing) (i : InstrId) (pass : Pass)
    (r : Except Fault Unit × Editing) : Prop :=
  ∃ s', r = (.ok (), s') ∧
    (Untouched s s' ∨ Changed s s' ∧ Effect s i pass s'.program)

/-- A pass that finds nothing acts as it should. -/
theorem acts_nothing (h : s.Sound) (pass : Pass) : Acts s i pass (.ok (), s) :=
  ⟨s, rfl, Or.inl (.refl h)⟩

/-- A change after an edit. -/
theorem Changed.trans {s'' : Editing} (h : Edited s s') (h' : Changed s' s'') :
    Changed s s'' :=
  ⟨h.trans h'.toEdited, h'.dirty⟩

theorem Untouched.trans {s'' : Editing} (h : Untouched s s')
    (h' : Untouched s' s'') : Untouched s s'' where
  sound := h'.sound
  program := h'.program.trans h.program
  editor := by rw [h'.editor, h.editor]

/-- The code stays as it is. -/
theorem Untouched.code (h : Untouched s s') : s'.code = s.code := by
  rw [Editing.code, Editing.code, h.program, h.editor]

/-! ### Edits that go through -/

/-- Deleting an instruction of the body that can be deleted. -/
theorem changed_delete (h : s.Sound) (ht : s.editor.target = some i)
    (hi : i ∈ s.code) (hd : s.Deletable i) :
    ∃ s', s.delete (some i) = (.ok (), s') ∧ Changed s s' ∧
      s'.program = s.program.without s.editor.body i := by
  obtain ⟨x, hx, heq⟩ := delete_eq h (by rw [ht]; rfl) hi hd
  exact ⟨_, heq, ⟨edited_deleted h ht hi hx, rfl⟩, rfl⟩

/-- Putting a fresh instruction that is no branch in the place of one of the
body. -/
theorem changed_renew (h : s.Sound) (ht : s.editor.target = some i)
    (hi : i ∈ s.code) (op : Opcode) (hop : op.isBranch = false) (o : Operand) :
    ∃ s', (s.newInstr op o).2.replace (some i) (some (s.newInstr op o).1) =
      (.ok (), s') ∧
      Changed s s' ∧ s'.program = s.program.renewed s.editor.body i op o := by
  have hnew := edited_newInstr h op o
  have hi' : i ∈ (s.newInstr op o).2.code := by
    have hcode : (s.newInstr op o).2.code = s.code :=
      h.linked.code_newInstr op o _
    rwa [hcode]
  have hhas : (s.newInstr op o).2.program.Has (s.newInstr op o).1 :=
    Program.has_newInstr op o
  have hfree : (s.newInstr op o).2.program.owner (s.newInstr op o).1 = none :=
    Program.owner_fresh op o
  have hfit : (s.newInstr op o).2.Fits i (s.newInstr op o).1 := by
    refine ⟨hfree, fun hbr => ?_⟩
    have hinstr : (s.newInstr op o).2.program.instr (s.newInstr op o).1 =
        ⟨op, o, none⟩ := by
      exact (Program.instr_newInstr op o _).trans (if_pos rfl)
    rw [hinstr, Instr.isBranch, hop] at hbr
    cases hbr
  have htarget : (s.newInstr op o).2.editor.target.isSome := by
    change s.editor.target.isSome
    rw [ht]
    rfl
  obtain ⟨x, hx, heq⟩ := replace_eq hnew.sound htarget hi' hhas hfit
  exact ⟨_, heq, Changed.trans hnew
    ⟨edited_replaced hnew.sound ht hi' hhas hfree hx, rfl⟩, rfl⟩

/-- Linking a fresh instruction in front of one of the body. -/
theorem changed_insert (h : s.Sound) {mark : InstrId} (hmark : mark ∈ s.code)
    (op : Opcode) (o : Operand) : ∃ s', (s.newInstr op o).2.insertBefore
      (some mark) (some (s.newInstr op o).1) = (.ok (), s') ∧ Changed s s' ∧
      s'.program = s.program.withNew s.editor.body mark op o := by
  have hnew := edited_newInstr h op o
  have hcode : (s.newInstr op o).2.code = s.code :=
    h.linked.code_newInstr op o _
  have hmark' : ∀ k ∈ some mark, k ∈ (s.newInstr op o).2.code := by
    rintro k ⟨⟩
    rwa [hcode]
  have hhas : (s.newInstr op o).2.program.Has (s.newInstr op o).1 :=
    Program.has_newInstr op o
  have hfree : (s.newInstr op o).2.program.owner (s.newInstr op o).1 = none :=
    Program.owner_fresh op o
  obtain ⟨x, hx, heq⟩ := insertBefore_eq hnew.sound hmark' hhas hfree
  refine ⟨_, heq, Changed.trans hnew
    ⟨edited_inserted hnew.sound hmark' hhas hfree hx, rfl⟩, ?_⟩
  rw [inserted, hcode]
  rfl

/-! ### The passes -/

/-- A branch to a return becomes one, and nothing else is done. -/
theorem branchToReturn_acts (h : s.Sound) (ht : s.editor.target = some i)
    (hi : i ∈ s.code) :
    Acts s i .branchToReturn (Peephole.branchToReturn s) := by
  rw [Peephole.branchToReturn, ht]
  simp only
  split
  · exact acts_nothing h _
  · next hk =>
      split
      · exact acts_nothing h _
      · next t htarget =>
          split
          · next hexit =>
              have hexit' : (s.program.instr t).kind = .ret ∨
                  (s.program.instr t).kind = .throws := by
                simpa using hexit
              have hop : (s.program.instr t).op.isBranch = false := by
                rw [Opcode.isBranch]
                rcases hexit' with hkind | hkind
                · rw [show (s.program.instr t).op.kind = .ret from hkind]
                  rfl
                · rw [show (s.program.instr t).op.kind = .throws from hkind]
                  rfl
              obtain ⟨s', heq, hs, hprog⟩ :=
                changed_renew h ht hi _ hop (s.program.instr t).operand
              refine ⟨s', heq, Or.inr ⟨hs, ?_⟩⟩
              rw [hprog]
              exact .exit (by simpa using hk) htarget hexit'
          · exact acts_nothing h _

/-- Pops are put in front of an instruction one after the other. -/
theorem insertPops_eq {mark : InstrId} (n : Nat) (h : s.Sound)
    (hmark : mark ∈ s.code) (hdirty : s.editor.dirty = true) :
    ∃ s', Peephole.insertPops mark n s = (.ok (), s') ∧ Changed s s' ∧
      s'.program = Program.withPops s.editor.body mark n s.program := by
  induction n generalizing s with
  | zero => exact ⟨s, rfl, ⟨.refl h, hdirty⟩, rfl⟩
  | succ n ih =>
      obtain ⟨s₁, heq₁, hs₁, hprog₁⟩ := changed_insert h hmark .pop .absent
      have hmark₁ : mark ∈ s₁.code := by
        rw [Editing.code, hs₁.body, hprog₁,
          Program.mem_code_withNew h.linked hmark]
        exact Or.inr hmark
      obtain ⟨s₂, heq₂, hs₂, hprog₂⟩ := ih hs₁.sound hmark₁ hs₁.dirty
      refine ⟨s₂, ?_, Changed.trans hs₁.toEdited hs₂, ?_⟩
      · rw [Peephole.insertPops]
        simp only [heq₁]
        exact heq₂
      · rw [hprog₂, hprog₁, hs₁.body]
        rfl

/-- Putting pops in the place of an instruction of the body. -/
theorem changed_pops (h : s.Sound) (ht : s.editor.target = some i)
    (hi : i ∈ s.code) (k : Nat) :
    ∃ s', (match (s.newInstr .pop .absent).2.replace (some i)
      (some (s.newInstr .pop .absent).1) with
        | (.error e, s) => (.error e, s)
        | (.ok _, s') => Peephole.insertPops (s.newInstr .pop .absent).1 k s') =
            (.ok (), s') ∧
      Changed s s' ∧ s'.program =
        Program.withPops s.editor.body (s.program.newInstr .pop .absent).1 k
        (s.program.renewed s.editor.body i .pop .absent) := by
  obtain ⟨s₁, heq₁, hs₁, hprog₁⟩ := changed_renew h ht hi .pop rfl .absent
  have hmark : (s.program.newInstr .pop .absent).1 ∈ s₁.code := by
    have hi' : i ∈ (s.program.newInstr .pop .absent).2.code s.editor.body := by
      rwa [h.linked.code_newInstr]
    rw [Editing.code, hprog₁, hs₁.body, Program.renewed,
      Program.mem_code_exchange (h.linked.newInstr _ _) hi'
      (Program.owner_fresh _ _)]
    exact Or.inl rfl
  obtain ⟨s₂, heq₂, hs₂, hprog₂⟩ := insertPops_eq k hs₁.sound hmark hs₁.dirty
  refine ⟨s₂, ?_, Changed.trans hs₁.toEdited hs₂, ?_⟩
  · simp only [heq₁]
    exact heq₂
  · rw [hprog₂, hprog₁, hs₁.body]

/-- The instruction behind the target, while the target is linked. -/
theorem nextInstruction_eq (h : s.Sound) (ht : s.editor.target = some i)
    (hi : i ∈ s.code) : s.nextInstruction = s.program.next i := by
  have howner : (s.program.owner i).isSome := by
    rw [h.linked.mem_code.mp hi]; rfl
  rw [nextInstruction, ht]
  exact if_pos howner

/-- A branch to what stands behind it always goes. -/
theorem removeDegenerateBranch_fires (h : s.Sound)
    (ht : s.editor.target = some i) (hi : i ∈ s.code) {n : InstrId}
    (hbr : (s.program.instr i).isBranch = true) (hn : s.program.next i = some n)
    (hto : s.program.target? i = some n) :
    ∃ s', Peephole.removeDegenerateBranch s = (.ok (), s') ∧ Changed s s' ∧
      Effect s i .removeDegenerateBranch s'.program := by
  have hto' : (s.program.instr i).target? = some n := hto
  rw [Peephole.removeDegenerateBranch, ht, nextInstruction_eq h ht hi, hn]
  simp only
  rw [if_neg (by simp [hbr, hto'])]
  cases hk : (s.program.instr i).op.operandCount with
  | zero =>
      obtain ⟨s', heq, hs, hprog⟩ :=
        changed_delete h ht hi (Or.inl (by rw [hn]; rfl))
      refine ⟨s', heq, hs, ?_⟩
      rw [hprog]
      exact .jump hbr hn hto hk
  | succ k =>
      obtain ⟨s', heq, hs, hprog⟩ := changed_pops h ht hi k
      refine ⟨s', heq, hs, ?_⟩
      rw [hprog]
      exact .pops hbr hn hto hk

/-- A branch to what follows it becomes pops, and nothing else is done. -/
theorem removeDegenerateBranch_acts (h : s.Sound)
    (ht : s.editor.target = some i) (hi : i ∈ s.code) :
    Acts s i .removeDegenerateBranch (Peephole.removeDegenerateBranch s) := by
  cases hn : s.program.next i with
  | none =>
      rw [Peephole.removeDegenerateBranch, ht, nextInstruction_eq h ht hi, hn]
      exact acts_nothing h _
  | some n =>
      by_cases hguard : (s.program.instr i).isBranch = true ∧
        s.program.target? i = some n
      · obtain ⟨s', heq, hs, heffect⟩ :=
          removeDegenerateBranch_fires h ht hi hguard.1 hn hguard.2
        exact ⟨s', heq, Or.inr ⟨hs, heffect⟩⟩
      · have hskip : (!(s.program.instr i).isBranch ||
            (s.program.instr i).target? ≠ some n) = true := by
          cases hbr : (s.program.instr i).isBranch with
          | false => rfl
          | true =>
              have hto : (s.program.instr i).target? ≠ some n :=
                fun hto => hguard ⟨hbr, hto⟩
              simp [hto]
        rw [Peephole.removeDegenerateBranch, ht, nextInstruction_eq h ht hi, hn]
        simp only
        rw [if_pos hskip]
        exact acts_nothing h _

/-- A nop is deleted if it can be, and nothing else is done. -/
theorem removeNop_acts (h : s.Sound) (ht : s.editor.target = some i)
    (hi : i ∈ s.code) : Acts s i .removeNop (Peephole.removeNop s) := by
  rw [Peephole.removeNop, ht]
  simp only
  split
  · exact acts_nothing h _
  · next hk =>
      obtain ⟨s₁, heq₁, hs₁⟩ := canDelete_eq h i
      simp only [heq₁]
      by_cases hd : s.Deletable i
      · rw [if_pos (by simpa using hd)]
        have hd₁ : s₁.Deletable i := by
          rw [Deletable, hs₁.program, hs₁.editor]
          exact hd
        obtain ⟨s', heq, hs, hprog⟩ :=
          changed_delete hs₁.sound (by rw [hs₁.editor]; exact ht)
            (by rwa [hs₁.code]) hd₁
        refine ⟨s', heq, Or.inr ⟨Changed.trans hs₁.edited hs, ?_⟩⟩
        rw [hprog, hs₁.program, hs₁.edited.body]
        exact .nop (by simpa using hk) hd
      · rw [if_neg (by simpa using hd)]
        exact ⟨s₁, rfl, Or.inl hs₁⟩

/-- What is not reached is deleted, and nothing else is done. -/
theorem removeDeadCode_acts (h : s.Sound) (ht : s.editor.target = some i)
    (hi : i ∈ s.code) :
    Acts s i .removeDeadCode (Peephole.removeDeadCode s) := by
  rw [Peephole.removeDeadCode, ht]
  simp only
  split
  · exact acts_nothing h _
  · next hfirst =>
      obtain ⟨sources, s₁, heq₁, hiff, hs₁⟩ := sourcesOf_eq h hi
      simp only [heq₁, List.isEmpty_iff]
      split
      · next hnil =>
          have hun := hiff.mp hnil
          have hd : s₁.Deletable i := by
            rw [Deletable, hs₁.program, hs₁.editor]
            exact Or.inr hun.1
          obtain ⟨s', heq, hs, hprog⟩ :=
            changed_delete hs₁.sound (by rw [hs₁.editor]; exact ht)
              (by rwa [hs₁.code]) hd
          refine ⟨s', heq, Or.inr ⟨Changed.trans hs₁.edited hs, ?_⟩⟩
          rw [hprog, hs₁.program, hs₁.edited.body]
          exact .dead hfirst hun
      · exact ⟨s₁, rfl, Or.inl hs₁⟩

/-- A branch to a branch gets its target, and nothing else is done. -/
theorem retargetDoubleBranch_acts (h : s.Sound) (ht : s.editor.target = some i)
    (hi : i ∈ s.code) :
    Acts s i .retargetDoubleBranch (Peephole.retargetDoubleBranch s) := by
  rw [Peephole.retargetDoubleBranch, ht]
  simp only
  split
  · exact acts_nothing h _
  · next mid hmid =>
      split
      · exact acts_nothing h _
      · next hguard =>
          obtain ⟨⟨hbr, hne⟩, hkind⟩ :
              ((s.program.instr i).isBranch = true ∧ mid ≠ i) ∧
              (s.program.instr mid).kind = .branch := by simpa using hguard
          split
          · exact acts_nothing h _
          · next t hend =>
              obtain ⟨x, hx, heq⟩ := retarget_eq h hi hbr (some t)
              exact ⟨_, heq, Or.inr ⟨⟨edited_retargeted h hi hbr hx, rfl⟩,
                .chain hbr hmid hne hkind hend⟩⟩

end Editing

/-! ### Slots and bounds of bodies -/

/-- A body without its code: slots, bound of the stack and method. -/
def Body.frame (x : Body) : Body := { x with code := [] }

namespace Program

variable {p q r : Program} {b c : BodyId} {i j mark t : InstrId}

/-- All bodies have the slots and bounds they had. -/
def SameFrames (p q : Program) : Prop :=
  ∀ c, (q.body c).frame = (p.body c).frame

theorem SameFrames.refl (p : Program) : SameFrames p p := fun _ => rfl

theorem SameFrames.trans (h : SameFrames p q) (h' : SameFrames q r) :
    SameFrames p r :=
  fun c => (h' c).trans (h c)

/-- Locals stay as they are. -/
theorem SameFrames.locals (h : SameFrames p q) (c : BodyId) :
    (q.body c).locals = (p.body c).locals :=
  (congrArg Body.locals (h c) :)

/-- Linking an instruction leaves slots. -/
theorem sameFrames_link (hb : b.index < p.bodies.size) (code : List InstrId) :
    SameFrames p (p.link b j code) := by
  intro c
  rw [body_link hb]
  split
  · next hc => rw [hc]; rfl
  · rfl

/-- Unlinking an instruction leaves slots. -/
theorem sameFrames_unlink (hb : b.index < p.bodies.size) :
    SameFrames p (p.unlink b i) := by
  intro c
  rw [body_unlink hb]
  split
  · next hc => rw [hc]; rfl
  · rfl

/-- Redirecting branches leaves slots. -/
theorem sameFrames_redirect (b : BodyId) (old new : Option InstrId) :
    SameFrames p (p.redirect b old new) := by
  intro c
  rw [body_redirect]

section Edits

variable (hp : p.WellLinked)

include hp

/-- Taking an instruction out leaves slots. -/
theorem sameFrames_without (hi : i ∈ p.code b) : SameFrames p (p.without b i) :=
  (sameFrames_unlink (hp.present hi)).trans (sameFrames_redirect b _ _)

/-- An exchange leaves slots. -/
theorem sameFrames_exchange (hi : i ∈ p.code b) :
    SameFrames p (p.exchange b i j) := by
  have hb := hp.present hi
  have hswap : SameFrames p (p.swap b i j) := by
    refine (sameFrames_unlink hb (i := i)).trans (sameFrames_link ?_ _)
    simpa [Program.unlink] using hb
  exact hswap.trans (sameFrames_redirect b _ _)

/-- Renewing an instruction leaves slots. -/
theorem sameFrames_renewed (hi : i ∈ p.code b) (op : Opcode) (o : Operand) :
    SameFrames p (p.renewed b i op o) :=
  sameFrames_exchange (p := (p.newInstr op o).2) (hp.newInstr op o)
    (by rwa [hp.code_newInstr])

/-- A new instruction leaves slots. -/
theorem sameFrames_withNew (hmark : mark ∈ p.code b) (op : Opcode)
    (o : Operand) : SameFrames p (p.withNew b mark op o) :=
  sameFrames_link (p := (p.newInstr op o).2) (hp.present hmark) _

/-- Pops leave slots. -/
theorem sameFrames_withPops (hmark : mark ∈ p.code b) (n : Nat) :
    SameFrames p (withPops b mark n p) := by
  induction n generalizing p with
  | zero => exact .refl p
  | succ n ih =>
      have hmark' := (mem_code_withNew hp hmark .pop .absent).mpr (Or.inr hmark)
      exact (sameFrames_withNew hp hmark _ _).trans
        (ih (hp.withNew hmark _ _) hmark')

end Edits

end Program

/-- Local passes change nothing but code. -/
theorem Editing.Effect.sameFrames {s : Editing} {i : InstrId} {pass : Pass}
    {q : Program} (he : s.Effect i pass q) (hs : s.Sound) (hi : i ∈ s.code) :
    Program.SameFrames s.program q := by
  have hp := hs.linked
  cases he with
  | exit => exact Program.sameFrames_renewed hp hi _ _
  | jump | nop | dead => exact Program.sameFrames_without hp hi
  | pops =>
      have hnew := hp.newInstr .pop .absent
      have hi' :
          i ∈ (s.program.newInstr .pop .absent).2.code s.editor.body := by
        rwa [hp.code_newInstr]
      have hfree := Program.owner_fresh (p := s.program) .pop .absent
      have hmark := (Program.mem_code_exchange hnew hi' hfree).mpr (Or.inl rfl)
      have hlinked := hnew.exchange hi' (Program.has_newInstr _ _) hfree
      exact (Program.sameFrames_renewed hp hi _ _).trans
        (Program.sameFrames_withPops hlinked hmark _)
  | chain => exact fun _ => rfl

/-! ### Slots numbered from zero -/

/-- A local that is there has a number below their count. -/
theorem Body.lt_of_localAt? {x : Body} {n : Int} (h : (x.localAt? n).isSome) :
    0 ≤ n ∧ n < x.locals.size := by
  obtain ⟨l, hl⟩ := Option.isSome_iff_exists.mp h
  obtain ⟨k, rfl, hk⟩ := localAt?_eq_some.mp hl
  have hlt := (Array.getElem?_eq_some_iff.mp hk).1
  omega

/-- A local that is there is one of them. -/
theorem Body.mem_of_localAt? {x : Body} {n : Int} {l : Local}
    (h : x.localAt? n = some l) : l ∈ x.locals := by
  obtain ⟨k, -, hk⟩ := localAt?_eq_some.mp h
  exact Array.mem_of_getElem? hk

/-- Only a slot below zero has no load and no store. -/
theorem Access.lt_zero_of_encode {a : Access} {l : Local}
    (h : a.encode l = none) : l.index < 0 := by
  have hdirect : ∀ {base short long : UInt8},
      encode.direct l base short long = none → l.index < 0 := by
    intro base short long h
    rw [encode.direct] at h
    split at h
    · assumption
    · split at h
      · cases h
      · split at h <;> cases h
  cases a with
  | address =>
      rw [encode] at h
      split at h <;> cases h
  | load => exact hdirect h
  | store => exact hdirect h

namespace Program

variable {p q : Program}

/-- No slot of any body has a number below zero. -/
def SlotsFromZero (p : Program) : Prop :=
  ∀ b, ∀ l ∈ (p.body b).locals, 0 ≤ l.index

/-- It is enough to look at the bodies that there are. -/
theorem slotsFromZero_iff : p.SlotsFromZero ↔
    ∀ n < p.bodies.size, ∀ l ∈ (p.body ⟨n⟩).locals.toList, 0 ≤ l.index := by
  constructor
  · exact fun h n _ l hl => h ⟨n⟩ l (Array.mem_toList_iff.mp hl)
  · intro h b l hl
    by_cases hb : b.index < p.bodies.size
    · exact h b.index hb l (Array.mem_toList_iff.mpr hl)
    · rw [body, Array.getD, dif_neg hb] at hl
      cases Array.not_mem_empty l hl

instance : Decidable p.SlotsFromZero := decidable_of_iff' _ slotsFromZero_iff

/-- Slots that are numbered from zero stay so. -/
theorem SlotsFromZero.sameFrames (h : p.SlotsFromZero) (hpq : SameFrames p q) :
    q.SlotsFromZero := by
  intro b l hl
  rw [hpq.locals] at hl
  exact h b l hl

/-- A slot that is declared is numbered by the slots there are. -/
theorem SlotsFromZero.addLocal (h : p.SlotsFromZero) {b : BodyId}
    (hb : b.index < p.bodies.size) (type name : String) :
    (p.addLocal b type name).2.SlotsFromZero := by
  intro c l hl
  rw [body_addLocal type name hb] at hl
  split at hl
  · rcases Array.mem_push.mp hl with hl | rfl
    · exact h b l hl
    · exact Int.natCast_nonneg _
  · exact h c l hl

end Program

end Bytecode
