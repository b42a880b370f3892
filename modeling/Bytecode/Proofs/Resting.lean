import Bytecode.Proofs.Callees
import Bytecode.Proofs.Visiting

/-!
# Bodies at rest

A local pass is idle at an instruction if it finds nothing to do there, which a
pass that has been offered the instruction and has made no change has shown.
Whether it is idle depends on the body, and on the opcodes of the instructions
that its branches go to.  Opcodes never change, so a pass that is idle in a body
stays idle while other bodies are changed, as long as no operand names an
instruction that is only made later.

The main statement is `Idle.agree`.
-/

namespace Bytecode

namespace Program

variable {p q r : Program} {b c : BodyId} {i j k t mark : InstrId} {op : Opcode}
  {o : Operand}

/-! ### Operands that name instructions -/

/-- The instructions that operands name have been made. -/
def Named (p : Program) : Prop := ∀ i t, p.target? i = some t → p.Has t

/-- It is enough to look at the instructions that there are. -/
theorem named_iff :
    p.Named ↔ ∀ n < p.instrs.size, ∀ t ∈ p.target? ⟨n⟩, p.Has t := by
  constructor
  · intro h n _ t ht
    exact h ⟨n⟩ t ht
  · intro h i t ht
    by_cases hi : p.Has i
    · exact h i.index hi t ht
    · rw [target?, instr_of_not_has hi] at ht
      cases ht

instance : Decidable p.Named := decidable_of_iff' _ named_iff

/-- Where an operand has changed, it names an instruction that is there. -/
theorem Named.mono (h : p.Named) (hgrown : p.instrs.size ≤ q.instrs.size)
    (hq : ∀ k, (q.instr k).operand = (p.instr k).operand ∨
      ∀ t, q.target? k = some t → q.Has t) : q.Named := by
  intro k t ht
  rcases hq k with hsame | hnew
  · have hp : p.target? k = some t := by
      rw [target?, Instr.target?, ← hsame]
      exact ht
    exact lt_of_lt_of_le (h k t hp) hgrown
  · exact hnew t ht

/-- A new instruction with a known target. -/
theorem Named.newInstr (h : p.Named) (op : Opcode)
    (ho : ∀ t, o.target? = some t → p.Has t) : (p.newInstr op o).2.Named := by
  have hgrown : p.instrs.size ≤ (p.newInstr op o).2.instrs.size := by
    simp [Program.newInstr]
  refine h.mono hgrown fun k => ?_
  rw [target?, instr_newInstr]
  split
  · exact Or.inr fun t ht => lt_of_lt_of_le (ho t ht) hgrown
  · exact Or.inl rfl

/-- Branches get a known target. -/
theorem Named.redirect (h : p.Named) (hp : p.WellLinked) (b : BodyId)
    (old : Option InstrId) {new : Option InstrId}
    (hnew : ∀ t, new = some t → p.Has t) : (p.redirect b old new).Named := by
  have hgrown := (changedIn_redirect hp b old new).grown
  refine h.mono hgrown fun k => ?_
  rw [target?, instr_redirect hp]
  split
  · refine Or.inr fun t ht => lt_of_lt_of_le (hnew t ?_) hgrown
    rwa [Instr.target?, Operand.target?_ofTarget] at ht
  · exact Or.inl rfl

/-- An instruction is taken out. -/
theorem Named.without (h : p.Named) (hp : p.WellLinked) (hi : i ∈ p.code b) :
    (p.without b i).Named := by
  have hunlinked : (p.unlink b i).Named := by
    refine h.mono (changedIn_unlink hp hi).grown fun k => ?_
    rw [instr_unlink (hp.has hi)]
    split
    · next hk => exact Or.inl (by rw [hk])
    · exact Or.inl rfl
  refine hunlinked.redirect (hp.unlink hi) b _ fun t ht => ?_
  rw [hp.next hi] at ht
  exact (changedIn_unlink hp hi).has (hp.has (mem_of_elemAfter? ht))

/-- An instruction is renewed with a known target. -/
theorem Named.renewed (h : p.Named) (hp : p.WellLinked) (hi : i ∈ p.code b)
    (op : Opcode) (ho : ∀ t, o.target? = some t → p.Has t) :
    (p.renewed b i op o).Named := by
  have hnew := hp.newInstr op o
  have hi' : i ∈ (p.newInstr op o).2.code b := by rwa [hp.code_newInstr]
  have hhas := has_newInstr (p := p) op o
  have hfree := owner_fresh (p := p) op o
  have hswap : ((p.newInstr op o).2.swap b i (p.newInstr op o).1).Named :=
    (h.newInstr op ho).mono (changedIn_swap hnew hi' hhas hfree).grown fun k =>
      Or.inl (operand_swap hnew hi' hhas hfree k)
  refine hswap.redirect (hnew.swap hi' hhas hfree) b _ fun t ht => ?_
  cases ht
  exact (changedIn_swap hnew hi' hhas hfree).has hhas

/-- A new instruction with a known target is put in a body. -/
theorem Named.withNew (h : p.Named) (hp : p.WellLinked)
    (hmark : mark ∈ p.code b) (op : Opcode)
    (ho : ∀ t, o.target? = some t → p.Has t) :
    (p.withNew b mark op o).Named := by
  have hgrown := (changedIn_withNew hp hmark op o).grown
  refine h.mono hgrown fun k => ?_
  rw [target?, instr_withNew]
  split
  · exact Or.inr fun t ht => lt_of_lt_of_le (ho t ht) hgrown
  · exact Or.inl rfl

/-- Pops have no target. -/
theorem Named.withPops (h : p.Named) (hp : p.WellLinked)
    (hmark : mark ∈ p.code b) (n : Nat) : (withPops b mark n p).Named := by
  induction n generalizing p with
  | zero => exact h
  | succ n ih =>
      exact ih (h.withNew hp hmark _ fun t ht => by cases ht)
        (hp.withNew hmark _ _)
        ((mem_code_withNew hp hmark _ _).mpr (Or.inr hmark))

/-- The end of a chain of branches is there. -/
theorem Named.chainEnd (h : p.Named) {n : Nat} {seen : List InstrId}
    (hi : p.Has i) (hend : Peephole.chainEnd? p n seen i = some t) :
    p.Has t := by
  induction n generalizing seen i with
  | zero => cases hend
  | succ n ih =>
      rw [Peephole.chainEnd?] at hend
      split at hend
      · cases hend
        exact hi
      · split at hend
        · cases hend
        · obtain ⟨k, hk, hrest⟩ := Option.bind_eq_some_iff.mp hend
          exact ih (h i k hk) hrest

end Program

/-- Local passes keep operands named. -/
theorem Editing.Effect.named {s : Editing} {i : InstrId} {pass : Pass}
    {q : Program} (he : s.Effect i pass q) (hs : s.Sound) (hi : i ∈ s.code)
    (h : s.program.Named) : q.Named := by
  have hp := hs.linked
  have hnone : ∀ t, Operand.absent.target? = some t → s.program.Has t :=
    fun t ht => by cases ht
  cases he with
  | @exit t => exact h.renewed hp hi _ fun u hu => h t u hu
  | jump | nop | dead => exact h.without hp hi
  | pops =>
      have hnew := hp.newInstr .pop .absent
      have hi' :
          i ∈ (s.program.newInstr .pop .absent).2.code s.editor.body := by
        rwa [hp.code_newInstr]
      have hfree := Program.owner_fresh (p := s.program) .pop .absent
      exact (h.renewed hp hi .pop hnone).withPops
        (hnew.exchange hi' (Program.has_newInstr _ _) hfree)
        ((Program.mem_code_exchange hnew hi' hfree).mpr (Or.inl rfl)) _
  | @chain mid t _ hmid _ _ hend =>
      have ht : s.program.Has t := h.chainEnd (h i mid hmid) hend
      have hgrown : s.program.instrs.size ≤
          (s.program.setTarget i (some t)).instrs.size := by
        simp [Program.setTarget, Program.setOperand]
      refine h.mono hgrown fun k => ?_
      rw [Program.target?, Program.instr_setTarget (hp.has hi)]
      split
      · refine Or.inr fun u hu => ?_
        rw [Instr.target?, Operand.target?_ofTarget] at hu
        cases hu
        exact lt_of_lt_of_le ht hgrown
      · exact Or.inl rfl

namespace Inline

variable {s s' : Editing} {base : Nat} {anchor call : InstrId}
  {code : List InstrId} {copies : List (InstrId × InstrId)} {c : BodyId}
  {op : Opcode} {o : Operand} {x : Instr}

/-- An access to a slot names no instruction. -/
theorem target?_encode {a : Access} {l : Local}
    (h : a.encode l = some (op, o)) : o.target? = none := by
  have hdirect : ∀ {base short long : UInt8},
      Access.encode.direct l base short long = some (op, o) →
      o.target? = none := by
    intro base short long h
    rw [Access.encode.direct] at h
    split at h
    · cases h
    · split at h
      · cases h
        rfl
      · split at h
        · cases h
          rfl
        · cases h
          rfl
  cases a with
  | load => exact hdirect h
  | store => exact hdirect h
  | address =>
      rw [Access.encode] at h
      split at h
      · cases h
        rfl
      · cases h
        rfl

/-- What the operand of a copy names. -/
theorem target?_copyOf {t : InstrId}
    (h : copyOf s x base anchor copies = .ok (op, o))
    (ht : o.target? = some t) :
    t = anchor ∨ (∃ k, copies.lookup k = some t) ∨ x.target? = some t := by
  rw [copyOf] at h
  split at h
  · cases h
    exact Or.inl (Option.some.inj ht).symm
  · split at h
    · split at h
      · next k hk =>
          cases h
          obtain ⟨u, -, hlook⟩ := Option.bind_eq_some_iff.mp hk
          obtain rfl : k = t := Option.some.inj ht
          exact Or.inr (Or.inl ⟨u, hlook⟩)
      · cases h
        exact Or.inr (Or.inr ht)
    · simp only at h
      split at h
      · split at h
        · next y hy =>
            cases h
            rw [target?_encode hy] at ht
            cases ht
        · cases h
      · cases h
        exact Or.inr (Or.inr ht)

/-- Copies of branches get known targets. -/
theorem CopyRun.named (hrun : CopyRun base anchor code copies s s')
    (hs : s.Sound) (hanchor : anchor ∈ s.code) (h : s.program.Named)
    (hcopies : ∀ k t, copies.lookup k = some t → s.program.Has t) :
    s'.program.Named := by
  induction hrun with
  | stop => exact h
  | exit _ _ hprog =>
      rw [hprog]
      refine h.redirect hs.linked _ _ fun t ht => ?_
      cases ht
      exact hs.linked.has hanchor
  | @copy i rest copies s s₁ s' op o _ hcopy hs₁ hprog _ ih =>
      have hp := hs.linked
      have hanchor₁ : anchor ∈ s₁.code := by
        rw [Editing.code, hs₁.body, hprog, mem_code_copied hp hanchor]
        exact Or.inr hanchor
      have ho : ∀ t, o.target? = some t → s.program.Has t := by
        intro t ht
        rcases target?_copyOf hcopy ht with rfl | ⟨k, hk⟩ | hx
        · exact hp.has hanchor
        · exact hcopies k t hk
        · exact h i t hx
      have hfresh : (s.program.withNew s.editor.body anchor op o).Has
          (s.program.newInstr op o).1 :=
        (hp.withNew hanchor op o).has
          ((Program.mem_code_withNew hp hanchor op o).mpr (Or.inl rfl))
      have hnamed : s₁.program.Named := by
        rw [hprog]
        refine (h.withNew hp hanchor op ho).redirect
          (hp.withNew hanchor op o) _ _ fun t ht => ?_
        cases ht
        exact hfresh
      refine ih hs₁.sound hanchor₁ hnamed fun k t hk => ?_
      rw [List.lookup_cons] at hk
      split at hk
      · cases hk
        rw [hprog]
        exact (Program.changedIn_redirect
          (hp.withNew hanchor op o) _ _ _).has hfresh
      · exact hs₁.changed.has (hcopies k t hk)

/-- Code that is taken in has known targets. -/
theorem TakesIn.named (htake : TakesIn c anchor s s')
    (hanchor : anchor ∈ s.code) (h : s.program.Named) : s'.program.Named := by
  cases htake with
  | nothing _ heq => rwa [heq]
  | @copies s₁ hslots hrun =>
      have hanchor₁ : anchor ∈ s₁.code := by
        rwa [Editing.code, hslots.body, hslots.codes]
      have hnamed : s₁.program.Named := by
        refine h.mono hslots.changed.grown fun k => Or.inl ?_
        rw [Program.instr, hslots.instrs]
        rfl
      exact hrun.named hslots.sound hanchor₁ hnamed fun k t hk => by cases hk

/-- Taking in a call keeps operands named. -/
theorem Replaces.named (h : Replaces call c anchor s s') (hs : s.Sound)
    (hcall : call ∈ s.code) (hnext : s.program.next call = some anchor)
    (hnamed : s.program.Named) : s'.program.Named := by
  obtain ⟨t, ht, htake⟩ := h.cleared hs hcall hnext
  refine htake.named ht.anchor ?_
  rw [ht.program]
  exact hnamed.renewed hs.linked hcall .nop fun t ht => by cases ht

end Inline

/-! ### Idle passes -/

namespace Program

variable {p q r : Program} {b c : BodyId} {i j k : InstrId} {pass : Pass}

/-- `q` comes later than `p`: it has the instructions of `p`, with their
opcodes. -/
structure Precedes (p q : Program) : Prop where
  grown : p.instrs.size ≤ q.instrs.size
  op : ∀ i, p.Has i → (q.instr i).op = (p.instr i).op

theorem Precedes.refl (p : Program) : p.Precedes p := ⟨le_rfl, fun _ _ => rfl⟩

/-- One program before the other. -/
theorem Precedes.trans (h : p.Precedes q) (h' : q.Precedes r) :
    p.Precedes r where
  grown := h.grown.trans h'.grown
  op := fun i hi => (h'.op i (lt_of_lt_of_le hi h.grown)).trans (h.op i hi)

/-- A change of one body comes after what was there. -/
theorem ChangedIn.precedes (h : ChangedIn b p q) : p.Precedes q :=
  ⟨h.grown, h.op⟩

/-- The pass finds nothing to do at `i`. -/
def Idle (p : Program) (b : BodyId) (i : InstrId) (pass : Pass) : Prop :=
  ∀ e : Editor, e.body = b → ∀ q, ¬ Editing.Effect ⟨p, e⟩ i pass q

/-- The inliner has no effect of its own. -/
theorem idle_inline : p.Idle b i .inlineFunctionCall := by
  rintro e - q he
  cases he

section Agree

variable (hp : p.WellLinked) (hq : q.WellLinked) (hpq : AgreeOn b p q)

include hp hq hpq

/-- The code of the body is the same. -/
theorem AgreeOn.code_eq : q.code b = p.code b := by
  rw [hq.code, hpq.body, hp.code]

omit hq in
/-- Its instructions are the same. -/
theorem AgreeOn.instr_eq (hi : i ∈ p.code b) : q.instr i = p.instr i :=
  hpq.instr i (by rwa [← hp.code])

/-- What follows them is the same. -/
theorem AgreeOn.next_eq (hi : i ∈ p.code b) : q.next i = p.next i := by
  have hcode := hpq.code_eq hp hq
  rw [hq.next (by rwa [hcode]), hp.next hi, hcode]

/-- What is in front of them is the same. -/
theorem AgreeOn.prev_eq (hi : i ∈ p.code b) : q.prev i = p.prev i := by
  have hcode := hpq.code_eq hp hq
  rw [hq.prev (by rwa [hcode]), hp.prev hi, hcode]

/-- The branches to a target are the same. -/
theorem AgreeOn.branchesTo_eq (t : Option InstrId) :
    q.branchesTo b t = p.branchesTo b t := by
  rw [branchesTo, branchesTo, hpq.code_eq hp hq]
  refine List.filter_congr fun k hk => ?_
  rw [target?, target?, hpq.instr_eq hp hk]

/-- **A pass stays idle** in a body while other bodies are changed. -/
theorem Idle.agree (h : p.Idle b i pass) (hpass : pass ≠ .retargetDoubleBranch)
    (hlater : p.Precedes q) (hnamed : p.Named) (hi : i ∈ p.code b) :
    q.Idle b i pass := by
  rintro e rfl r he
  have hinstr := hpq.instr_eq hp hi
  have htarget : q.target? i = p.target? i := by rw [target?, target?, hinstr]
  have hnext := hpq.next_eq hp hq hi
  have hbranches := hpq.branchesTo_eq hp hq (some i)
  cases he with
  | @exit t hkind ht hexit =>
      simp only [hinstr, htarget] at hkind ht
      have hop : (q.instr t).kind = (p.instr t).kind := by
        rw [Instr.kind, hlater.op t (hnamed i t ht), Instr.kind]
      simp only [hop] at hexit
      exact h e rfl _ (.exit hkind ht hexit)
  | jump hbr hn ht hk =>
      simp only [hinstr, htarget, hnext] at hbr hn ht hk
      exact h e rfl _ (.jump hbr hn ht hk)
  | pops hbr hn ht hk =>
      simp only [hinstr, htarget, hnext] at hbr hn ht hk
      exact h e rfl _ (.pops hbr hn ht hk)
  | nop hkind hd =>
      simp only [hinstr, Editing.Deletable, hnext, hbranches] at hkind hd
      exact h e rfl _ (.nop hkind hd)
  | dead hfirst hun =>
      simp only [hq.first?, hpq.code_eq hp hq, ← hp.first?] at hfirst
      refine h e rfl _ (.dead hfirst ⟨?_, fun k hk => ?_⟩)
      · rw [← hbranches]
        exact hun.1
      · have hprev := hpq.prev_eq hp hq hi
        have hmem : k ∈ p.code e.body := by
          have hk' : p.prev i = some k := hk
          rw [hp.prev hi] at hk'
          exact mem_of_elemBefore? hk'
        have hfalls := hun.2 k (by rw [hprev]; exact hk)
        rwa [hpq.instr_eq hp hmem] at hfalls
  | chain => exact absurd rfl hpass

end Agree

end Program

namespace Editing

variable {s s' : Editing} {i n t : InstrId} {k : Nat} {p q : Program}
  {pass : Pass}

/-- Of the editor, only the body matters. -/
theorem Effect.of_body {e e' : Editor} (h : Effect ⟨p, e⟩ i pass q)
    (he : e'.body = e.body) : Effect ⟨p, e'⟩ i pass q := by
  cases h with
  | exit hkind hto hexit =>
      rw [← he]
      exact .exit hkind hto hexit
  | jump hbr hn hto hk =>
      rw [← he]
      exact .jump hbr hn hto hk
  | pops hbr hn hto hk =>
      rw [← he]
      exact .pops hbr hn hto hk
  | nop hkind hd =>
      rw [Deletable, ← he] at hd
      rw [← he]
      exact .nop hkind hd
  | dead hfirst hun =>
      rw [Unreached, ← he] at hun
      rw [← he] at hfirst ⊢
      exact .dead hfirst hun
  | chain hbr hmid hne hkind hend => exact .chain hbr hmid hne hkind hend

/-! ### Passes that are not idle -/

/-- A branch to a return is something to do. -/
theorem branchToReturn_dirty (h : s.Sound) (htarget : s.editor.target = some i)
    (hi : i ∈ s.code) (hkind : (s.program.instr i).kind = .branch)
    (hto : s.program.target? i = some t) (hexit : (s.program.instr t).kind =
      .ret ∨ (s.program.instr t).kind = .throws) :
    (Peephole.branchToReturn s).2.editor.dirty = true := by
  have hop : (s.program.instr t).op.isBranch = false := by
    rw [Opcode.isBranch]
    rcases hexit with hkind | hkind
    · rw [show (s.program.instr t).op.kind = .ret from hkind]
      rfl
    · rw [show (s.program.instr t).op.kind = .throws from hkind]
      rfl
  obtain ⟨s', heq, hs, -⟩ :=
    changed_renew h htarget hi _ hop (s.program.instr t).operand
  have hto' : (s.program.instr i).target? = some t := hto
  rw [Peephole.branchToReturn, htarget]
  simp only [hto']
  rw [if_neg (by simp [hkind]), if_pos (by simpa using hexit)]
  change ((s.newInstr _ _).2.replace (some i)
    (some (s.newInstr _ _).1)).2.editor.dirty = true
  rw [heq]
  exact hs.dirty

/-- A branch to what follows it is something to do. -/
theorem removeDegenerateBranch_dirty (h : s.Sound)
    (htarget : s.editor.target = some i) (hi : i ∈ s.code)
    (hbr : (s.program.instr i).isBranch = true) (hn : s.program.next i = some n)
    (hto : s.program.target? i = some n) :
    (Peephole.removeDegenerateBranch s).2.editor.dirty = true := by
  obtain ⟨s', heq, hs, -⟩ :=
    removeDegenerateBranch_fires h htarget hi hbr hn hto
  rw [heq]
  exact hs.dirty

/-- A nop that can be deleted is something to do. -/
theorem removeNop_dirty (h : s.Sound) (htarget : s.editor.target = some i)
    (hi : i ∈ s.code) (hkind : (s.program.instr i).kind = .nop)
    (hd : s.Deletable i) : (Peephole.removeNop s).2.editor.dirty = true := by
  obtain ⟨s₁, heq₁, hs₁⟩ := canDelete_eq h i
  have hd₁ : s₁.Deletable i := by
    rw [Deletable, hs₁.program, hs₁.editor]
    exact hd
  obtain ⟨s', heq, hs, -⟩ :=
    changed_delete hs₁.sound (by rw [hs₁.editor]; exact htarget)
      (by rwa [hs₁.code]) hd₁
  rw [Peephole.removeNop, htarget]
  simp only [heq₁]
  rw [if_neg (by simp [hkind]), if_pos (by simpa using hd), heq]
  exact hs.dirty

/-- An unreached instruction is something to do. -/
theorem removeDeadCode_dirty (h : s.Sound) (htarget : s.editor.target = some i)
    (hi : i ∈ s.code) (hfirst : s.program.first? s.editor.body ≠ some i)
    (hun : s.Unreached i) :
    (Peephole.removeDeadCode s).2.editor.dirty = true := by
  obtain ⟨sources, s₁, heq₁, hiff, hs₁⟩ := sourcesOf_eq h hi
  have hd₁ : s₁.Deletable i := by
    rw [Deletable, hs₁.program, hs₁.editor]
    exact Or.inr hun.1
  obtain ⟨s', heq, hs, -⟩ :=
    changed_delete hs₁.sound (by rw [hs₁.editor]; exact htarget)
      (by rwa [hs₁.code]) hd₁
  rw [Peephole.removeDeadCode, htarget]
  simp only [heq₁]
  rw [if_neg hfirst, if_pos (by rw [hiff.mpr hun]; rfl), heq]
  exact hs.dirty

/-- A branch to a branch is something to do. -/
theorem retargetDoubleBranch_dirty {mid : InstrId} (h : s.Sound)
    (htarget : s.editor.target = some i) (hi : i ∈ s.code)
    (hbr : (s.program.instr i).isBranch = true)
    (hmid : s.program.target? i = some mid) (hne : mid ≠ i)
    (hkind : (s.program.instr mid).kind = .branch)
    (hend : Peephole.chainEnd? s.program (s.program.instrs.size + 1) [i] mid =
      some t) : (Peephole.retargetDoubleBranch s).2.editor.dirty = true := by
  have hmid' : (s.program.instr i).target? = some mid := hmid
  obtain ⟨x, -, heq⟩ := retarget_eq h hi hbr (some t)
  rw [Peephole.retargetDoubleBranch, htarget]
  simp only [hmid']
  rw [if_neg (by simp [hbr, hne, hkind]), hend]
  simp only [heq]
  rfl

/-- **A pass that is not idle makes a change.** -/
theorem Effect.dirty {cfg : InlineSettings} {σ : Type} {v : Visit σ}
    (he : v.editing.Effect i pass q) (h : v.editing.Sound)
    (htarget : v.editor.target = some i) (hi : i ∈ v.editing.code)
    (optimize : Option MethodId → SessionM σ Unit) :
    ((pass.rule cfg).apply optimize v).2.editor.dirty = true := by
  cases he with
  | exit hkind hto hexit =>
      exact branchToReturn_dirty h htarget hi hkind hto hexit
  | jump hbr hn hto =>
      exact removeDegenerateBranch_dirty h htarget hi hbr hn hto
  | pops hbr hn hto =>
      exact removeDegenerateBranch_dirty h htarget hi hbr hn hto
  | nop hkind hd => exact removeNop_dirty h htarget hi hkind hd
  | dead hfirst hun => exact removeDeadCode_dirty h htarget hi hfirst hun
  | chain hbr hmid hne hkind hend =>
      exact retargetDoubleBranch_dirty h htarget hi hbr hmid hne hkind hend

end Editing

/-- A pass that has made no change is idle. -/
theorem idle_of_clean {σ : Type} {v : Visit σ} {i : InstrId} {pass : Pass}
    {cfg : InlineSettings} {optimize : Option MethodId → SessionM σ Unit}
    (h : v.editing.Sound) (htarget : v.editor.target = some i)
    (hi : i ∈ v.editing.code)
    (hclean : ((pass.rule cfg).apply optimize v).2.editor.dirty = false) :
    v.session.program.Idle v.editor.body i pass := by
  intro e he q heffect
  have heffect' : v.editing.Effect i pass q := heffect.of_body he.symm
  rw [heffect'.dirty h htarget hi optimize] at hclean
  cases hclean

end Bytecode
