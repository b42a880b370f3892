import Bytecode.Proofs.Copying
import Bytecode.Proofs.Resting
import Bytecode.Proofs.StackDepth
import Bytecode.Proofs.Visiting

/-!
# How bodies grow and shrink

The size of a program is the sum of the sizes of its methods, and a change of
one body changes it as it changes the size of that body.  By how much a pass
does so is told by its name, by the opcode that it was offered and by the number
of instructions that it copied, `Firing.growth`.

A local pass adds or removes one instruction at most, `Effect.length_code`.
Inlining adds as many as are copied of the callee, `Replaces.length_code`; the
call itself gives way to a nop.
-/

namespace Bytecode

/-! ### Sizes -/

namespace Program

variable {p q : Program} {b : BodyId} {m k : MethodId} {ms : List MethodId}

/-- The number of instructions in the body of a method. -/
def codeSize (p : Program) (m : MethodId) : Nat :=
  ((p.method m).body.map p.size).getD 0

theorem instrCount_eq_sum (p : Program) (ms : List MethodId) :
    p.instrCount ms = (ms.map p.codeSize).sum := by
  have hfold : ∀ (ms : List MethodId) (n : Nat),
      ms.foldl (fun n m => n + ((p.method m).body.map p.size).getD 0) n =
        n + (ms.map p.codeSize).sum := by
    intro ms
    induction ms with
    | nil => simp
    | cons m ms ih =>
        intro n
        rw [List.foldl_cons, ih, List.map_cons, List.sum_cons, codeSize,
          Nat.add_assoc]
  rw [instrCount, hfold, Nat.zero_add]

theorem codeSize_of_body (hp : p.WellLinked) (hb : (p.method m).body = some b) :
    p.codeSize m = (p.code b).length := by
  rw [codeSize, hb, Option.map_some, Option.getD_some, hp.size]

/-- A method whose body has not changed is as large as it was. -/
theorem codeSize_of_agree (hp : p.WellLinked) (hq : q.WellLinked)
    (hm : q.method m = p.method m)
    (h : ∀ b, (p.method m).body = some b → AgreeOn b p q) :
    q.codeSize m = p.codeSize m := by
  cases hb : (p.method m).body with
  | none =>
      rw [codeSize, codeSize, hm, hb]
      rfl
  | some b =>
      rw [codeSize_of_body hp hb, codeSize_of_body hq (hm ▸ hb),
        (h b hb).code_eq hp hq]

/-- A change of one body is a change of one method. -/
theorem ChangedIn.codeSize (h : ChangedIn b p q) (hp : p.WellLinked)
    (hq : q.WellLinked) (hshare : p.Unshared) (hb : (p.method m).body = some b)
    (hk : k ≠ m) : q.codeSize k = p.codeSize k := by
  refine codeSize_of_agree hp hq (h.method k) fun c hc => h.agreeOn hp ?_
  rintro rfl
  exact hk (hshare m k c hb hc)

/-- The size of all bodies together changes as the size of the one that is
changed. -/
theorem ChangedIn.instrCount (h : ChangedIn b p q) (hp : p.WellLinked)
    (hq : q.WellLinked) (hshare : p.Unshared) (hb : (p.method m).body = some b)
    (hnd : ms.Nodup) (hm : m ∈ ms) : q.instrCount ms + (p.code b).length =
    p.instrCount ms + (q.code b).length := by
  have hperm := List.perm_cons_erase hm
  have hothers : (ms.erase m).map q.codeSize = (ms.erase m).map p.codeSize := by
    refine List.map_congr_left fun k hk => h.codeSize hp hq hshare hb ?_
    rintro rfl
    exact hnd.not_mem_erase hk
  have hbq : (q.method m).body = some b := by rw [h.method, hb]
  rw [instrCount_eq_sum, instrCount_eq_sum, (hperm.map q.codeSize).sum_eq,
    (hperm.map p.codeSize).sum_eq, List.map_cons, List.map_cons, List.sum_cons,
    List.sum_cons, hothers, codeSize_of_body hp hb, codeSize_of_body hq hbq]
  omega

theorem card_contents (p : Program) (b : BodyId) :
    (p.contents b).card = (p.code b).length := by
  rw [contents, Multiset.coe_card, List.length_map]

end Program

/-! ### Firings -/

/-- A change that a pass has made: the instruction it was offered, and how many
instructions of a callee it has copied. -/
structure Firing where
  pass : Pass
  op : Opcode
  copied : Nat
  deriving DecidableEq

namespace Firing

/-- A branch to the very next instruction has been removed, and nothing has been
left. -/
def IsJump (x : Firing) : Prop :=
  x.pass = .removeDegenerateBranch ∧ x.op.kind = .branch

/-- A comparison that branches to the very next instruction has been replaced by
pops. -/
def IsComparison (x : Firing) : Prop :=
  x.pass = .removeDegenerateBranch ∧ x.op.operandCount = 2

instance : DecidablePred IsJump := fun x =>
  inferInstanceAs
    (Decidable (x.pass = .removeDegenerateBranch ∧ x.op.kind = .branch))

instance : DecidablePred IsComparison := fun x =>
  inferInstanceAs
    (Decidable (x.pass = .removeDegenerateBranch ∧ x.op.operandCount = 2))

/-- By how much a change makes a body larger. -/
def growth (x : Firing) : ℤ :=
  x.copied + (if x.IsComparison then 1 else 0) - (if x.IsJump then 1 else 0) -
    (if x.pass = .removeNop then 1
    else 0) - (if x.pass = .removeDeadCode then 1 else 0)

/-- By how much changes make bodies larger. -/
theorem sum_growth (log : List Firing) :
    (log.map growth).sum = (log.map (·.copied)).sum + log.countP IsComparison -
    log.countP IsJump - log.countP (fun x => x.pass = .removeNop) - log.countP
    fun x => x.pass = .removeDeadCode := by
  induction log with
  | nil => rfl
  | cons x log ih =>
      rw [List.map_cons, List.sum_cons, ih, growth]
      simp only [List.map_cons, List.sum_cons, List.countP_cons,
        decide_eq_true_eq]
      push_cast
      ring

end Firing

/-- Of the branches, only conditional ones take operands, and these take one or
two. -/
theorem Opcode.operandCount_cases {op : Opcode} (h : op.isBranch = true) :
    op.kind = .branch ∧ op.operandCount = 0 ∨
      op.kind ≠ .branch ∧ (op.operandCount = 1 ∨ op.operandCount = 2) := by
  have htable : ∀ r ∈ table, r.kind = .conditionalBranch →
      operandCount ⟨r.code⟩ = 1 ∨ operandCount ⟨r.code⟩ = 2 := by decide
  by_cases hkind : op.kind = .branch
  · exact Or.inl ⟨hkind,
      operandCount_of_kind (by simp [hkind]) (by simp [hkind])⟩
  · refine Or.inr ⟨hkind, ?_⟩
    have hcond : op.kind = .conditionalBranch := by
      rw [isBranch] at h
      cases hk : op.kind <;> simp_all [Kind.isBranch]
    rw [kind] at hcond
    split at hcond
    · next r hr =>
        have hcode : r.code = op.byte := by simpa using List.find?_some hr
        have htwo := htable r (List.mem_of_find?_eq_some hr) hcond
        rwa [hcode] at htwo
    · cases hcond

namespace Program

variable {p : Program} {b : BodyId} {i : InstrId}

theorem length_without (hp : p.WellLinked) (hi : i ∈ p.code b) :
    ((p.without b i).code b).length + 1 = (p.code b).length := by
  rw [code_without hp hi, List.length_erase_of_mem hi]
  exact Nat.sub_add_cancel (List.length_pos_of_mem hi)

theorem length_renewed (hp : p.WellLinked) (hi : i ∈ p.code b) (op : Opcode)
    (o : Operand) :
    ((p.renewed b i op o).code b).length = (p.code b).length := by
  rw [code_renewed hp hi, List.length_replace]

theorem length_withPops {mark : InstrId} (hp : p.WellLinked)
    (hmark : mark ∈ p.code b) (n : Nat) :
    ((withPops b mark n p).code b).length = n + (p.code b).length := by
  have hcard := congrArg Multiset.card (contents_withPops hp hmark n)
  rwa [Multiset.card_add, Multiset.card_replicate, card_contents, card_contents]
    at hcard

end Program

/-- **A local pass makes the body as much larger as its change grows it.** -/
theorem Editing.Effect.length_code {s : Editing} {i : InstrId} {pass : Pass}
    {q : Program} (he : s.Effect i pass q) (hs : s.Sound) (hi : i ∈ s.code) :
    ((q.code s.editor.body).length : ℤ) =
    s.code.length + Firing.growth ⟨pass, (s.program.instr i).op, 0⟩ := by
  have hp := hs.linked
  have hwithout := Program.length_without hp hi
  have hrenewed := Program.length_renewed hp hi
  rw [Editing.code]
  cases he with
  | exit => simp [Firing.growth, Firing.IsJump, Firing.IsComparison, hrenewed]
  | jump hbr _ _ hzero =>
      obtain ⟨hkind, -⟩ | ⟨-, hmany⟩ := Opcode.operandCount_cases hbr
      · have hgrowth : Firing.growth ⟨.removeDegenerateBranch,
            (s.program.instr i).op, 0⟩ = -1 := by
          simp [Firing.growth, Firing.IsJump, Firing.IsComparison, hkind, hzero]
        omega
      · omega
  | @pops n k hbr _ _ hmany =>
      obtain ⟨-, hzero⟩ | ⟨hkind, hmany'⟩ := Opcode.operandCount_cases hbr
      · omega
      · have hmark : (s.program.newInstr .pop .absent).1 ∈ (s.program.renewed
            s.editor.body i .pop .absent).code s.editor.body :=
          (Program.mem_code_renewed hp hi _ _).mpr (Or.inl rfl)
        have hgrowth : Firing.growth ⟨.removeDegenerateBranch,
            (s.program.instr i).op, 0⟩ = k := by
          rcases hmany' with hone | htwo
          · obtain rfl : k = 0 := by omega
            simp [Firing.growth, Firing.IsJump, Firing.IsComparison,
              hkind, hone]
          · obtain rfl : k = 1 := by omega
            simp [Firing.growth, Firing.IsJump, Firing.IsComparison,
              hkind, htwo]
        rw [Program.length_withPops (hp.renewed hi _ _) hmark,
          hrenewed, hgrowth]
        omega
  | nop =>
      have hgrowth :
          Firing.growth ⟨.removeNop, (s.program.instr i).op, 0⟩ = -1 := by
        simp [Firing.growth, Firing.IsJump, Firing.IsComparison]
      omega
  | dead =>
      have hgrowth :
          Firing.growth ⟨.removeDeadCode, (s.program.instr i).op, 0⟩ = -1 := by
        simp [Firing.growth, Firing.IsJump, Firing.IsComparison]
      omega
  | @chain mid t =>
      have hcode : (s.program.setTarget i (some t)).code s.editor.body =
          s.program.code s.editor.body :=
        Program.code_setTargets [i]
      simp [Firing.growth, Firing.IsJump, Firing.IsComparison, hcode]

/-! ### Copies -/

namespace Inline

variable {s s' : Editing} {c : BodyId} {call anchor : InstrId} {base : Nat}
  {code : List InstrId} {copies : List (InstrId × InstrId)}

/-- The copy loop makes one copy in each round but for a return in last
position. -/
theorem CopyRun.length_code (h : CopyRun base anchor code copies s s')
    (hs : s.Sound) (hanchor : anchor ∈ s.code)
    (hhas : ∀ i ∈ code, s.program.Has i) :
    s'.code.length = s.code.length + (copiedCode s.program code).length := by
  induction h with
  | stop => rfl
  | exit hret hs₁ hprog =>
      rw [copiedCode, if_pos ⟨rfl, hret⟩, Editing.code, hs₁.body, hprog,
        Program.code_redirect]
      rfl
  | @copy i rest copies s s₁ s' op o hmore _ hs₁ hprog _ ih =>
      have hanchor₁ : anchor ∈ s₁.code := by
        rw [Editing.code, hs₁.body, hprog, mem_code_copied hs.linked hanchor]
        exact Or.inr hanchor
      have hrest : ∀ k ∈ rest, s.program.Has k :=
        fun k hk => hhas k (List.mem_cons_of_mem _ hk)
      have hsame : copiedCode s₁.program rest = copiedCode s.program rest :=
        copiedCode_congr fun k hk => hs₁.changed.kind (hrest k hk)
      have hlonger : s₁.code.length = s.code.length + 1 := by
        have hmark : ∀ k ∈ some anchor, k ∈ s.code := by
          rintro k ⟨⟩
          exact hanchor
        rw [Editing.code, hs₁.body, hprog, code_copied hs.linked hanchor,
          (Program.placed_perm (hs.linked.nodup_code _) hmark).length_eq]
        rfl
      rw [ih hs₁.sound hanchor₁ fun k hk => hs₁.changed.has (hrest k hk), hsame,
        hlonger, copiedCode,
        if_neg fun hlast => hmore hlast.1 hlast.2, List.length_cons]
      omega

theorem TakesIn.length_code (h : TakesIn c anchor s s') (hs : s.Sound)
    (hanchor : anchor ∈ s.code) :
    s'.code.length = s.code.length + (copiedBody s.program c).length := by
  cases h with
  | nothing honce heq =>
      rw [heq, copiedBody, if_pos honce]
      rfl
  | @copies s₁ hslots hrun honce =>
      have hsame : copiedCode s₁.program (s.program.code c) =
          copiedCode s.program (s.program.code c) :=
        copiedCode_congr fun k _ => by rw [hslots.instr]
      rw [hrun.length_code hslots.sound (by rwa [hslots.code]) fun k hk =>
        hslots.changed.has (hs.linked.has hk), hslots.code, hsame, copiedBody,
        if_neg honce]

/-- **Inlining makes the body as much larger as is copied of the callee**: the
call gives way to a nop. -/
theorem Replaces.length_code (h : Replaces call c anchor s s') (hs : s.Sound)
    (hcall : call ∈ s.code) (hnext : s.program.next call = some anchor)
    (hc : c ≠ s.editor.body) :
    s'.code.length = s.code.length + (copiedBody s.program c).length := by
  obtain ⟨t, ht, htake⟩ := h.cleared hs hcall hnext
  have hagree := ht.changed.agreeOn hs.linked hc
  have hcode := hagree.code_eq hs.linked ht.sound.linked
  have hsame : copiedBody t.program c = copiedBody s.program c :=
    copiedBody_congr hcode fun i hi => by rw [hagree.instr_eq hs.linked hi]
  rw [htake.length_code ht.sound ht.anchor, hsame, Editing.code, ht.body,
    ht.program, Program.length_renewed hs.linked hcall]

end Inline

end Bytecode
