import Bytecode.Proofs.CleanUp

/-!
# How deep the stack gets

Each instruction raises or lowers the evaluation stack by a fixed amount; for a
call it depends on the method that is named.  A path through a body adds these
amounts up, and `Comes` says with which depths control can come to a place.

A local pass gives control no depth at a place that it did not have there, or at
the place that this one stands for.  There is one exception, which has no lemma
here: a comparison of two values that has become pointless is replaced by two
pops, and a branch to the comparison is sent to the second one.
-/

namespace Bytecode

/-- By how much an opcode without a role of its own raises the stack. -/
def Opcode.stackEffect (op : Opcode) (o : Operand) : Int :=
  if 0x20 ≤ op.byte ∧ op.byte ≤ 0x25 ∨ op.byte = 0x42 then 1
  else if op.byte = 0x35 ∨ op.byte = 0x39 then 0
  else if op = .pop ∨ 0x30 ≤ op.byte ∧ op.byte ≤ 0x3c ∨ op.byte = 0x43 then -1
  else if op.byte = 0x41 then -2
  else if op.byte = 0x44 then
    1 - ((o.method?.map fun r => r.params.length).getD 0 : Nat)
  else 0

/-- By how much an instruction raises the stack; `calls` says it of calls. -/
def Instr.stackEffect (calls : MethodRef → Int) (x : Instr) : Int :=
  match x.kind with
  | .nop | .branch | .ret => 0
  | .loadLocal | .loadLocalAddress => 1
  | .storeLocal | .throws => -1
  | .conditionalBranch => -x.op.operandCount
  | .call => (x.operand.method?.map calls).getD 0
  | .other => x.op.stackEffect x.operand

/-- On some path through the body, control comes to a place with `n` values on
the stack. -/
inductive Comes (calls : MethodRef → Int) (p : Program) (b : BodyId) :
    Option InstrId → Int → Prop
  | entry : Comes calls p b (p.first? b) 0
  | step {i : InstrId}
    {a : Option InstrId} {n : Int} : Comes calls p b (some i) n → Leads p i a →
    Comes calls p b a (n + (p.instr i).stackEffect calls)

variable {calls : MethodRef → Int} {p q : Program} {b : BodyId}
  {i j k t : InstrId} {a c : Option InstrId} {n : Int}

/-- Only conditional branches take operands as branches do. -/
theorem Opcode.operandCount_of_kind {op : Opcode} (hother : op.kind ≠ .other)
    (hbr : op.kind ≠ .conditionalBranch) : op.operandCount = 0 := by
  have htable : ∀ r ∈ table, r.kind ≠ .conditionalBranch →
      operandCount ⟨r.code⟩ = 0 := by decide
  rw [Opcode.kind] at hother hbr
  split at hbr
  · next r hr =>
      have hcode : r.code = op.byte := by simpa using List.find?_some hr
      have hzero := htable r (List.mem_of_find?_eq_some hr) hbr
      rwa [hcode] at hzero
  · next hnone =>
      rw [hnone] at hother
      exact absurd rfl hother

theorem stackEffect_of_isBranch {x : Instr} (h : x.isBranch = true) :
    x.stackEffect calls = -x.op.operandCount := by
  have hbranch : x.isBranch = x.kind.isBranch := rfl
  rw [hbranch] at h
  rw [Instr.stackEffect]
  cases hk : x.kind with
  | branch =>
      have hkind : x.op.kind = .branch := hk
      rw [Opcode.operandCount_of_kind (by simp [hkind]) (by simp [hkind])]
      rfl
  | conditionalBranch => rfl
  | _ =>
      rw [hk] at h
      cases h

theorem stackEffect_congr {x y : Instr} (hop : y.op = x.op)
    (hoperand : x.isBranch = false → y.operand = x.operand) :
    y.stackEffect calls = x.stackEffect calls := by
  have hkind : y.kind = x.kind := by rw [Instr.kind, hop, Instr.kind]
  have hbranch : x.isBranch = x.kind.isBranch := rfl
  rw [hbranch] at hoperand
  rw [Instr.stackEffect, Instr.stackEffect, hkind, hop]
  cases hk : x.kind with
  | call | other =>
      rw [hk] at hoperand
      simp only [hoperand rfl]
  | _ => rfl

/-- Control does not leave a closed body. -/
theorem Comes.inside (h : Comes calls p b a n) (hp : p.WellLinked)
    (hclosed : p.Closed b) : Inside p b a := by
  induction h with
  | entry => exact inside_first? hp
  | step _ hleads ih => exact inside_leads hp hclosed (inside_some.mp ih) hleads

/-- Depths of the places of a body that fit together along every step. -/
structure Labels (calls : MethodRef → Int) (p : Program) (b : BodyId)
    (label : Option InstrId → Int) : Prop where
  entry : label (p.first? b) = 0
  next : ∀ i ∈ p.code b, (p.instr i).fallsThrough = true →
    label (p.next i) = label (some i) + (p.instr i).stackEffect calls
  target : ∀ i ∈ p.code b, (p.instr i).isBranch = true → ∀ t ∈ p.target? i,
    label (some t) = label (some i) + (p.instr i).stackEffect calls

instance {label : Option InstrId → Int} : Decidable (Labels calls p b label) :=
  decidable_of_iff (label (p.first? b) = 0 ∧
      (∀ i ∈ p.code b, (p.instr i).fallsThrough = true →
        label (p.next i) = label (some i) + (p.instr i).stackEffect calls) ∧
      ∀ i ∈ p.code b, (p.instr i).isBranch = true → ∀ t ∈ p.target? i,
        label (some t) = label (some i) + (p.instr i).stackEffect calls)
    ⟨fun ⟨h, h', h''⟩ => ⟨h, h', h''⟩, fun h => ⟨h.entry, h.next, h.target⟩⟩

/-- Control comes to each place with the depth that the place has been given. -/
theorem Comes.eq_label {label : Option InstrId → Int} (h : Comes calls p b a n)
    (hp : p.WellLinked) (hclosed : p.Closed b)
    (hlabels : Labels calls p b label) : n = label a := by
  induction h with
  | entry => exact hlabels.entry.symm
  | step hcomes hleads ih =>
      have hi := inside_some.mp (hcomes.inside hp hclosed)
      rw [ih]
      cases hleads with
      | falls hfalls => exact (hlabels.next _ hi hfalls).symm
      | jumps hbr ht => exact (hlabels.target _ hi hbr _ ht).symm

/-- The body is looked at, and nothing else. -/
theorem comes_agree (hp : p.WellLinked) (hq : q.WellLinked)
    (hclosed : p.Closed b) (hpq : Program.AgreeOn b p q)
    (h : Comes calls q b a n) : Comes calls p b a n := by
  induction h with
  | entry =>
      rw [first?_agree hp hq hpq]
      exact .entry
  | @step i a n _ hleads ih =>
      have hi := inside_some.mp (ih.inside hp hclosed)
      rw [hpq.instr i (by rwa [← hp.code])]
      exact ih.step (leads_agree hp hq hpq hi hleads)

/-! ### Deleting -/

/-- An instruction is deleted that hands on the depth it is come to with, or
that is never come to. -/
theorem comes_without (hp : p.WellLinked) (hi : i ∈ p.code b)
    (hclosed : p.Closed b)
    (hd : (p.next i).isSome ∨ p.branchesTo b (some i) = [])
    (hpass : ∀ n, Comes calls p b (some i) n → Comes calls p b (p.next i) n)
    (h : Comes calls (p.without b i) b c n) : Comes calls p b c n := by
  have hskip : ∀ {a n}, Comes calls p b a n →
      Comes calls p b (skip p i a) n := by
    intro a n ha
    rw [skip]
    split
    · next hai => exact hpass n (hai ▸ ha)
    · exact ha
  have hplaces : ∀ {k n}, Comes calls (p.without b i) b (some k) n → k ≠ i := by
    intro k n hk
    have hin := hk.inside (hp.without hi) (hclosed.without hp hi hd)
    exact ((Program.mem_code_without hp hi).mp (inside_some.mp hin)).2
  induction h with
  | entry =>
      rw [Program.first?_without hp hi]
      exact hskip .entry
  | @step k c n hcomes hleads ih =>
      have hki := hplaces hcomes
      have hk := inside_some.mp (ih.inside hp hclosed)
      have hoperand := (Program.changedIn_without hp hi).operand k (hp.has hk)
      rw [stackEffect_congr (Program.op_without hp hi k) hoperand]
      obtain ⟨a, hleads', rfl⟩ :=
        leads_map (f := skip p i) (Program.op_without hp hi k)
        (Program.next_without hp hi hk hki) (fun hbr => by
          obtain ⟨t, -, ht⟩ := hclosed k hk hbr
          rw [Program.target?_without hp hi hk hki hbr, ht]
          by_cases hti : some t = some i
          · rcases hd with hn | hnone
            · obtain ⟨m, hm⟩ := Option.isSome_iff_exists.mp hn
              exact ⟨t, m, rfl, by rw [if_pos hti, hm],
                by rw [hti, skip_self, hm]⟩
            · have hmem : k ∈ p.branchesTo b (some i) :=
                Program.mem_branchesTo.mpr ⟨hk, hbr, ht.trans hti⟩
              rw [hnone] at hmem
              cases hmem
          · exact ⟨t, t, rfl, if_neg hti, skip_of_ne hti⟩) hleads
      exact hskip (ih.step hleads')

/-- Control never comes to an instruction that nothing leads to. -/
theorem not_comes_of_unreached (hp : p.WellLinked) (hi : i ∈ p.code b)
    (hclosed : p.Closed b) (hfirst : p.first? b ≠ some i)
    (hnone : p.branchesTo b (some i) = [])
    (hprev : ∀ k, p.prev i = some k → (p.instr k).fallsThrough = false) :
    ¬ Comes calls p b (some i) n := by
  intro h
  generalize ha : some i = a at h
  cases h with
  | entry => exact hfirst ha.symm
  | step hcomes hleads =>
      have hk := inside_some.mp (hcomes.inside hp hclosed)
      exact leads_ne_of_unreached hp hi hnone hprev hk hleads ha.symm

/-! ### Putting an instruction in the place of a branch -/

/-- Control comes to the new instruction as it came to the old one, provided
that what the new one leads to is so too. -/
theorem comes_exchange (hp : p.WellLinked) (hi : i ∈ p.code b) (hj : p.Has j)
    (hfree : p.owner j = none) (hclosed : p.Closed b)
    (hnew : ∀ n c, Comes calls p b (some i) n → Leads (p.exchange b i j) j c →
      ∃ a, Comes calls p b a (n + (p.instr j).stackEffect calls) ∧
      c = swapped i j a) (h : Comes calls (p.exchange b i j) b c n) :
    ∃ a, Comes calls p b a n ∧ c = swapped i j a := by
  have hop := Program.op_exchange hp hi hj hfree
  induction h with
  | entry => exact ⟨_, .entry, Program.first?_exchange hp hi hj hfree⟩
  | @step k c n _ hleads ih =>
      obtain ⟨a, ha, hk⟩ := ih
      have hoperand := (Program.changedIn_exchange hp hi hj hfree).operand
      by_cases hai : a = some i
      · rw [hai, swapped_self] at hk
        cases hk
        rw [hai] at ha
        rw [stackEffect_congr (hop j) (hoperand j hj)]
        exact hnew n c ha hleads
      · rw [swapped_of_ne hai] at hk
        subst hk
        have hk := inside_some.mp (ha.inside hp hclosed)
        have hki : k ≠ i := by simpa using hai
        have hk' : k ∈ (p.exchange b i j).code b :=
          (Program.mem_code_exchange hp hi hfree).mpr (Or.inr ⟨hk, hki⟩)
        rw [stackEffect_congr (hop k) (hoperand k (hp.has hk))]
        obtain ⟨a, hleads', rfl⟩ := leads_map (f := swapped i j) (hop k)
          (Program.next_exchange hp hi hj hfree hk hki) (fun hbr => by
            obtain ⟨t, -, ht⟩ := hclosed k hk hbr
            rw [Program.target?_exchange hp hi hj hfree hk' hbr, ht]
            by_cases hti : some t = some i
            · exact ⟨t, j, rfl, if_pos hti, by rw [hti, swapped_self]⟩
            · exact ⟨t, t, rfl, if_neg hti, swapped_of_ne hti⟩) hleads
        exact ⟨a, ha.step hleads', rfl⟩

/-! ### Sending a branch to the end of a chain -/

/-- Control that comes to a chain comes to its end with the same depth. -/
theorem comes_chainEnd {fuel : Nat} {seen : List InstrId}
    (h : Comes calls p b (some i) n)
    (hend : Peephole.chainEnd? p fuel seen i = some t) :
    Comes calls p b (some t) n := by
  induction fuel generalizing seen i with
  | zero => cases hend
  | succ fuel ih =>
      rw [Peephole.chainEnd?] at hend
      split at hend
      · cases hend
        exact h
      · next hkind =>
          have hkind : (p.instr i).kind = .branch := not_not.mp hkind
          split at hend
          · cases hend
          · obtain ⟨k, htarget, hrest⟩ := Option.bind_eq_some_iff.mp hend
            have hbr : (p.instr i).isBranch = true := by
              rw [Instr.isBranch, Opcode.isBranch,
                show (p.instr i).op.kind = .branch from hkind]
              rfl
            have hstep := h.step (.jumps hbr htarget)
            have hzero : (p.instr i).stackEffect calls = 0 := by
              rw [Instr.stackEffect, hkind]
            rw [hzero, add_zero] at hstep
            exact ih hstep hrest

theorem comes_setTarget {mid : InstrId} {fuel : Nat} {seen : List InstrId}
    (hp : p.WellLinked) (hi : i ∈ p.code b) (hclosed : p.Closed b)
    (hbr : (p.instr i).isBranch = true) (hmid : p.target? i = some mid)
    (hend : Peephole.chainEnd? p fuel seen mid = some t)
    (h : Comes calls (p.setTarget i (some t)) b c n) : Comes calls p b c n := by
  have hhas := hp.has hi
  have hq : (p.setTarget i (some t)).WellLinked :=
    hp.setTargets (l := [i]) (by simpa using hhas) _
  have hcode : (p.setTarget i (some t)).code b = p.code b :=
    Program.code_setTargets [i]
  have hinstr := Program.instr_setTarget (t := some t) hhas
  have hop : ∀ k, ((p.setTarget i (some t)).instr k).op = (p.instr k).op := by
    intro k
    rw [hinstr]
    split
    · next hk => rw [hk]
    · rfl
  induction h with
  | entry =>
      rw [hq.first?, hcode, ← hp.first?]
      exact .entry
  | @step k c n _ hleads ih =>
      have hk := inside_some.mp (ih.inside hp hclosed)
      have heffect : ((p.setTarget i (some t)).instr k).stackEffect calls =
          (p.instr k).stackEffect calls := by
        refine stackEffect_congr (hop k) fun hno => ?_
        rw [hinstr, if_neg]
        rintro rfl
        rw [hbr] at hno
        cases hno
      rw [heffect]
      cases hleads with
      | falls hfalls =>
          have hnext : (p.setTarget i (some t)).next k = p.next k :=
            Program.next_setTargets (l := [i]) (by simpa using hhas) k
          rw [hnext]
          refine ih.step (.falls ?_)
          rwa [Instr.fallsThrough, Instr.kind, hop] at hfalls
      | jumps hbr' ht =>
          rw [Instr.isBranch, hop] at hbr'
          rw [Program.target?, hinstr] at ht
          split at ht
          · next hki =>
              subst hki
              rw [Option.some.inj
                (ht.symm.trans (Operand.target?_ofTarget (some t)))]
              exact comes_chainEnd (ih.step (.jumps hbr hmid)) hend
          · exact ih.step (.jumps hbr' ht)

end Bytecode
